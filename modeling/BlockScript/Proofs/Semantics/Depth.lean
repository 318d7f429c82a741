import BlockScript.Proofs.Effect.Execution

/-!
# Scopes are closed again

Whatever ends leaves as many scopes open as it finds open: a block closes the scope that it opens,
and nothing else opens or closes any. This is the part of what execution can change that does not
depend on names.
-/

namespace BlockScript

/-- A stack with a scope above the global one has an innermost scope to close. -/
theorem Scopes.eq_inner_of_depth {scopes : Scopes} {depth : Nat} (deep : scopes.depth = depth + 1) :
    ∃ dropped, scopes = .inner dropped scopes.leave := by
  cases scopes with
  | global scope => cases deep
  | inner scope outer => exact ⟨scope, rfl⟩

/-- An execution leaves as many scopes open as it finds open, however it ends. -/
def Execution.KeepsDepth (action : Execution α) : Prop :=
  ∀ before result after, action.Ends before result after → after.scopes.depth = before.scopes.depth

theorem Execution.Confined.keepsDepth {mayAssign mayDeclare : String → Prop} {action : Execution α}
    (confined : action.Confined mayAssign mayDeclare) : action.KeepsDepth :=
  fun before result after ends => (confined before result after ends).depth_eq

theorem Stmt.keepsDepth_execAll (fuel : Nat) (body : List Stmt) : (execAll fuel body).KeepsDepth :=
  (confined_execAll fuel body fun _ _ => True.intro).keepsDepth

theorem keepsDepth_interpret (fuel : Nat) (program : List Stmt) :
    (interpret fuel program).KeepsDepth :=
  (confined_interpret fuel program).keepsDepth

end BlockScript
