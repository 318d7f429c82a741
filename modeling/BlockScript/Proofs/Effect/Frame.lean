import BlockScript.Proofs.Effect.Execution

/-!
# What execution leaves alone

A statement can change the slot of a name in a scope in two ways only: it assigns to the name, or it
declares the name and the scope is the innermost one. A name that it does neither to keeps its slot
there, whatever blocks of the statement declare the name for themselves and however the execution
ends.
-/

namespace BlockScript

/-- A slot that may neither be assigned to nor be declared is the same afterwards. -/
theorem Slot.Changes.eq_of_not {mayAssign mayDeclare : Prop} {before after : Option Slot}
    (changes : Changes mayAssign mayDeclare before after) (unassigned : ¬ mayAssign)
    (undeclared : ¬ mayDeclare) : after = before := by
  cases changes with
  | same => rfl
  | assigned allowed => exact absurd allowed unassigned
  | declared allowed => exact absurd allowed undeclared

namespace Scopes

/-- The slots of a name are what they were. That includes the innermost scope if so it is said. -/
structure Frames (name : String) (withInnermost : Prop) (before after : Scopes) : Prop where
  /-- As many scopes are open. -/
  depth_eq : after.depth = before.depth
  /-- A scope that is not the innermost one has the same slot for the name, or has none again. -/
  outer_eq : ∀ level < before.depth, after.slotAt? level name = before.slotAt? level name
  innermost_eq : withInnermost →
    after.slotAt? before.depth name = before.slotAt? before.depth name

/-- The slots of a name that may not be assigned to change in the innermost scope at most, and only
if the name may be declared there. -/
theorem Changes.frames {mayAssign mayDeclare : String → Prop} {before after : Scopes}
    (changes : before.Changes mayAssign mayDeclare after) {name : String}
    (unassigned : ¬ mayAssign name) : before.Frames name (¬ mayDeclare name) after where
  depth_eq := changes.depth_eq
  outer_eq level outward := by
    have notInnermost : ¬ (level = before.depth ∧ mayDeclare name) :=
      fun innermost => Nat.ne_of_lt outward innermost.1
    exact (changes.slots level (Nat.le_of_lt outward) name).eq_of_not unassigned notInnermost
  innermost_eq undeclared := by
    have notDeclared : ¬ (before.depth = before.depth ∧ mayDeclare name) :=
      fun declared => undeclared declared.2
    exact (changes.slots before.depth (Nat.le_refl _) name).eq_of_not unassigned notDeclared

end Scopes

/-- However a statement ends, a name to which nothing in it assigns has the slots that it had in all
scopes but the innermost one, and in that one too unless the statement declares the name outside of
its blocks. -/
theorem Stmt.frames_unassigned {fuel : Nat} {statement : Stmt} {before after : Machine}
    {result : Except Failure Completion} (ends : (statement.exec fuel).Ends before result after)
    {name : String} (unassigned : name ∉ statement.targets) :
    before.scopes.Frames name (name ∉ statement.exposed) after.scopes := by
  have confined : (statement.exec fuel).Confined (· ∈ statement.targets) (· ∈ statement.exposed) :=
    statement.confined_exec fuel (fun _ member => member) fun _ member => member
  exact (confined _ _ _ ends).frames unassigned

/-- A loop whose body declares a name in a block, declares it again in a block inside of it, and
then leaves the loop. -/
def shadowingLoop : Stmt :=
  let name : Token := ⟨.identifier, "a", none, 1⟩
  .whileLoop (.literal (.boolean true)) (.block [.declare name (some (.literal .nil)),
    .block [.declare name none, .breakLoop ⟨.keyword .breakWord, "break", none, 1⟩]])

/-- A scope that knows a name without a value, inside of a global one in which the name is true. -/
def shadowedScopes : Scopes :=
  .inner (.binding "a" .unset .empty) (.global (.binding "a" (.holding (.boolean true)) .empty))

/-- Both declarations are gone with their blocks when the loop has been left. -/
theorem Stmt.frames_shadowingLoop :
    (shadowingLoop.exec 1).Ends ⟨shadowedScopes, .empty⟩ (.ok .normal) ⟨shadowedScopes, .empty⟩ ∧
      "a" ∉ shadowingLoop.targets ∧ "a" ∉ shadowingLoop.exposed ∧
      shadowedScopes.slotAt? 0 "a" = some (.holding (.boolean true)) ∧
      shadowedScopes.slotAt? 1 "a" = some .unset ∧
      shadowedScopes.Frames "a" ("a" ∉ shadowingLoop.exposed) shadowedScopes := by
  have ends : (shadowingLoop.exec 1).Ends ⟨shadowedScopes, .empty⟩ (.ok .normal)
      ⟨shadowedScopes, .empty⟩ := ⟨rfl, rfl⟩
  have unassigned : "a" ∉ shadowingLoop.targets := by decide
  exact ⟨ends, unassigned, by decide, rfl, rfl, frames_unassigned ends unassigned⟩

end BlockScript
