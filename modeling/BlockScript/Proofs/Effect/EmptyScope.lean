import BlockScript.Proofs.Effect.Correspondence
import BlockScript.Proofs.Semantics.Ending

/-!
# Empty scopes cannot be seen

Nothing is found in an empty scope and nothing can be assigned in it, so a program can tell that the
scope is there only by a declaration in it. A block whose statements declare nothing in its scope is
therefore no more than its statements.
-/

namespace BlockScript

/-- The second stack has one more scope than the first, which is empty and has a number of scopes
inside of it. -/
inductive Scopes.Padded : Nat → Scopes → Scopes → Prop where
  | here (scopes : Scopes) : Padded 0 scopes scopes.enter
  | inside {count : Nat} {left right : Scopes} (scope : Scope) (outer : Padded count left right) :
      Padded (count + 1) (.inner scope left) (.inner scope right)

namespace Scopes.Padded

variable {count : Nat} {left right : Scopes}

theorem find?_eq (padded : Padded count left right) (name : String) :
    right.find? name = left.find? name := by
  induction padded with
  | here scopes => rfl
  | inside scope outer inductionHypothesis => simp only [Scopes.find?, inductionHypothesis]

theorem assign? (padded : Padded count left right) (name : String) (value : Value) :
    Option.Rel (Padded count) (left.assign? name value) (right.assign? name value) := by
  induction padded with
  | here scopes =>
      simp only [enter, Scopes.assign?, Scope.find?_empty]
      cases scopes.assign? name value with
      | none => exact .none
      | some assigned => exact .some (.here assigned)
  | @inside count left right scope outer inductionHypothesis =>
      simp only [Scopes.assign?]
      cases scope.find? name with
      | some old => exact .some (.inside _ outer)
      | none =>
          generalize left.assign? name value = leftAfter,
            right.assign? name value = rightAfter at inductionHypothesis ⊢
          cases inductionHypothesis with
          | none => exact .none
          | some outer => exact .some (.inside scope outer)

theorem declare (padded : Padded (count + 1) left right) (name : String) (slot : Slot) :
    Padded (count + 1) (left.declare name slot) (right.declare name slot) := by
  cases padded with
  | inside scope outer => exact .inside _ outer

theorem leave (padded : Padded (count + 1) left right) : Padded count left.leave right.leave := by
  cases padded with
  | inside scope outer => exact outer

end Scopes.Padded

/-- Programs cannot see an empty scope from the inside of another one. -/
theorem correspondence_padded : Correspondence Scopes.Padded Eq where
  find? padded := padded.find?_eq
  assign? padded := padded.assign?
  declare padded := padded.declare
  enter padded := .inside .empty padded
  leave padded := padded.leave
  writeLine same line := congrArg (Sink.writeLine line) same

theorem machines_padded_iff {left right : Machine} :
    Correspondence.Machines Scopes.Padded Eq 0 left right ↔
      right = ⟨left.scopes.enter, left.output⟩ := by
  constructor
  · intro machines
    cases right with
    | mk scopes output =>
        obtain ⟨padded, sameOutput⟩ := machines
        cases padded
        cases sameOutput
        rfl
  · intro isRight
    subst isRight
    exact ⟨.here left.scopes, rfl⟩

/-- A computation that cannot see whether it has an empty scope of its own needs none. -/
theorem Execution.inScope_eq_self {action : Execution α}
    (respects : Respects (Correspondence.Machines Scopes.Padded Eq 0) action) :
    inScope action = action := by
  funext machine
  have replies := respects machine ⟨machine.scopes.enter, machine.output⟩
    (machines_padded_iff.mpr rfl)
  rw [inScope]
  generalize action machine = reply,
    action ⟨machine.scopes.enter, machine.output⟩ = replyInside at replies ⊢
  cases replies with
  | ok result machines | error stop machines =>
      cases machines_padded_iff.mp machines
      rfl

/-- A block in whose own scope nothing is declared is no more than its statements. -/
theorem Stmt.exec_block_of_exposed (fuel : Nat) {body : List Stmt}
    (enclosed : ∀ statement ∈ body, statement.exposed = []) :
    (block body).exec fuel = execAll fuel body := by
  rw [exec]
  exact Execution.inScope_eq_self
    (respects_execAll correspondence_padded fuel body fun _ => enclosed)

end BlockScript
