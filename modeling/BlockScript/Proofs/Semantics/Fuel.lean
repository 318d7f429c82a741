import BlockScript.Proofs.Semantics.Ending

/-!
# More fuel changes no ending

What ends with some fuel ends in the same way with more. Fuel only bounds the rounds of loops, so
this is a matter of repetitions; everything else hands on the fuel of its parts.
-/

namespace BlockScript

/-- Whatever ends in one execution ends in the same way in the other one. -/
def Execution.Extends (action more : Execution α) : Prop :=
  ∀ before result after, action.Ends before result after → more.Ends before result after

namespace Execution

theorem extends_refl (action : Execution α) : action.Extends action := by
  intro before result after ends
  exact ends

theorem extends_bind {action more : Execution α} {next nextMore : α → Execution β}
    (first : action.Extends more) (second : ∀ value, (next value).Extends (nextMore value)) :
    (action >>= next).Extends (more >>= nextMore) := by
  intro before result after ends
  rcases (ends_bind action next result).mp ends with
    ⟨value, between, firstEnds, secondEnds⟩ | ⟨failure, rfl, failed⟩
  · exact (first _ _ _ firstEnds).bind (second value _ _ _ secondEnds)
  · exact (first _ _ _ failed).bind_error nextMore

theorem extends_inScope {body more : Execution α} (bodyExtends : body.Extends more) :
    (inScope body).Extends (inScope more) := by
  intro before result after ends
  rcases (ends_inScope body result).mp ends with ⟨inside, bodyEnds, isAfter⟩
  exact (ends_inScope more result).mpr ⟨inside, bodyExtends _ _ _ bodyEnds, isAfter⟩

/-- A repetition that ends also ends if it may go on for longer. -/
theorem extends_repeatWhile (condition : Expr) {body more : Execution Completion}
    (bodyExtends : body.Extends more) {fuel moreFuel : Nat} (enough : fuel ≤ moreFuel) :
    (repeatWhile condition body fuel).Extends (repeatWhile condition more moreFuel) := by
  induction fuel generalizing moreFuel with
  | zero =>
      intro before result after ends
      exact absurd ends (not_ends_repeatWhile_zero condition body before result after)
  | succ fuel inductionHypothesis =>
      cases moreFuel with
      | zero => exact absurd enough (Nat.not_succ_le_zero fuel)
      | succ moreFuel =>
          rw [repeatWhile, repeatWhile]
          apply extends_bind (extends_refl (eval condition))
          intro value
          split
          · apply extends_bind bodyExtends
            intro completion
            cases completion with
            | normal => exact inductionHypothesis (Nat.le_of_succ_le_succ enough)
            | breaking => exact extends_refl _
          · exact extends_refl _

end Execution

open Execution

mutual

theorem Stmt.extends_exec {fuel moreFuel : Nat} (enough : fuel ≤ moreFuel) :
    (statement : Stmt) → (statement.exec fuel).Extends (statement.exec moreFuel)
  | .print value => by
      rw [exec, exec]
      exact extends_refl _
  | .expression value => by
      rw [exec, exec]
      exact extends_refl _
  | .declare name none => by
      rw [exec, exec]
      exact extends_refl _
  | .declare name (some initial) => by
      rw [exec, exec]
      exact extends_refl _
  | .block body => by
      rw [exec, exec]
      exact extends_inScope (extends_execAll enough body)
  | .ifThen condition whenTrue => by
      rw [exec, exec]
      apply extends_bind (extends_refl (eval condition))
      intro value
      split
      · exact extends_exec enough whenTrue
      · exact extends_refl _
  | .ifElse condition whenTrue whenFalse => by
      rw [exec, exec]
      apply extends_bind (extends_refl (eval condition))
      intro value
      split
      · exact extends_exec enough whenTrue
      · exact extends_exec enough whenFalse
  | .whileLoop condition body => by
      rw [exec, exec]
      exact extends_repeatWhile condition (extends_exec enough body) enough
  | .breakLoop _ => by
      rw [exec, exec]
      exact extends_refl _

theorem Stmt.extends_execAll {fuel moreFuel : Nat} (enough : fuel ≤ moreFuel) :
    (body : List Stmt) → (execAll fuel body).Extends (execAll moreFuel body)
  | [] => by
      rw [execAll, execAll]
      exact extends_refl _
  | statement :: rest => by
      rw [execAll, execAll]
      apply extends_bind (extends_exec enough statement)
      intro completion
      cases completion with
      | normal => exact extends_execAll enough rest
      | breaking => exact extends_refl _

end

/-- A program that ends with some fuel ends in the same way with more. -/
theorem extends_interpret {fuel moreFuel : Nat} (enough : fuel ≤ moreFuel) (program : List Stmt) :
    (interpret fuel program).Extends (interpret moreFuel program) := by
  induction program with
  | nil => exact extends_refl _
  | cons statement rest inductionHypothesis =>
      rw [interpret, interpret]
      exact extends_bind (statement.extends_exec enough) fun _ => inductionHypothesis

end BlockScript
