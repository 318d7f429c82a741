import BlockScript.Proofs.Semantics.Depth
import BlockScript.Proofs.Semantics.Fuel

/-!
# Execution follows the semantics

A statement ends with some fuel in exactly the way that the big-step semantics gives for it. What
ends is derived, by induction on the statement and, for a loop, on its rounds; what is derived ends
with enough fuel, by induction on the derivation.
-/

namespace BlockScript

open Execution

variable {before after : Machine} {result : Except Failure Completion}

namespace Execution

/-- What begins with an evaluation goes on from its value, or stops at its failure. -/
theorem ends_eval_bind (expr : Expr) (next : Value → Execution α) {result : Except Failure α}
    {scopes : Scopes} {output : Sink} :
    (eval expr >>= next).Ends ⟨scopes, output⟩ result after ↔
      (∃ value between, Evaluates expr scopes (.ok value) between ∧
        (next value).Ends ⟨between, output⟩ result after) ∨
      ∃ failure left, result = .error failure ∧ Evaluates expr scopes (.error failure) left ∧
        after = ⟨left, output⟩ := by
  rw [Execution.Ends, ends_bind]
  constructor
  · intro ends
    rcases ends with ⟨value, ⟨between, written⟩, evaluated, ends⟩ | ⟨failure, isFailure, failed⟩
    · rcases (ends_eval expr _).mp evaluated with ⟨evalEnds, rfl⟩
      exact .inl ⟨value, between, evaluates_of_ends expr evalEnds, ends⟩
    · cases after with
      | mk left written =>
          rcases (ends_eval expr _).mp failed with ⟨evalEnds, rfl⟩
          exact .inr ⟨failure, left, isFailure, evaluates_of_ends expr evalEnds, rfl⟩
  · intro ends
    rcases ends with ⟨value, between, evaluated, ends⟩ | ⟨failure, left, isFailure, failed, rfl⟩
    · exact .inl ⟨value, ⟨between, output⟩, (ends_eval expr _).mpr ⟨evaluated.ends, rfl⟩, ends⟩
    · exact .inr ⟨failure, isFailure, (ends_eval expr _).mpr ⟨failed.ends, rfl⟩⟩

end Execution

/-! ## From executions to derivations -/

/-- If what the body ends with is derived, then so is what any number of its rounds ends with. -/
theorem executes_of_ends_repeatWhile {condition : Expr} {body : Stmt} {run : Execution Completion}
    (bodyExecutes : ∀ {before result after}, run.Ends before result after →
      Executes body before result after) (fuel : Nat)
    (ends : (repeatWhile condition run fuel).Ends before result after) :
    Executes (.whileLoop condition body) before result after := by
  induction fuel generalizing before with
  | zero => exact absurd ends (not_ends_repeatWhile_zero condition run before result after)
  | succ fuel inductionHypothesis =>
      rw [repeatWhile] at ends
      rcases (ends_eval_bind condition _).mp ends with
        ⟨value, between, evaluated, ends⟩ | ⟨failure, left, rfl, failed, rfl⟩
      · split at ends
        · rename_i isTruthy
          have truthy := value.not_falsey_iff.mpr isTruthy
          rcases (ends_bind run _ _).mp ends with
            ⟨completion, middle, bodyEnds, ends⟩ | ⟨failure, rfl, failed⟩
          · cases completion with
            | normal =>
                exact .whileRepeats evaluated truthy (bodyExecutes bodyEnds)
                  (inductionHypothesis ends)
            | breaking =>
                rcases ends with ⟨rfl, rfl⟩
                exact .whileBroken evaluated truthy (bodyExecutes bodyEnds)
          · exact .whileBodyFails evaluated truthy (bodyExecutes failed)
        · rename_i notTruthy
          rcases ends with ⟨rfl, rfl⟩
          exact .whileEnds evaluated (value.falsey_iff.mpr (Bool.of_not_eq_true notTruthy))
      · exact .whileFails failed

mutual

theorem executes_of_ends (fuel : Nat) : (statement : Stmt) → {before after : Machine} →
    {result : Except Failure Completion} →
    (statement.exec fuel).Ends before result after → Executes statement before result after
  | .print value, _, _, _, ends => by
      rw [Stmt.exec] at ends
      rcases (ends_eval_bind value _).mp ends with
        ⟨shown, between, evaluated, ends⟩ | ⟨failure, left, rfl, failed, rfl⟩
      · rcases ends with ⟨rfl, rfl⟩
        exact .print evaluated
      · exact .printFails failed
  | .expression value, _, _, _, ends => by
      rw [Stmt.exec] at ends
      rcases (ends_eval_bind value _).mp ends with
        ⟨shown, between, evaluated, ends⟩ | ⟨failure, left, rfl, failed, rfl⟩
      · rcases ends with ⟨rfl, rfl⟩
        exact .expression evaluated
      · exact .expressionFails failed
  | .declare name none, _, _, _, ends => by
      rw [Stmt.exec] at ends
      rcases ends with ⟨rfl, rfl⟩
      exact .declare ((Scopes.declared_iff _ _ _ _).mpr rfl)
  | .declare name (some initial), _, _, _, ends => by
      rw [Stmt.exec] at ends
      rcases (ends_eval_bind initial _).mp ends with
        ⟨shown, between, evaluated, ends⟩ | ⟨failure, left, rfl, failed, rfl⟩
      · rcases ends with ⟨rfl, rfl⟩
        exact .declareHolding evaluated ((Scopes.declared_iff _ _ _ _).mpr rfl)
      · exact .declareFails failed
  | .block body, ⟨before, output⟩, ⟨after, written⟩, _, ends => by
      rw [Stmt.exec] at ends
      rcases (ends_inScope _ _).mp ends with ⟨inside, bodyEnds, rfl⟩
      have deep : inside.depth = before.depth + 1 :=
        Stmt.keepsDepth_execAll fuel body _ _ _ bodyEnds
      rcases Scopes.eq_inner_of_depth deep with ⟨dropped, isInside⟩
      rw [isInside] at bodyEnds
      exact .block (executesAll_of_ends fuel body bodyEnds)
  | .ifThen condition whenTrue, _, _, _, ends => by
      rw [Stmt.exec] at ends
      rcases (ends_eval_bind condition _).mp ends with
        ⟨value, between, evaluated, ends⟩ | ⟨failure, left, rfl, failed, rfl⟩
      · split at ends
        · rename_i truthy
          exact .ifThen evaluated (value.not_falsey_iff.mpr truthy)
            (executes_of_ends fuel whenTrue ends)
        · rename_i notTruthy
          rcases ends with ⟨rfl, rfl⟩
          exact .ifThenSkips evaluated
            (value.falsey_iff.mpr (Bool.of_not_eq_true notTruthy))
      · exact .ifThenFails failed
  | .ifElse condition whenTrue whenFalse, _, _, _, ends => by
      rw [Stmt.exec] at ends
      rcases (ends_eval_bind condition _).mp ends with
        ⟨value, between, evaluated, ends⟩ | ⟨failure, left, rfl, failed, rfl⟩
      · split at ends
        · rename_i truthy
          exact .ifElseTrue evaluated (value.not_falsey_iff.mpr truthy)
            (executes_of_ends fuel whenTrue ends)
        · rename_i notTruthy
          exact .ifElseFalse evaluated
            (value.falsey_iff.mpr (Bool.of_not_eq_true notTruthy))
            (executes_of_ends fuel whenFalse ends)
      · exact .ifElseFails failed
  | .whileLoop condition body, _, _, _, ends => by
      rw [Stmt.exec] at ends
      exact executes_of_ends_repeatWhile (executes_of_ends fuel body) fuel ends
  | .breakLoop _, _, _, _, ends => by
      rw [Stmt.exec] at ends
      rcases ends with ⟨rfl, rfl⟩
      exact .breakLoop

theorem executesAll_of_ends (fuel : Nat) : (body : List Stmt) → {before after : Machine} →
    {result : Except Failure Completion} →
    (Stmt.execAll fuel body).Ends before result after → ExecutesAll body before result after
  | [], _, _, _, ends => by
      rw [Stmt.execAll] at ends
      rcases ends with ⟨rfl, rfl⟩
      exact .nil
  | statement :: rest, _, _, _, ends => by
      rw [Stmt.execAll] at ends
      rcases (ends_bind _ _ _).mp ends with
        ⟨completion, between, first, ends⟩ | ⟨failure, rfl, failed⟩
      · have executed := executes_of_ends fuel statement first
        cases completion with
        | normal => exact .next executed (executesAll_of_ends fuel rest ends)
        | breaking =>
            rcases ends with ⟨rfl, rfl⟩
            exact .broken executed
      · exact .fails (executes_of_ends fuel statement failed)

end

/-! ## From derivations to executions -/

theorem Evaluates.bind {expr : Expr} {value : Value} {scopes between : Scopes} {output : Sink}
    {next : Value → Execution α} {result : Except Failure α}
    (evaluated : Evaluates expr scopes (.ok value) between)
    (ends : (next value).Ends ⟨between, output⟩ result after) :
    (eval expr >>= next).Ends ⟨scopes, output⟩ result after :=
  (ends_eval_bind expr next).mpr (.inl ⟨value, between, evaluated, ends⟩)

theorem Evaluates.bind_error {expr : Expr} {failure : Failure} {scopes left : Scopes} {output : Sink}
    (failed : Evaluates expr scopes (.error failure) left) (next : Value → Execution α) :
    (eval expr >>= next).Ends ⟨scopes, output⟩ (.error failure) ⟨left, output⟩ :=
  (ends_eval_bind expr next).mpr (.inr ⟨failure, left, rfl, failed, rfl⟩)

section Repetition

variable {condition : Expr} {run : Execution Completion} {scopes between : Scopes} {output : Sink}

theorem Evaluates.repeats {value : Value} {fuel : Nat} {middle : Machine}
    (evaluated : Evaluates condition scopes (.ok value) between) (truthy : ¬ value.Falsey)
    (bodyEnds : run.Ends ⟨between, output⟩ (.ok .normal) middle)
    (ends : (repeatWhile condition run fuel).Ends middle result after) :
    (repeatWhile condition run (fuel + 1)).Ends ⟨scopes, output⟩ result after := by
  rw [repeatWhile]
  apply evaluated.bind
  rw [if_pos (value.not_falsey_iff.mp truthy)]
  exact bodyEnds.bind ends

theorem Evaluates.breaks {value : Value} (fuel : Nat)
    (evaluated : Evaluates condition scopes (.ok value) between) (truthy : ¬ value.Falsey)
    (bodyEnds : run.Ends ⟨between, output⟩ (.ok .breaking) after) :
    (repeatWhile condition run (fuel + 1)).Ends ⟨scopes, output⟩ (.ok .normal) after := by
  rw [repeatWhile]
  apply evaluated.bind
  rw [if_pos (value.not_falsey_iff.mp truthy)]
  exact bodyEnds.bind ⟨rfl, rfl⟩

theorem Evaluates.roundFails {value : Value} {failure : Failure} (fuel : Nat)
    (evaluated : Evaluates condition scopes (.ok value) between) (truthy : ¬ value.Falsey)
    (failed : run.Ends ⟨between, output⟩ (.error failure) after) :
    (repeatWhile condition run (fuel + 1)).Ends ⟨scopes, output⟩ (.error failure) after := by
  rw [repeatWhile]
  apply evaluated.bind
  rw [if_pos (value.not_falsey_iff.mp truthy)]
  exact failed.bind_error _

end Repetition

mutual

theorem Executes.ends : {statement : Stmt} → {before after : Machine} →
    {result : Except Failure Completion} → Executes statement before result after →
    ∃ fuel, (statement.exec fuel).Ends before result after
  | _, _, _, _, .print evaluated => by
      exists 0
      rw [Stmt.exec]
      exact evaluated.bind ⟨rfl, rfl⟩
  | _, _, _, _, .printFails failed => by
      exists 0
      rw [Stmt.exec]
      exact failed.bind_error _
  | _, _, _, _, .expression evaluated => by
      exists 0
      rw [Stmt.exec]
      exact evaluated.bind ⟨rfl, rfl⟩
  | _, _, _, _, .expressionFails failed => by
      exists 0
      rw [Stmt.exec]
      exact failed.bind_error _
  | _, _, _, _, .declare declared => by
      exists 0
      rw [Stmt.exec]
      rw [← (Scopes.declared_iff _ _ _ _).mp declared]
      exact ⟨rfl, rfl⟩
  | _, _, _, _, .declareHolding evaluated declared => by
      exists 0
      rw [Stmt.exec]
      rw [← (Scopes.declared_iff _ _ _ _).mp declared]
      exact evaluated.bind ⟨rfl, rfl⟩
  | _, _, _, _, .declareFails failed => by
      exists 0
      rw [Stmt.exec]
      exact failed.bind_error _
  | _, _, _, _, .block executed => by
      rcases executed.ends with ⟨fuel, bodyEnds⟩
      exists fuel
      rw [Stmt.exec]
      exact (ends_inScope _ _).mpr ⟨_, bodyEnds, rfl⟩
  | _, _, _, _, .ifThen evaluated truthy executed => by
      rcases executed.ends with ⟨fuel, branchEnds⟩
      exists fuel
      rw [Stmt.exec]
      apply evaluated.bind
      rw [if_pos ((Value.not_falsey_iff _).mp truthy)]
      exact branchEnds
  | _, _, _, _, .ifThenSkips evaluated falsey => by
      exists 0
      rw [Stmt.exec]
      apply evaluated.bind
      rw [(Value.falsey_iff _).mp falsey, if_neg Bool.false_ne_true]
      exact ⟨rfl, rfl⟩
  | _, _, _, _, .ifThenFails failed => by
      exists 0
      rw [Stmt.exec]
      exact failed.bind_error _
  | _, _, _, _, .ifElseTrue evaluated truthy executed => by
      rcases executed.ends with ⟨fuel, branchEnds⟩
      exists fuel
      rw [Stmt.exec]
      apply evaluated.bind
      rw [if_pos ((Value.not_falsey_iff _).mp truthy)]
      exact branchEnds
  | _, _, _, _, .ifElseFalse evaluated falsey executed => by
      rcases executed.ends with ⟨fuel, branchEnds⟩
      exists fuel
      rw [Stmt.exec]
      apply evaluated.bind
      rw [(Value.falsey_iff _).mp falsey, if_neg Bool.false_ne_true]
      exact branchEnds
  | _, _, _, _, .ifElseFails failed => by
      exists 0
      rw [Stmt.exec]
      exact failed.bind_error _
  | _, _, _, _, .whileEnds evaluated falsey => by
      exists 1
      rw [Stmt.exec, repeatWhile]
      apply evaluated.bind
      rw [(Value.falsey_iff _).mp falsey, if_neg Bool.false_ne_true]
      exact ⟨rfl, rfl⟩
  | _, _, _, _, .whileFails failed => by
      exists 1
      rw [Stmt.exec, repeatWhile]
      exact failed.bind_error _
  | _, _, _, _, .whileRepeats evaluated truthy executed repeated => by
      rcases executed.ends with ⟨bodyFuel, bodyEnds⟩
      rcases repeated.ends with ⟨loopFuel, loopEnds⟩
      rw [Stmt.exec] at loopEnds
      exists max bodyFuel loopFuel + 1
      have bodyEnough := Nat.le_max_left bodyFuel loopFuel
      have loopEnough := Nat.le_max_right bodyFuel loopFuel
      rw [Stmt.exec]
      apply evaluated.repeats truthy
      · exact Stmt.extends_exec (Nat.le_succ_of_le bodyEnough) _ _ _ _ bodyEnds
      · have bodyExtends := Stmt.extends_exec (Nat.le_succ_of_le loopEnough)
        exact extends_repeatWhile _ (bodyExtends _) loopEnough _ _ _ loopEnds
  | _, _, _, _, .whileBroken evaluated truthy executed => by
      rcases executed.ends with ⟨fuel, bodyEnds⟩
      exists fuel + 1
      rw [Stmt.exec]
      exact evaluated.breaks fuel truthy (Stmt.extends_exec (Nat.le_succ fuel) _ _ _ _ bodyEnds)
  | _, _, _, _, .whileBodyFails evaluated truthy failed => by
      rcases failed.ends with ⟨fuel, bodyEnds⟩
      exists fuel + 1
      rw [Stmt.exec]
      exact evaluated.roundFails fuel truthy (Stmt.extends_exec (Nat.le_succ fuel) _ _ _ _ bodyEnds)
  | _, _, _, _, .breakLoop => ⟨0, rfl, rfl⟩

theorem ExecutesAll.ends : {body : List Stmt} → {before after : Machine} →
    {result : Except Failure Completion} → ExecutesAll body before result after →
    ∃ fuel, (Stmt.execAll fuel body).Ends before result after
  | _, _, _, _, .nil => ⟨0, rfl, rfl⟩
  | _, _, _, _, .next first others => by
      rcases first.ends with ⟨firstFuel, firstEnds⟩
      rcases others.ends with ⟨othersFuel, othersEnd⟩
      exists max firstFuel othersFuel
      have firstExtends := Stmt.extends_exec (Nat.le_max_left firstFuel othersFuel)
      have othersExtend := Stmt.extends_execAll (Nat.le_max_right firstFuel othersFuel)
      rw [Stmt.execAll]
      exact (firstExtends _ _ _ _ firstEnds).bind (othersExtend _ _ _ _ othersEnd)
  | _, _, _, _, .broken first => by
      rcases first.ends with ⟨fuel, firstEnds⟩
      exists fuel
      rw [Stmt.execAll]
      exact firstEnds.bind ⟨rfl, rfl⟩
  | _, _, _, _, .fails failed => by
      rcases failed.ends with ⟨fuel, firstEnds⟩
      exists fuel
      rw [Stmt.execAll]
      exact firstEnds.bind_error _

end

/-- A statement ends, with enough fuel, exactly as the semantics says. -/
theorem ends_exec_iff (statement : Stmt) (before : Machine) (result : Except Failure Completion)
    (after : Machine) :
    (∃ fuel, (statement.exec fuel).Ends before result after) ↔
      Executes statement before result after := by
  constructor
  · intro ends
    rcases ends with ⟨fuel, ends⟩
    exact executes_of_ends fuel statement ends
  · exact Executes.ends

end BlockScript
