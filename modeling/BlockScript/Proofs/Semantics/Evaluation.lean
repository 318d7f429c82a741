import BlockScript.Proofs.Semantics.BigStep
import BlockScript.Proofs.Semantics.Ending

/-!
# Evaluation follows the semantics

Evaluation always ends, and it ends in exactly the way that the big-step semantics gives for the
expression. One direction is by induction on the expression, the other one on the derivation.
-/

namespace BlockScript

variable {before after : Scopes}

namespace Evaluation

theorem get_bind (next : Scopes → Evaluation α) (scopes : Scopes) :
    ((get : Evaluation Scopes) >>= next) scopes = next scopes scopes := rfl

theorem read_of_holding {name : Token} {value : Value}
    (found : before.find? name.lexeme = some (.holding value)) :
    read name before = (pure value : Evaluation Value) before := by
  rw [read, get_bind, found]

theorem read_of_unset {name : Token} (found : before.find? name.lexeme = some .unset) :
    read name before = (throw ⟨name, .uninitializedVariable⟩ : Evaluation Value) before := by
  rw [read, get_bind, found]

theorem read_of_none {name : Token} (absent : before.find? name.lexeme = none) :
    read name before = (throw ⟨name, .undefinedVariable⟩ : Evaluation Value) before := by
  rw [read, get_bind, absent]

theorem assign_of_some {name : Token} {value : Value}
    (success : before.assign? name.lexeme value = some after) :
    assign name value before = .ok () after := by
  rw [assign, get_bind, success]
  rfl

theorem assign_of_none {name : Token} {value : Value}
    (failure : before.assign? name.lexeme value = none) :
    assign name value before = (throw ⟨name, .undefinedVariable⟩ : Evaluation Unit) before := by
  rw [assign, get_bind, failure]

theorem ends_read (name : Token) (result : Except Failure Value) :
    (read name).Ends before result after ↔ Evaluates (.variable name) before result after := by
  constructor
  · intro ends
    cases found : before.find? name.lexeme with
    | none =>
        have thrown := (ends_congr (read_of_none found) result).mp ends
        rcases (ends_throw _ _).mp thrown with ⟨rfl, rfl⟩
        exact .undefined ((Scopes.not_bound_iff _ _).mpr found)
    | some slot =>
        cases slot with
        | unset =>
            have thrown := (ends_congr (read_of_unset found) result).mp ends
            rcases (ends_throw _ _).mp thrown with ⟨rfl, rfl⟩
            exact .uninitialized ((Scopes.bound_iff _ _ _).mpr found)
        | holding value =>
            have yielded := (ends_congr (read_of_holding found) result).mp ends
            rcases (ends_pure _ _).mp yielded with ⟨rfl, rfl⟩
            exact .variable ((Scopes.bound_iff _ _ _).mpr found)
  · intro evaluated
    cases evaluated with
    | «variable» bound =>
        have found := (Scopes.bound_iff _ _ _).mp bound
        exact (ends_congr (read_of_holding found) _).mpr ⟨rfl, rfl⟩
    | uninitialized bound =>
        have found := (Scopes.bound_iff _ _ _).mp bound
        exact (ends_congr (read_of_unset found) _).mpr ((ends_throw _ _).mpr ⟨rfl, rfl⟩)
    | undefined free =>
        have absent := (Scopes.not_bound_iff _ _).mp free
        exact (ends_congr (read_of_none absent) _).mpr ((ends_throw _ _).mpr ⟨rfl, rfl⟩)

theorem ends_assign_ok (name : Token) (value : Value) :
    (assign name value).Ends before (.ok ()) after ↔ before.Assigned name.lexeme value after := by
  rw [Scopes.assigned_iff]
  cases assigned : before.assign? name.lexeme value with
  | some changed =>
      simp only [Ends, BlockScript.Ends, assign_of_some assigned, Option.some.injEq, true_and,
        eq_comm]
  | none =>
      constructor
      · intro ends
        have thrown := (ends_congr (assign_of_none assigned) _).mp ends
        cases ((ends_throw _ _).mp thrown).1
      · intro success
        cases success

/-- Assignment to a name that is bound nowhere is the only one that fails. -/
theorem ends_assign_error (name : Token) (value : Value) (failure : Failure) :
    (assign name value).Ends before (.error failure) after ↔
      failure = ⟨name, "Undefined variable '" ++ name.lexeme ++ "'."⟩ ∧ after = before ∧
        ∀ slot, ¬ before.Bound name.lexeme slot := by
  rw [Scopes.not_bound_iff, ← Option.isNone_iff_eq_none, ← Option.not_isSome,
    ← before.isSome_assign? name.lexeme value]
  cases assigned : before.assign? name.lexeme value with
  | some changed =>
      simp [Ends, BlockScript.Ends, assign_of_some assigned]
  | none =>
      constructor
      · intro ends
        have thrown := (ends_congr (assign_of_none assigned) _).mp ends
        rcases (ends_throw _ _).mp thrown with ⟨isFailure, rfl⟩
        cases isFailure
        exact ⟨rfl, rfl, by simp⟩
      · intro same
        rcases same with ⟨rfl, rfl, _⟩
        exact (ends_congr (assign_of_none assigned) _).mpr ((ends_throw _ _).mpr ⟨rfl, rfl⟩)

/-- What a connective comes to once its left operand has a value. -/
def connect (operator : Token) (value : Value) (right : Evaluation Value) : Evaluation Value :=
  match operator.kind with
  | .keyword .orWord => if value.isTruthy then pure value else right
  | .keyword .andWord => if value.isTruthy then right else pure value
  | _ => throw ⟨operator, .unknownOperator⟩

theorem eval_logical (operator : Token) (left right : Expr) :
    (Expr.logical operator left right).eval =
      left.eval >>= fun value => connect operator value right.eval := by
  rw [Expr.eval]
  rfl

theorem ends_connect_of_decides {operator : Token} {value : Value}
    (decides : Decides operator.kind value) (right : Evaluation Value)
    (result : Except Failure Value) :
    (connect operator value right).Ends before result after ↔
      result = .ok value ∧ after = before := by
  rw [connect]
  generalize operator.kind = kind at decides
  cases decides with
  | disjunction truthy => simp only [value.not_falsey_iff.mp truthy, if_true, ends_pure]
  | conjunction falsey =>
      simp only [value.falsey_iff.mp falsey, Bool.false_eq_true, if_false, ends_pure]

theorem ends_connect_of_defers {operator : Token} {value : Value}
    (defers : Defers operator.kind value) (right : Evaluation Value)
    (result : Except Failure Value) :
    (connect operator value right).Ends before result after ↔ right.Ends before result after := by
  rw [connect]
  generalize operator.kind = kind at defers
  cases defers with
  | disjunction falsey => simp only [value.falsey_iff.mp falsey, Bool.false_eq_true, if_false]
  | conjunction truthy => simp only [value.not_falsey_iff.mp truthy, if_true]

theorem ends_connect_of_unknown {operator : Token} (notOr : operator.kind ≠ .keyword .orWord)
    (notAnd : operator.kind ≠ .keyword .andWord) (value : Value) (right : Evaluation Value)
    (result : Except Failure Value) :
    (connect operator value right).Ends before result after ↔
      result = .error operator.unknown ∧ after = before := by
  rw [connect]
  split
  · rename_i isOr
    exact absurd isOr notOr
  · rename_i isAnd
    exact absurd isAnd notAnd
  · exact ends_throw _ _

end Evaluation

/-- A left operand decides a connective or leaves it to the right one. -/
theorem decides_or_defers {kind : Kind}
    (isConnective : kind = .keyword .orWord ∨ kind = .keyword .andWord)
    (value : Value) : Decides kind value ∨ Defers kind value := by
  by_cases falsey : value.Falsey
  · rcases isConnective with rfl | rfl
    · exact .inr (.disjunction falsey)
    · exact .inl (.conjunction falsey)
  · rcases isConnective with rfl | rfl
    · exact .inl (.disjunction falsey)
    · exact .inr (.conjunction falsey)

/-! ## From evaluations to derivations -/

theorem evaluates_of_ends (expr : Expr) {result : Except Failure Value}
    (ends : expr.eval.Ends before result after) : Evaluates expr before result after := by
  induction expr generalizing before after result with
  | literal value =>
      rcases ends with ⟨rfl, rfl⟩
      exact .literal value _
  | «variable» name => exact (Evaluation.ends_read name result).mp ends
  | assign name value valueIH =>
      rw [Expr.eval, Evaluation.Ends, ends_bind] at ends
      rcases ends with ⟨computed, between, valueEnds, ends⟩ | ⟨failure, rfl, failed⟩
      · have evaluated := valueIH valueEnds
        rw [ends_bind] at ends
        rcases ends with ⟨_, final, assigned, ends⟩ | ⟨failure, rfl, failed⟩
        · rcases ends with ⟨rfl, rfl⟩
          exact .assign evaluated ((Evaluation.ends_assign_ok _ _).mp assigned)
        · rcases (Evaluation.ends_assign_error _ _ _).mp failed with ⟨rfl, rfl, free⟩
          exact .assignUndefined evaluated free
      · exact .assignFails (valueIH failed)
  | unary operator operand operandIH =>
      rw [Expr.eval, Evaluation.Ends, ends_bind] at ends
      rcases ends with ⟨value, between, operandEnds, ends⟩ | ⟨failure, rfl, failed⟩
      · rcases (Evaluation.ends_blame _ _ _).mp ends with ⟨isResult, rfl⟩
        exact .unary (operandIH operandEnds) ((unaryResult_iff _ _ _).mpr isResult)
      · exact .unaryFails (operandIH failed)
  | binary operator left right leftIH rightIH =>
      rw [Expr.eval, Evaluation.Ends, ends_bind] at ends
      rcases ends with ⟨leftValue, between, leftEnds, ends⟩ | ⟨failure, rfl, failed⟩
      · rw [ends_bind] at ends
        rcases ends with ⟨rightValue, final, rightEnds, ends⟩ | ⟨failure, rfl, failed⟩
        · rcases (Evaluation.ends_blame _ _ _).mp ends with ⟨isResult, rfl⟩
          exact .binary (leftIH leftEnds) (rightIH rightEnds)
            ((binaryResult_iff _ _ _ _).mpr isResult)
        · exact .binaryFailsRight (leftIH leftEnds) (rightIH failed)
      · exact .binaryFailsLeft (leftIH failed)
  | logical operator left right leftIH rightIH =>
      rw [Evaluation.eval_logical, Evaluation.Ends, ends_bind] at ends
      rcases ends with ⟨value, between, leftEnds, ends⟩ | ⟨failure, rfl, failed⟩
      · have evaluated := leftIH leftEnds
        by_cases isConnective : operator.kind = .keyword .orWord ∨ operator.kind = .keyword .andWord
        · rcases decides_or_defers isConnective value with decides | defers
          · rcases (Evaluation.ends_connect_of_decides decides _ _).mp ends with ⟨rfl, rfl⟩
            exact .decided evaluated decides
          · have rightEnds := (Evaluation.ends_connect_of_defers defers _ _).mp ends
            exact .deferred evaluated defers (rightIH rightEnds)
        · have ⟨notOr, notAnd⟩ := not_or.mp isConnective
          rcases (Evaluation.ends_connect_of_unknown notOr notAnd _ _ _).mp ends with ⟨rfl, rfl⟩
          exact .noConnective evaluated notOr notAnd
      · exact .logicalFails (leftIH failed)
  | ternary question condition whenTrue whenFalse conditionIH trueIH falseIH =>
      rw [Expr.eval, Evaluation.Ends, ends_bind] at ends
      rcases ends with ⟨value, between, conditionEnds, ends⟩ | ⟨failure, rfl, failed⟩
      · have evaluated := conditionIH conditionEnds
        cases value with
        | boolean truth =>
            cases truth with
            | true => exact .chosenTrue evaluated (trueIH ends)
            | false => exact .chosenFalse evaluated (falseIH ends)
        | nil =>
            rcases (Evaluation.ends_throw _ _).mp ends with ⟨rfl, rfl⟩
            exact .notBoolean evaluated (fun _ => Value.noConfusion)
        | number value =>
            rcases (Evaluation.ends_throw _ _).mp ends with ⟨rfl, rfl⟩
            exact .notBoolean evaluated (fun _ => Value.noConfusion)
        | text value =>
            rcases (Evaluation.ends_throw _ _).mp ends with ⟨rfl, rfl⟩
            exact .notBoolean evaluated (fun _ => Value.noConfusion)
      · exact .ternaryFails (conditionIH failed)
  | grouping inner innerIH => exact .grouping (innerIH ends)

/-! ## From derivations to evaluations -/

theorem Evaluates.ends {expr : Expr} {result : Except Failure Value}
    (evaluated : Evaluates expr before result after) : expr.eval.Ends before result after := by
  induction evaluated with
  | literal value scopes => exact ⟨rfl, rfl⟩
  | grouping evaluated innerIH => exact innerIH
  | «variable» bound => exact (Evaluation.ends_read _ _).mpr (.variable bound)
  | uninitialized bound => exact (Evaluation.ends_read _ _).mpr (.uninitialized bound)
  | undefined free => exact (Evaluation.ends_read _ _).mpr (.undefined free)
  | assign evaluated assigned valueIH =>
      have assignEnds := (Evaluation.ends_assign_ok _ _).mpr assigned
      exact valueIH.bind (assignEnds.bind ⟨rfl, rfl⟩)
  | @assignUndefined name expr value before after evaluated free valueIH =>
      have assignEnds := (Evaluation.ends_assign_error name value _).mpr ⟨rfl, rfl, free⟩
      exact valueIH.bind (assignEnds.bind_error _)
  | assignFails failed valueIH => exact valueIH.bind_error _
  | unary evaluated operation operandIH =>
      have isResult := (unaryResult_iff _ _ _).mp operation
      exact operandIH.bind ((Evaluation.ends_blame _ _ _).mpr ⟨isResult, rfl⟩)
  | unaryFails failed operandIH => exact operandIH.bind_error _
  | binary leftEvaluated rightEvaluated operation leftIH rightIH =>
      have isResult := (binaryResult_iff _ _ _ _).mp operation
      exact leftIH.bind (rightIH.bind ((Evaluation.ends_blame _ _ _).mpr ⟨isResult, rfl⟩))
  | binaryFailsLeft failed leftIH => exact leftIH.bind_error _
  | binaryFailsRight leftEvaluated failed leftIH rightIH =>
      exact leftIH.bind (rightIH.bind_error _)
  | decided evaluated decides leftIH =>
      rw [Evaluation.eval_logical]
      exact leftIH.bind ((Evaluation.ends_connect_of_decides decides _ _).mpr ⟨rfl, rfl⟩)
  | deferred evaluated defers rightEvaluated leftIH rightIH =>
      rw [Evaluation.eval_logical]
      exact leftIH.bind ((Evaluation.ends_connect_of_defers defers _ _).mpr rightIH)
  | noConnective evaluated notOr notAnd leftIH =>
      rw [Evaluation.eval_logical]
      apply leftIH.bind
      exact (Evaluation.ends_connect_of_unknown notOr notAnd _ _ _).mpr ⟨rfl, rfl⟩
  | logicalFails failed leftIH => exact leftIH.bind_error _
  | chosenTrue holds evaluated conditionIH trueIH => exact conditionIH.bind trueIH
  | chosenFalse fails evaluated conditionIH falseIH => exact conditionIH.bind falseIH
  | @notBoolean question condition whenTrue whenFalse value before after evaluated notBoolean
      conditionIH =>
      rw [Expr.eval]
      apply conditionIH.bind
      have thrown : (throw ⟨question, .conditionNotBoolean⟩ : Evaluation Value).Ends after
          (.error ⟨question, "Ternary condition must be a boolean."⟩) after :=
        (Evaluation.ends_throw _ _).mpr ⟨rfl, rfl⟩
      cases value with
      | boolean truth => exact absurd rfl (notBoolean truth)
      | nil => exact thrown
      | number value => exact thrown
      | text value => exact thrown
  | ternaryFails failed conditionIH => exact conditionIH.bind_error _

theorem ends_eval_iff (expr : Expr) (result : Except Failure Value) :
    expr.eval.Ends before result after ↔ Evaluates expr before result after :=
  ⟨evaluates_of_ends expr, Evaluates.ends⟩

end BlockScript
