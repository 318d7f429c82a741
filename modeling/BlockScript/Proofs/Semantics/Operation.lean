import BlockScript.Run.Evaluation

/-!
# The meaning of operators

What truth, equality and the operators mean, said without the functions that compute them. Each
meaning is a relation, and the functions are shown to hit exactly what is related.
-/

namespace BlockScript

/-- What the user learns when a run fails: the token that is to blame, and the wording. -/
structure Failure where
  token : Token
  message : String
  deriving DecidableEq, Repr

def RuntimeError.failure (error : RuntimeError) : Failure :=
  ⟨error.token, error.message⟩

/-- The values that count as false in a condition. -/
inductive Value.Falsey : Value → Prop where
  | nil : Falsey .nil
  | boolean : Falsey (.boolean false)

/-- Equality of the language. It never holds between values of different types, and between numbers
it is that of binary64 numbers. -/
inductive Value.Same : Value → Value → Prop where
  | nil : Same .nil .nil
  | boolean (value : Bool) : Same (.boolean value) (.boolean value)
  | number {left right : Float} (equal : (left == right) = true) : Same (.number left) (.number right)
  | text (value : String) : Same (.text value) (.text value)

/-- The operators that make a number of two numbers. -/
inductive Arithmetic : Kind → (Float → Float → Float) → Prop where
  | difference : Arithmetic (.mark .minus) (fun left right => left - right)
  | quotient : Arithmetic (.mark .slash) (fun left right => left / right)
  | product : Arithmetic (.mark .star) (fun left right => left * right)

inductive Comparison : Kind → (Float → Float → Prop) → Prop where
  | greater : Comparison (.mark .greater) (fun left right => right < left)
  | greaterEqual : Comparison (.mark .greaterEqual) (fun left right => right ≤ left)
  | less : Comparison (.mark .less) (fun left right => left < right)
  | lessEqual : Comparison (.mark .lessEqual) (fun left right => left ≤ right)

/-- The operators that look at the types of their operands themselves. All others want numbers. -/
inductive Generic : Kind → Prop where
  | equality : Generic (.mark .equalEqual)
  | inequality : Generic (.mark .bangEqual)
  | sum : Generic (.mark .plus)

/-- The failure of a token that stands where an operator belongs and is none. -/
def Token.unknown (operator : Token) : Failure :=
  ⟨operator, "Unknown operator '" ++ operator.lexeme ++ "'."⟩

/-- What a unary operator makes of its operand. -/
inductive UnaryResult (operator : Token) : Value → Except Failure Value → Prop where
  | negation (value : Float) (isMinus : operator.kind = .mark .minus) :
      UnaryResult operator (.number value) (.ok (.number (-value)))
  | notNegatable {operand : Value} (isMinus : operator.kind = .mark .minus)
      (notNumber : ∀ value, operand ≠ .number value) :
      UnaryResult operator operand (.error ⟨operator, "Operand must be a number."⟩)
  | ofFalsey {operand : Value} (isBang : operator.kind = .mark .bang) (falsey : operand.Falsey) :
      UnaryResult operator operand (.ok (.boolean true))
  | ofTruthy {operand : Value} (isBang : operator.kind = .mark .bang) (truthy : ¬ operand.Falsey) :
      UnaryResult operator operand (.ok (.boolean false))
  | unknown {operand : Value} (notMinus : operator.kind ≠ .mark .minus)
      (notBang : operator.kind ≠ .mark .bang) :
      UnaryResult operator operand (.error operator.unknown)

/-- What a binary operator makes of its operands. -/
inductive BinaryResult (operator : Token) : Value → Value → Except Failure Value → Prop where
  | equal {left right : Value} (isEquality : operator.kind = .mark .equalEqual)
      (same : left.Same right) : BinaryResult operator left right (.ok (.boolean true))
  | notEqual {left right : Value} (isEquality : operator.kind = .mark .equalEqual)
      (different : ¬ left.Same right) : BinaryResult operator left right (.ok (.boolean false))
  | unequal {left right : Value} (isInequality : operator.kind = .mark .bangEqual)
      (different : ¬ left.Same right) : BinaryResult operator left right (.ok (.boolean true))
  | notUnequal {left right : Value} (isInequality : operator.kind = .mark .bangEqual)
      (same : left.Same right) : BinaryResult operator left right (.ok (.boolean false))
  | sum (left right : Float) (isPlus : operator.kind = .mark .plus) :
      BinaryResult operator (.number left) (.number right) (.ok (.number (left + right)))
  | joined (left right : String) (isPlus : operator.kind = .mark .plus) :
      BinaryResult operator (.text left) (.text right) (.ok (.text (left ++ right)))
  | notAddable {left right : Value} (isPlus : operator.kind = .mark .plus)
      (notNumbers : ∀ first second, ¬ (left = .number first ∧ right = .number second))
      (notTexts : ∀ first second, ¬ (left = .text first ∧ right = .text second)) :
      BinaryResult operator left right
        (.error ⟨operator, "Operands must be two numbers or two strings."⟩)
  | computed {compute : Float → Float → Float} (left right : Float)
      (arithmetic : Arithmetic operator.kind compute) :
      BinaryResult operator (.number left) (.number right) (.ok (.number (compute left right)))
  | holds {relation : Float → Float → Prop} {left right : Float}
      (comparison : Comparison operator.kind relation) (related : relation left right) :
      BinaryResult operator (.number left) (.number right) (.ok (.boolean true))
  | fails {relation : Float → Float → Prop} {left right : Float}
      (comparison : Comparison operator.kind relation) (unrelated : ¬ relation left right) :
      BinaryResult operator (.number left) (.number right) (.ok (.boolean false))
  | notNumbers {left right : Value} (numeric : ¬ Generic operator.kind)
      (notNumbers : ∀ first second, ¬ (left = .number first ∧ right = .number second)) :
      BinaryResult operator left right (.error ⟨operator, "Operands must be numbers."⟩)
  | unknown (left right : Float) (numeric : ¬ Generic operator.kind)
      (notArithmetic : ∀ compute, ¬ Arithmetic operator.kind compute)
      (notComparison : ∀ relation, ¬ Comparison operator.kind relation) :
      BinaryResult operator (.number left) (.number right) (.error operator.unknown)

def RuntimeFault.failure (token : Token) (fault : RuntimeFault) : Failure :=
  RuntimeError.failure ⟨token, fault⟩

/-- The result of an operator with its faults blamed on a token. -/
def blamed (token : Token) : Except RuntimeFault Value → Except Failure Value :=
  Except.mapError (RuntimeFault.failure token)

/-! ## The functions compute these meanings -/

theorem Value.falsey_iff (value : Value) : value.Falsey ↔ value.isTruthy = false := by
  constructor
  · intro falsey
    cases falsey <;> rfl
  · intro notTruthy
    cases value with
    | nil => exact .nil
    | boolean value =>
        rw [isTruthy_boolean] at notTruthy
        subst notTruthy
        exact .boolean
    | number value => cases notTruthy
    | text value => cases notTruthy

theorem Value.not_falsey_iff (value : Value) : ¬ value.Falsey ↔ value.isTruthy = true := by
  rw [falsey_iff, Bool.not_eq_false]

theorem Value.same_iff (left right : Value) : left.Same right ↔ left.equals right = true := by
  constructor
  · intro same
    cases same with
    | nil => rfl
    | boolean value => simp [equals]
    | number equal => exact equal
    | text value => simp [equals]
  · intro equal
    cases left <;> cases right <;> simp only [equals, Bool.false_eq_true, beq_iff_eq] at equal
    · exact .nil
    · subst equal
      exact .boolean _
    · exact .number equal
    · subst equal
      exact .text _

theorem Value.not_same_iff (left right : Value) :
    ¬ left.Same right ↔ left.equals right = false := by
  rw [same_iff, Bool.not_eq_true]

namespace RuntimeFault

variable (token : Token)

theorem failure_operandNotNumber :
    operandNotNumber.failure token = ⟨token, "Operand must be a number."⟩ := rfl

theorem failure_operandsNotNumbers :
    operandsNotNumbers.failure token = ⟨token, "Operands must be numbers."⟩ := rfl

theorem failure_operandsNotAddable : operandsNotAddable.failure token =
    ⟨token, "Operands must be two numbers or two strings."⟩ := rfl

theorem failure_unknownOperator : unknownOperator.failure token = token.unknown := rfl

end RuntimeFault

theorem blamed_ok (token : Token) (value : Value) : blamed token (.ok value) = .ok value := rfl

theorem blamed_error (token : Token) (fault : RuntimeFault) :
    blamed token (.error fault) = .error (fault.failure token) := rfl

theorem unaryResult_iff (operator : Token) (operand : Value) (result : Except Failure Value) :
    UnaryResult operator operand result ↔
      result = blamed operator (applyUnary operator.kind operand) := by
  constructor
  · intro related
    cases related with
    | negation value isMinus =>
        rw [isMinus, applyUnary, blamed_ok]
    | notNegatable isMinus notNumber =>
        rw [isMinus, applyUnary]
        · rw [blamed_error, RuntimeFault.failure_operandNotNumber]
        · exact notNumber
    | ofFalsey isBang falsey =>
        rw [isBang, applyUnary, (operand.falsey_iff).mp falsey, blamed_ok, Bool.not_false]
    | ofTruthy isBang truthy =>
        rw [isBang, applyUnary, (operand.not_falsey_iff).mp truthy, blamed_ok, Bool.not_true]
    | unknown notMinus notBang =>
        rw [applyUnary, blamed_error, RuntimeFault.failure_unknownOperator]
        · exact notMinus
        · exact notBang
  · intro computed
    subst computed
    by_cases isMinus : operator.kind = .mark .minus
    · rw [isMinus]
      cases operand with
      | number value => exact .negation value isMinus
      | nil => exact .notNegatable isMinus (fun _ => Value.noConfusion)
      | boolean value => exact .notNegatable isMinus (fun _ => Value.noConfusion)
      | text value => exact .notNegatable isMinus (fun _ => Value.noConfusion)
    by_cases isBang : operator.kind = .mark .bang
    · rw [isBang, applyUnary, blamed_ok]
      cases truth : operand.isTruthy with
      | false => exact .ofFalsey isBang ((operand.falsey_iff).mpr truth)
      | true => exact .ofTruthy isBang ((operand.not_falsey_iff).mpr truth)
    · rw [applyUnary]
      · exact .unknown isMinus isBang
      · exact isMinus
      · exact isBang

section Numeric

variable {kind : Kind} {left right : Value}

theorem Generic.iff (kind : Kind) : Generic kind ↔
    kind = .mark .equalEqual ∨ kind = .mark .bangEqual ∨ kind = .mark .plus := by
  constructor
  · intro generic
    cases generic <;> simp
  · intro isGeneric
    rcases isGeneric with isEquality | isInequality | isPlus
    · exact isEquality ▸ .equality
    · exact isInequality ▸ .inequality
    · exact isPlus ▸ .sum

theorem applyBinary_of_numbers (numeric : ¬ Generic kind) (left right : Float) :
    applyBinary kind (.number left) (.number right) = applyNumeric kind left right := by
  simp only [Generic.iff, not_or] at numeric
  rw [applyBinary]
  · exact numeric.1
  · exact numeric.2.1
  · exact numeric.2.2

theorem applyBinary_of_not_numbers (numeric : ¬ Generic kind)
    (notNumbers : ∀ first second, ¬ (left = .number first ∧ right = .number second)) :
    applyBinary kind left right = .error .operandsNotNumbers := by
  simp only [Generic.iff, not_or] at numeric
  rw [applyBinary]
  · exact numeric.1
  · exact numeric.2.1
  · exact numeric.2.2
  · intro first second isLeft isRight
    exact notNumbers first second ⟨isLeft, isRight⟩

theorem Arithmetic.applyBinary {compute : Float → Float → Float}
    (arithmetic : Arithmetic kind compute) (left right : Float) :
    applyBinary kind (.number left) (.number right) = .ok (.number (compute left right)) := by
  cases arithmetic <;> rfl

theorem Comparison.applyBinary_of_holds {relation : Float → Float → Prop}
    (comparison : Comparison kind relation) {left right : Float} (related : relation left right) :
    applyBinary kind (.number left) (.number right) = .ok (.boolean true) := by
  cases comparison <;> simpa [applyBinary, applyNumeric] using related

theorem Comparison.applyBinary_of_fails {relation : Float → Float → Prop}
    (comparison : Comparison kind relation) {left right : Float}
    (unrelated : ¬ relation left right) :
    applyBinary kind (.number left) (.number right) = .ok (.boolean false) := by
  cases comparison <;> simpa [applyBinary, applyNumeric] using unrelated

theorem applyNumeric_of_unknown (notArithmetic : ∀ compute, ¬ Arithmetic kind compute)
    (notComparison : ∀ relation, ¬ Comparison kind relation) (left right : Float) :
    applyNumeric kind left right = .error .unknownOperator := by
  rw [applyNumeric]
  · intro isMinus
    subst isMinus
    exact notArithmetic _ .difference
  · intro isSlash
    subst isSlash
    exact notArithmetic _ .quotient
  · intro isStar
    subst isStar
    exact notArithmetic _ .product
  · intro isGreater
    subst isGreater
    exact notComparison _ .greater
  · intro isGreaterEqual
    subst isGreaterEqual
    exact notComparison _ .greaterEqual
  · intro isLess
    subst isLess
    exact notComparison _ .less
  · intro isLessEqual
    subst isLessEqual
    exact notComparison _ .lessEqual

end Numeric

theorem add_of_not_addable {left right : Value}
    (notNumbers : ∀ first second, ¬ (left = .number first ∧ right = .number second))
    (notTexts : ∀ first second, ¬ (left = .text first ∧ right = .text second)) :
    add left right = .error .operandsNotAddable := by
  rw [add]
  · intro first second isLeft isRight
    exact notNumbers first second ⟨isLeft, isRight⟩
  · intro first second isLeft isRight
    exact notTexts first second ⟨isLeft, isRight⟩

theorem BinaryResult.computes {operator : Token} {left right : Value}
    {result : Except Failure Value} (related : BinaryResult operator left right result) :
    result = blamed operator (applyBinary operator.kind left right) := by
  cases related with
  | equal isEquality same =>
      rw [isEquality, applyBinary, (left.same_iff right).mp same, blamed_ok]
  | notEqual isEquality different =>
      rw [isEquality, applyBinary, (left.not_same_iff right).mp different, blamed_ok]
  | unequal isInequality different =>
      rw [isInequality, applyBinary, (left.not_same_iff right).mp different, blamed_ok,
        Bool.not_false]
  | notUnequal isInequality same =>
      rw [isInequality, applyBinary, (left.same_iff right).mp same, blamed_ok, Bool.not_true]
  | sum left right isPlus =>
      rw [isPlus, applyBinary, add, blamed_ok]
  | joined left right isPlus =>
      rw [isPlus, applyBinary, add, blamed_ok]
  | notAddable isPlus notNumbers notTexts =>
      rw [isPlus, applyBinary, add_of_not_addable notNumbers notTexts, blamed_error,
        RuntimeFault.failure_operandsNotAddable]
  | computed left right arithmetic =>
      rw [arithmetic.applyBinary, blamed_ok]
  | holds comparison related =>
      rw [comparison.applyBinary_of_holds related, blamed_ok]
  | fails comparison unrelated =>
      rw [comparison.applyBinary_of_fails unrelated, blamed_ok]
  | notNumbers numeric notNumbers =>
      rw [applyBinary_of_not_numbers numeric notNumbers, blamed_error,
        RuntimeFault.failure_operandsNotNumbers]
  | unknown left right numeric notArithmetic notComparison =>
      rw [applyBinary_of_numbers numeric,
        applyNumeric_of_unknown notArithmetic notComparison, blamed_error,
        RuntimeFault.failure_unknownOperator]

theorem binaryResult_applyNumeric {operator : Token} (numeric : ¬ Generic operator.kind)
    (left right : Float) :
    BinaryResult operator (.number left) (.number right)
      (blamed operator (applyNumeric operator.kind left right)) := by
  rw [← applyBinary_of_numbers numeric]
  by_cases isArithmetic : ∃ compute, Arithmetic operator.kind compute
  · rcases isArithmetic with ⟨compute, arithmetic⟩
    rw [arithmetic.applyBinary]
    exact .computed left right arithmetic
  by_cases isComparison : ∃ relation, Comparison operator.kind relation
  · rcases isComparison with ⟨relation, comparison⟩
    by_cases related : relation left right
    · rw [comparison.applyBinary_of_holds related]
      exact .holds comparison related
    · rw [comparison.applyBinary_of_fails related]
      exact .fails comparison related
  · have notArithmetic := not_exists.mp isArithmetic
    have notComparison := not_exists.mp isComparison
    rw [applyBinary_of_numbers numeric, applyNumeric_of_unknown notArithmetic notComparison]
    exact .unknown left right numeric notArithmetic notComparison

theorem binaryResult_add {operator : Token} (isPlus : operator.kind = .mark .plus)
    (left right : Value) : BinaryResult operator left right (blamed operator (add left right)) := by
  by_cases numbers : ∃ first second, left = .number first ∧ right = .number second
  · rcases numbers with ⟨first, second, rfl, rfl⟩
    exact .sum first second isPlus
  by_cases texts : ∃ first second, left = .text first ∧ right = .text second
  · rcases texts with ⟨first, second, rfl, rfl⟩
    exact .joined first second isPlus
  · simp only [not_exists] at numbers texts
    rw [add_of_not_addable numbers texts]
    exact .notAddable isPlus numbers texts

theorem binaryResult_iff (operator : Token) (left right : Value) (result : Except Failure Value) :
    BinaryResult operator left right result ↔
      result = blamed operator (applyBinary operator.kind left right) := by
  constructor
  · exact BinaryResult.computes
  · intro computed
    subst computed
    by_cases isEquality : operator.kind = .mark .equalEqual
    · rw [isEquality, applyBinary]
      cases equal : left.equals right with
      | true => exact .equal isEquality ((left.same_iff right).mpr equal)
      | false => exact .notEqual isEquality ((left.not_same_iff right).mpr equal)
    by_cases isInequality : operator.kind = .mark .bangEqual
    · rw [isInequality, applyBinary]
      cases equal : left.equals right with
      | true => exact .notUnequal isInequality ((left.same_iff right).mpr equal)
      | false => exact .unequal isInequality ((left.not_same_iff right).mpr equal)
    by_cases isPlus : operator.kind = .mark .plus
    · rw [isPlus, applyBinary]
      exact binaryResult_add isPlus left right
    have numeric : ¬ Generic operator.kind := by
      simp only [Generic.iff, not_or]
      exact ⟨isEquality, isInequality, isPlus⟩
    by_cases numbers : ∃ first second, left = .number first ∧ right = .number second
    · rcases numbers with ⟨first, second, rfl, rfl⟩
      rw [applyBinary_of_numbers numeric]
      exact binaryResult_applyNumeric numeric first second
    · simp only [not_exists] at numbers
      rw [applyBinary_of_not_numbers numeric numbers]
      exact .notNumbers numeric numbers

end BlockScript
