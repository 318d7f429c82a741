import BlockScript.Run.Operator
import BlockScript.Scope.Stack
import BlockScript.Syntax.Expr

/-!
# Evaluation of expressions

Evaluation reads and assigns variables and yields a value, or ends at the first fault. Assignments
made before a fault stay made. Operands are evaluated from left to right, each at most once.
-/

namespace BlockScript

/-- A computation over the open scopes that may end in a runtime error. -/
abbrev Evaluation := EStateM RuntimeError Scopes

namespace Evaluation

def blame (token : Token) : Except RuntimeFault α → Evaluation α
  | .ok value => pure value
  | .error fault => throw ⟨token, fault⟩

/-- The value of the variable that a token names. -/
def read (name : Token) : Evaluation Value := do
  match (← get).find? name.lexeme with
  | some (.holding value) => pure value
  | some .unset => throw ⟨name, .uninitializedVariable⟩
  | none => throw ⟨name, .undefinedVariable⟩

/-- Gives a value to the variable that a token names. -/
def assign (name : Token) (value : Value) : Evaluation Unit := do
  match (← get).assign? name.lexeme value with
  | some scopes => set scopes
  | none => throw ⟨name, .undefinedVariable⟩

end Evaluation

/-- The value of an expression. A connective evaluates its right operand only if the left one does
not decide, and a choice evaluates only the chosen branch. -/
def Expr.eval : Expr → Evaluation Value
  | .literal value => pure value
  | .variable name => Evaluation.read name
  | .assign name value => do
      let result ← value.eval
      Evaluation.assign name result
      pure result
  | .unary operator operand => do
      let value ← operand.eval
      Evaluation.blame operator (applyUnary operator.kind value)
  | .binary operator left right => do
      let leftValue ← left.eval
      let rightValue ← right.eval
      Evaluation.blame operator (applyBinary operator.kind leftValue rightValue)
  | .logical operator left right => do
      let leftValue ← left.eval
      match operator.kind with
      | .keyword .orWord => if leftValue.isTruthy then pure leftValue else right.eval
      | .keyword .andWord => if leftValue.isTruthy then right.eval else pure leftValue
      | _ => throw ⟨operator, .unknownOperator⟩
  | .ternary question condition whenTrue whenFalse => do
      match ← condition.eval with
      | .boolean true => whenTrue.eval
      | .boolean false => whenFalse.eval
      | _ => throw ⟨question, .conditionNotBoolean⟩
  | .grouping inner => inner.eval

end BlockScript
