import BlockScript.Token.Basic

/-!
# Faults of a run

What can go wrong while a program runs, and how it is worded. A fault is blamed on a token of the
program: an operator, the question mark of a choice, or a name.
-/

namespace BlockScript

inductive RuntimeFault where
  | undefinedVariable
  | uninitializedVariable
  | operandNotNumber
  | operandsNotNumbers
  /-- Only two numbers or two strings can be added. -/
  | operandsNotAddable
  | conditionNotBoolean
  | unknownOperator
  deriving DecidableEq, Repr

/-- The wording of a fault that is blamed on a token spelled `lexeme`. -/
def RuntimeFault.message (lexeme : String) : RuntimeFault → String
  | undefinedVariable => "Undefined variable '" ++ lexeme ++ "'."
  | uninitializedVariable => "Cannot access uninitialized variable '" ++ lexeme ++ "'."
  | operandNotNumber => "Operand must be a number."
  | operandsNotNumbers => "Operands must be numbers."
  | operandsNotAddable => "Operands must be two numbers or two strings."
  | conditionNotBoolean => "Ternary condition must be a boolean."
  | unknownOperator => "Unknown operator '" ++ lexeme ++ "'."

/-- A fault of a run and the token that it is blamed on. -/
structure RuntimeError where
  token : Token
  fault : RuntimeFault
  deriving DecidableEq, Repr

def RuntimeError.message (error : RuntimeError) : String :=
  error.fault.message error.token.lexeme

end BlockScript
