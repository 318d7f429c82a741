import BlockScript.Run.Fault

/-!
# Operators

What the operators make of their operands. An operator is told by the kind of its token, and a kind
that is no operator is a fault of its own.
-/

namespace BlockScript

def applyUnary (operator : Kind) (operand : Value) : Except RuntimeFault Value :=
  match operator with
  | .mark .minus =>
      match operand with
      | .number value => .ok (.number (-value))
      | _ => .error .operandNotNumber
  | .mark .bang => .ok (.boolean !operand.isTruthy)
  | _ => .error .unknownOperator

/-- The sum of two numbers, or two strings joined. -/
def add : Value → Value → Except RuntimeFault Value
  | .number left, .number right => .ok (.number (left + right))
  | .text left, .text right => .ok (.text (left ++ right))
  | _, _ => .error .operandsNotAddable

/-- The result of an operator that is for numbers only. A comparison with a number that is not a
number is false. -/
def applyNumeric (operator : Kind) (left right : Float) : Except RuntimeFault Value :=
  match operator with
  | .mark .minus => .ok (.number (left - right))
  | .mark .slash => .ok (.number (left / right))
  | .mark .star => .ok (.number (left * right))
  | .mark .greater => .ok (.boolean (left > right))
  | .mark .greaterEqual => .ok (.boolean (left ≥ right))
  | .mark .less => .ok (.boolean (left < right))
  | .mark .lessEqual => .ok (.boolean (left ≤ right))
  | _ => .error .unknownOperator

/-- The result of a binary operator. Operands that are no numbers are found out before an unknown
operator is. -/
def applyBinary (operator : Kind) (left right : Value) : Except RuntimeFault Value :=
  match operator with
  | .mark .equalEqual => .ok (.boolean (left.equals right))
  | .mark .bangEqual => .ok (.boolean !left.equals right)
  | .mark .plus => add left right
  | _ =>
      match left, right with
      | .number left, .number right => applyNumeric operator left right
      | _, _ => .error .operandsNotNumbers

end BlockScript
