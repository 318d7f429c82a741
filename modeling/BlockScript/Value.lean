import BlockScript.Number.Text

/-!
# Runtime values

A program computes with nil, booleans, binary64 numbers and strings. This module fixes what the
language means by truth, by equality and by the text of a value.
-/

namespace BlockScript

inductive Value where
  | nil
  | boolean (value : Bool)
  | number (value : Float)
  | text (value : String)
  deriving DecidableEq, Repr

namespace Value

/-- Only nil and false count as false in a condition; zero and the empty string count as true. -/
def isTruthy : Value → Bool
  | nil => false
  | boolean value => value
  | number _ => true
  | text _ => true

/-- The language's equality. Values of different types are never equal, and numbers compare as
binary64 numbers do: zero equals negative zero, and a number that is not a number equals nothing. -/
def equals : Value → Value → Bool
  | nil, nil => true
  | boolean left, boolean right => left == right
  | number left, number right => left == right
  | text left, text right => left == right
  | _, _ => false

/-- The text of a value as the program prints it. A string is its own text. -/
def display : Value → String
  | nil => "nil"
  | boolean true => "true"
  | boolean false => "false"
  | number value => Number.text value
  | text value => value

@[simp] theorem isTruthy_nil : nil.isTruthy = false := rfl
@[simp] theorem isTruthy_boolean (value : Bool) : (boolean value).isTruthy = value := rfl
@[simp] theorem isTruthy_number (value : Float) : (number value).isTruthy = true := rfl
@[simp] theorem isTruthy_text (value : String) : (text value).isTruthy = true := rfl

end Value
end BlockScript
