import BlockScript.Token.Kind
import BlockScript.Value

/-!
# Tokens

A token carries its kind, its spelling, the value of a literal, and the line on which it ends.
Nothing ties the four together: tokens that no source text produces are tokens too, and the grammar
says what it makes of them.
-/

namespace BlockScript

/-- The value written by a number or string literal. -/
inductive Literal where
  | number (value : Float)
  | text (value : String)
  deriving DecidableEq, Repr

/-- The runtime value that a literal denotes. -/
def Literal.value : Literal → Value
  | number value => .number value
  | text value => .text value

structure Token where
  kind : Kind
  /-- The token as it is spelled in the source. -/
  lexeme : String
  literal : Option Literal
  line : Nat
  deriving DecidableEq, Repr

namespace Token

/-- The token that ends the input on a given line. -/
def finish (line : Nat) : Token :=
  ⟨.finish, "", none, line⟩

/-- The value of a literal token. A token without a literal denotes nil. -/
def value (token : Token) : Value :=
  match token.literal with
  | some literal => literal.value
  | none => .nil

/-- How a report says where a syntax error is, besides naming the line. -/
def location (token : Token) : String :=
  match token.kind with
  | .finish => " at end"
  | _ => " at '" ++ token.lexeme ++ "'"

end Token
end BlockScript
