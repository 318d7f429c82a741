import BlockScript.Token.Basic

/-!
# Expressions

Syntax trees of expressions. Operators and names are kept as tokens, so that a fault during a run
can name the place where it arose. The tree does not restrict which tokens stand as operators: the
grammar produces only sensible ones, and evaluation says what it makes of any other.
-/

namespace BlockScript

inductive Expr where
  | literal (value : Value)
  | variable (name : Token)
  | assign (name : Token) (value : Expr)
  | unary (operator : Token) (operand : Expr)
  | binary (operator : Token) (left right : Expr)
  | logical (operator : Token) (left right : Expr)
  /-- A choice between two expressions; the question mark is kept for reports. -/
  | ternary (question : Token) (condition whenTrue whenFalse : Expr)
  | grouping (inner : Expr)
  deriving DecidableEq, Repr

end BlockScript
