import BlockScript.Syntax.Expr

/-!
# Statements

Syntax trees of statements. There is no tree for a counting loop: `Stmt.countingLoop` expresses it
by a block and a while loop.
-/

namespace BlockScript

inductive Stmt where
  | print (value : Expr)
  | expression (value : Expr)
  /-- A declaration. Without an initial value the name is known but cannot be read yet. -/
  | declare (name : Token) (initial : Option Expr)
  | block (body : List Stmt)
  | ifThen (condition : Expr) (whenTrue : Stmt)
  | ifElse (condition : Expr) (whenTrue whenFalse : Stmt)
  | whileLoop (condition : Expr) (body : Stmt)
  | breakLoop (keyword : Token)
  deriving Repr

namespace Stmt

/-- The body of a counting loop: the increment, if there is one, follows each round. -/
def withIncrement (body : Stmt) : Option Expr → Stmt
  | none => body
  | some increment => block [body, expression increment]

/-- A counting loop. A loop without a condition goes on until it is left, and an initial statement
gets a scope of its own around the whole loop. -/
def countingLoop (initial : Option Stmt) (condition increment : Option Expr) (body : Stmt) : Stmt :=
  let loop :=
    whileLoop (condition.getD (.literal (.boolean true))) (body.withIncrement increment)
  match initial with
  | none => loop
  | some first => block [first, loop]

end Stmt
end BlockScript
