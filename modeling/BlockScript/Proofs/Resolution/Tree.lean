import BlockScript.Scope.Stack
import BlockScript.Syntax.Stmt

/-!
# Resolved trees

A resolved tree is a syntax tree whose variables know the scope that they are bound to. Scopes are
told apart by their level: the global scope has level zero, and a block has one level more than what
is around it. Resolution fixes the levels once, from the text of the program alone.
-/

namespace BlockScript

/-- An expression in which every variable and every assignment knows the level of its scope. -/
inductive ResolvedExpr where
  | literal (value : Value)
  | variable (name : Token) (level : Nat)
  | assign (name : Token) (level : Nat) (value : ResolvedExpr)
  | unary (operator : Token) (operand : ResolvedExpr)
  | binary (operator : Token) (left right : ResolvedExpr)
  | logical (operator : Token) (left right : ResolvedExpr)
  | ternary (question : Token) (condition whenTrue whenFalse : ResolvedExpr)
  | grouping (inner : ResolvedExpr)

inductive ResolvedStmt where
  | print (value : ResolvedExpr)
  | expression (value : ResolvedExpr)
  | declare (name : Token) (initial : Option ResolvedExpr)
  | block (body : List ResolvedStmt)
  | ifThen (condition : ResolvedExpr) (whenTrue : ResolvedStmt)
  | ifElse (condition : ResolvedExpr) (whenTrue whenFalse : ResolvedStmt)
  | whileLoop (condition : ResolvedExpr) (body : ResolvedStmt)
  | breakLoop (keyword : Token)

/-- What is around a place in a program: for each block, from the innermost one outward, the
statements of that block that stand before the one that the place is in. -/
abbrev Surroundings := List (List Stmt)

/-- Whether a statement is a declaration of a name. Declarations inside of it do not count. -/
def Stmt.declares (name : String) : Stmt → Bool
  | declare other _ => other.lexeme == name
  | _ => false

namespace Surroundings

/-- The level of the scope that a name is bound to. It is that of the innermost block that has
declared the name before, and the global one if there is none. -/
def level (name : String) : Surroundings → Nat
  | [] => 0
  | earlier :: around =>
      if earlier.any (·.declares name) then around.length + 1 else level name around

/-- What is around the place after a statement. -/
def past (statement : Stmt) : Surroundings → Surroundings
  | [] => []
  | earlier :: around => (earlier ++ [statement]) :: around

end Surroundings

def Expr.resolve (around : Surroundings) : Expr → ResolvedExpr
  | literal value => .literal value
  | .variable name => .variable name (around.level name.lexeme)
  | assign name value => .assign name (around.level name.lexeme) (value.resolve around)
  | unary operator operand => .unary operator (operand.resolve around)
  | binary operator left right => .binary operator (left.resolve around) (right.resolve around)
  | logical operator left right => .logical operator (left.resolve around) (right.resolve around)
  | ternary question condition whenTrue whenFalse =>
      .ternary question (condition.resolve around) (whenTrue.resolve around)
        (whenFalse.resolve around)
  | grouping inner => .grouping (inner.resolve around)

mutual

/-- Resolves a statement. The initial value of a declaration is outside of what it declares. -/
def Stmt.resolve (around : Surroundings) : Stmt → ResolvedStmt
  | print value => .print (value.resolve around)
  | expression value => .expression (value.resolve around)
  | declare name initial => .declare name (initial.map (·.resolve around))
  | block body => .block (resolveAll ([] :: around) body)
  | ifThen condition whenTrue => .ifThen (condition.resolve around) (whenTrue.resolve around)
  | ifElse condition whenTrue whenFalse =>
      .ifElse (condition.resolve around) (whenTrue.resolve around) (whenFalse.resolve around)
  | whileLoop condition body => .whileLoop (condition.resolve around) (body.resolve around)
  | breakLoop keyword => .breakLoop keyword

def Stmt.resolveAll (around : Surroundings) : List Stmt → List ResolvedStmt
  | [] => []
  | statement :: rest => statement.resolve around :: resolveAll (around.past statement) rest

end

end BlockScript
