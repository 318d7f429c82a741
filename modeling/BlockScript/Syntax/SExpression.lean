import BlockScript.Syntax.Stmt

/-!
# Syntax trees as s-expressions

A syntax tree is shown as nested s-expressions such as `(* (- 123) (group 45.67))`. The tree is
first turned into an s-expression and only then into text, so that what is shown and how it is
spelled are separate questions.
-/

namespace BlockScript

/-- An s-expression: plain text, or a headed list. -/
inductive SExpression where
  | atom (text : String)
  | node (head : String) (arguments : List SExpression)
  deriving Repr

namespace SExpression

mutual

/-- The text of an s-expression. A list stands in parentheses, its members apart by one space. -/
def render : SExpression → String
  | atom text => text
  | node head arguments => "(" ++ head ++ renderArguments arguments ++ ")"

/-- The arguments of a list, each preceded by a space. -/
def renderArguments : List SExpression → String
  | [] => ""
  | argument :: rest => " " ++ argument.render ++ renderArguments rest

end

end SExpression

/-- A literal is shown as it is displayed, except that strings stand in quotes. -/
def Value.toSExpression : Value → SExpression
  | .text value => .atom ("\"" ++ value ++ "\"")
  | value => .atom value.display

/-- An expression as an s-expression, headed by its operator. -/
def Expr.toSExpression : Expr → SExpression
  | .literal value => value.toSExpression
  | .variable name => .atom name.lexeme
  | .assign name value => .node "assign" [.atom name.lexeme, value.toSExpression]
  | .unary operator operand => .node operator.lexeme [operand.toSExpression]
  | .binary operator left right =>
      .node operator.lexeme [left.toSExpression, right.toSExpression]
  | .logical operator left right =>
      .node operator.lexeme [left.toSExpression, right.toSExpression]
  | .ternary _ condition whenTrue whenFalse =>
      .node "?:" [condition.toSExpression, whenTrue.toSExpression, whenFalse.toSExpression]
  | .grouping inner => .node "group" [inner.toSExpression]

mutual

def Stmt.toSExpression : Stmt → SExpression
  | .print value => .node "print" [value.toSExpression]
  | .expression value => .node ";" [value.toSExpression]
  | .declare name none => .node "var" [.atom name.lexeme]
  | .declare name (some initial) => .node "var" [.atom name.lexeme, initial.toSExpression]
  | .block body => .node "block" (Stmt.toSExpressions body)
  | .ifThen condition whenTrue =>
      .node "if" [condition.toSExpression, whenTrue.toSExpression]
  | .ifElse condition whenTrue whenFalse =>
      .node "if"
        [condition.toSExpression, whenTrue.toSExpression, whenFalse.toSExpression]
  | .whileLoop condition body =>
      .node "while" [condition.toSExpression, body.toSExpression]
  | .breakLoop _ => .node "break" []

/-- The statements of a block as s-expressions, in order. -/
def Stmt.toSExpressions : List Stmt → List SExpression
  | [] => []
  | statement :: rest => statement.toSExpression :: Stmt.toSExpressions rest

end

def Stmt.render (statement : Stmt) : String :=
  statement.toSExpression.render

@[simp] theorem Stmt.toSExpressions_eq_map (body : List Stmt) :
    Stmt.toSExpressions body = body.map Stmt.toSExpression := by
  induction body with
  | nil => rfl
  | cons statement rest inductionHypothesis =>
      rw [Stmt.toSExpressions, inductionHypothesis, List.map_cons]

end BlockScript
