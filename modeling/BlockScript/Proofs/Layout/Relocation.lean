import BlockScript.Grammar.Program
import BlockScript.Run.Execution
import BlockScript.Session.Report
import BlockScript.Source.Tokens

/-!
# Relocation

The same text can stand on other lines. Whatever carries a line, from tokens to reports, can be
relocated by saying where each line goes. Nothing but the lines changes, so that what is relocated
keeps its kinds, its spellings and its shape.
-/

namespace BlockScript

variable (lines : Nat → Nat)

/-- The token on the line that its own line goes to. -/
def Token.relocate (token : Token) : Token :=
  { token with line := lines token.line }

namespace Token

@[simp] theorem kind_relocate (token : Token) : (token.relocate lines).kind = token.kind := rfl

@[simp] theorem lexeme_relocate (token : Token) : (token.relocate lines).lexeme = token.lexeme :=
  rfl

end Token

def Expr.relocate : Expr → Expr
  | literal value => literal value
  | .variable name => .variable (name.relocate lines)
  | assign name value => assign (name.relocate lines) value.relocate
  | unary operator operand => unary (operator.relocate lines) operand.relocate
  | binary operator left right => binary (operator.relocate lines) left.relocate right.relocate
  | logical operator left right => logical (operator.relocate lines) left.relocate right.relocate
  | ternary question condition whenTrue whenFalse =>
      ternary (question.relocate lines) condition.relocate whenTrue.relocate whenFalse.relocate
  | grouping inner => grouping inner.relocate

mutual

def Stmt.relocate : Stmt → Stmt
  | print value => print (value.relocate lines)
  | expression value => expression (value.relocate lines)
  | declare name initial => declare (name.relocate lines) (initial.map (·.relocate lines))
  | block body => block (relocateAll body)
  | ifThen condition whenTrue => ifThen (condition.relocate lines) whenTrue.relocate
  | ifElse condition whenTrue whenFalse =>
      ifElse (condition.relocate lines) whenTrue.relocate whenFalse.relocate
  | whileLoop condition body => whileLoop (condition.relocate lines) body.relocate
  | breakLoop keyword => breakLoop (keyword.relocate lines)

def Stmt.relocateAll : List Stmt → List Stmt
  | [] => []
  | statement :: rest => statement.relocate :: relocateAll rest

end

@[simp] theorem Stmt.relocateAll_eq_map (body : List Stmt) :
    relocateAll lines body = body.map (relocate lines) := by
  induction body with
  | nil => rfl
  | cons statement rest inductionHypothesis =>
      rw [relocateAll, inductionHypothesis, List.map_cons]

/-- The lexical error on the line that its own line goes to. -/
def LexicalError.relocate (error : LexicalError) : LexicalError :=
  { error with line := lines error.line }

def SyntaxError.relocate (error : SyntaxError) : SyntaxError :=
  { error with token := error.token.relocate lines }

def Program.relocate (program : Program) : Program :=
  ⟨program.statements.map (·.relocate lines), program.errors.map (·.relocate lines)⟩

def RuntimeError.relocate (error : RuntimeError) : RuntimeError :=
  { error with token := error.token.relocate lines }

/-- The stop with the token of its error relocated. -/
def Stop.relocate : Stop → Stop
  | error fault => error (fault.relocate lines)
  | outOfFuel => outOfFuel

/-- The report on the line that its own line goes to. -/
def Report.relocate : Report → Report
  | static line location message => static (lines line) location message
  | runtime line message => runtime (lines line) message

end BlockScript
