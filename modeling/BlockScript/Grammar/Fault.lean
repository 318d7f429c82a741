import BlockScript.Token.Basic

/-!
# Syntax faults

What can be wrong with a token sequence, and how it is worded. Most faults are a missing token,
and a missing token is described by the place where the grammar wanted it.
-/

namespace BlockScript

/-- A place of the grammar at which only one kind of token can stand. -/
inductive Expected where
  | variableName
  | semicolonAfterDeclaration
  | semicolonAfterValue
  | semicolonAfterExpression
  | semicolonAfterBreak
  | semicolonAfterLoopCondition
  | openParenAfterIf
  | openParenAfterWhile
  | openParenAfterFor
  | closeParenAfterIfCondition
  | closeParenAfterCondition
  | closeParenAfterForClauses
  | closeParenAfterExpression
  | closeBraceAfterBlock
  | colonAfterThenBranch
  deriving DecidableEq, Repr

namespace Expected

/-- The kind of token that can stand at a place. -/
def kind : Expected → Kind
  | variableName => .identifier
  | semicolonAfterDeclaration
  | semicolonAfterValue
  | semicolonAfterExpression
  | semicolonAfterBreak
  | semicolonAfterLoopCondition => .mark .semicolon
  | openParenAfterIf
  | openParenAfterWhile
  | openParenAfterFor => .mark .leftParen
  | closeParenAfterIfCondition
  | closeParenAfterCondition
  | closeParenAfterForClauses
  | closeParenAfterExpression => .mark .rightParen
  | closeBraceAfterBlock => .mark .rightBrace
  | colonAfterThenBranch => .mark .colon

/-- How the absence of the token is worded. -/
def message : Expected → String
  | variableName => "Expect variable name."
  | semicolonAfterDeclaration => "Expect ';' after variable declaration."
  | semicolonAfterValue => "Expect ';' after value."
  | semicolonAfterExpression => "Expect ';' after expression."
  | semicolonAfterBreak => "Expect ';' after 'break'."
  | semicolonAfterLoopCondition => "Expect ';' after loop condition."
  | openParenAfterIf => "Expect '(' after 'if'."
  | openParenAfterWhile => "Expect '(' after 'while'."
  | openParenAfterFor => "Expect '(' after 'for'."
  | closeParenAfterIfCondition => "Expect ')' after if condition."
  | closeParenAfterCondition => "Expect ')' after condition."
  | closeParenAfterForClauses => "Expect ')' after for clauses."
  | closeParenAfterExpression => "Expect ')' after expression."
  | closeBraceAfterBlock => "Expect '\x7d' after block."
  | colonAfterThenBranch => "Expect ':' after then branch of conditional expression."

end Expected

/-- What can be wrong with a token sequence. -/
inductive SyntaxFault where
  | missing (expected : Expected)
  | missingExpression
  | invalidAssignmentTarget
  | breakOutsideLoop
  | continueUnsupported
  deriving DecidableEq, Repr

def SyntaxFault.message : SyntaxFault → String
  | missing expected => expected.message
  | missingExpression => "Expect expression."
  | invalidAssignmentTarget => "Invalid assignment target."
  | breakOutsideLoop => "Must be inside a loop to use 'break'."
  | continueUnsupported => "'continue' is not supported."

/-- A syntax fault and the token that it is blamed on. -/
structure SyntaxError where
  token : Token
  fault : SyntaxFault
  deriving DecidableEq, Repr

end BlockScript
