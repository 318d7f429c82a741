import BlockScript.Grammar.Level
import BlockScript.Grammar.Reply

/-!
# The grammar of expressions

Expressions are read level by level with one token of lookahead. A rule reads its operands at the
next higher level, and calls itself only after it has read a token, so the number of unread tokens
and the rank of the level together bound every reading.
-/

namespace BlockScript

/-- The expression that a token is by itself. -/
def Expr.ofToken? (token : Token) : Option Expr :=
  match token.kind with
  | .keyword .falseWord => some (.literal (.boolean false))
  | .keyword .trueWord => some (.literal (.boolean true))
  | .keyword .nilWord => some (.literal .nil)
  | .number | .text => some (.literal token.value)
  | .identifier => some (.variable token)
  | _ => none

namespace Grammar

variable (finish : Token)

mutual

/-- Reads an expression that binds at least as tightly as a level. -/
def expression (level : Level) (input : List Token) : Reply Expr 0 input :=
  match level with
  | .assignment =>
      (expression (.chain .or) input).bind fun target rest =>
        match next? (· == .mark .equal) rest.tokens with
        | none => .done target
        | some (equals, after) =>
            .within after <|
              (expression .assignment after.tokens).bind fun value _ =>
                match target with
                | .variable name => .done (.assign name value)
                | _ => (Reply.done target).note ⟨equals, .invalidAssignmentTarget⟩
  | .chain chain =>
      (expression chain.operand input).bind fun left rest => joined chain left rest.tokens
  | .ternary =>
      (expression (.chain .equality) input).bind fun condition rest =>
        match next? (· == .mark .question) rest.tokens with
        | none => .done condition
        | some (question, after) =>
            .within after <|
              (expression .assignment after.tokens).bind fun whenTrue rest =>
                (expect finish .colonAfterThenBranch rest.tokens).bind fun _ rest =>
                  (expression .ternary rest.tokens).bind fun whenFalse _ =>
                    .done (.ternary question condition whenTrue whenFalse)
  | .unary =>
      match next? Kind.isUnaryOperator input with
      | none => expression .primary input
      | some (operator, after) =>
          .within after <|
            (expression .unary after.tokens).bind fun operand _ =>
              .done (.unary operator operand)
  | .primary =>
      match input with
      | [] => .fail finish [] .missingExpression
      | token :: after =>
          match Expr.ofToken? token with
          | some leaf => .within (.tail token after) (.done leaf)
          | none =>
              if token.kind = .mark .leftParen then
                .within (.tail token after) <|
                  (expression .assignment after).bind fun inner rest =>
                    (expect finish .closeParenAfterExpression rest.tokens).bind fun _ _ =>
                      .done (.grouping inner)
              else
                .fail finish (token :: after) .missingExpression
termination_by (input.length, level.rank)
decreasing_by all_goals grind [Level.rank, Chain.rank_operand_lt]

/-- Reads the operators and operands that a chain goes on with after its left operand. -/
def joined (chain : Chain) (left : Expr) (input : List Token) : Reply Expr 0 input :=
  match next? chain.joins input with
  | none => .done left
  | some (operator, after) =>
      .within after <|
        (expression chain.operand after.tokens).bind fun right rest =>
          joined chain (chain.join operator left right) rest.tokens
termination_by (input.length, 0)
decreasing_by all_goals grind [Level.rank, Chain.rank_operand_lt]

end

end Grammar
end BlockScript
