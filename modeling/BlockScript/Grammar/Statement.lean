import BlockScript.Grammar.Expression
import BlockScript.Grammar.Recovery
import BlockScript.Syntax.Stmt

/-!
# The grammar of statements

A statement is told by its first token. Declarations stand only at the top level and in blocks;
there, a statement at fault is noted and given up, and reading goes on. A break statement is
allowed only in the body of a loop, which is why the rules carry along whether they are inside one.
-/

namespace BlockScript.Grammar

variable (finish : Token)

/-- Reads an expression followed by a semicolon. -/
def terminated (semicolon : Expected) (input : List Token) : Reply Expr 1 input :=
  (expression finish .assignment input).bind fun value rest =>
    (expect finish semicolon rest.tokens).map fun _ => value

def expressionStatement (input : List Token) : Reply Stmt 1 input :=
  (terminated finish .semicolonAfterExpression input).map .expression

/-- Reads a declaration, after its keyword. -/
def declarationTail (input : List Token) : Reply Stmt 1 input :=
  (expect finish .variableName input).bind fun name rest =>
    match next? (· == .mark .equal) rest.tokens with
    | some (_, after) =>
        .within after <|
          (terminated finish .semicolonAfterDeclaration after.tokens).map fun initial =>
            .declare name (some initial)
    | none =>
        (expect finish .semicolonAfterDeclaration rest.tokens).map fun _ =>
          .declare name none

def condition (opening closing : Expected) (input : List Token) : Reply Expr 1 input :=
  (expect finish opening input).bind fun _ rest =>
    (expression finish .assignment rest.tokens).bind fun value rest =>
      (expect finish closing rest.tokens).map fun _ => value

/-- The clauses of a counting loop. Each of them may be absent. -/
structure Clauses where
  initial : Option Stmt
  condition : Option Expr
  increment : Option Expr

/-- Reads the initial clause of a counting loop, up to its semicolon. -/
def initialClause (input : List Token) : Reply (Option Stmt) 1 input :=
  match next? (· == .mark .semicolon) input with
  | some (_, after) => .parsed none [] after
  | none =>
      match next? (· == .keyword .varWord) input with
      | some (_, after) => .within after ((declarationTail finish after.tokens).map some)
      | none => (expressionStatement finish input).map some

/-- Reads an expression unless a token of the closing kind comes first. -/
def optionalClause (closing : Expected) (input : List Token) : Reply (Option Expr) 1 input :=
  match next? (· == closing.kind) input with
  | some (_, after) => .parsed none [] after
  | none =>
      (expression finish .assignment input).bind fun value rest =>
        (expect finish closing rest.tokens).map fun _ => some value

/-- Reads the clauses of a counting loop with the parentheses around them. -/
def clauses (input : List Token) : Reply Clauses 1 input :=
  (expect finish .openParenAfterFor input).bind fun _ rest =>
    (initialClause finish rest.tokens).bind fun initial rest =>
      (optionalClause finish .semicolonAfterLoopCondition rest.tokens).bind fun condition rest =>
        (optionalClause finish .closeParenAfterForClauses rest.tokens).map fun increment =>
          ⟨initial, condition, increment⟩

mutual

/-- Reads a statement that is no declaration. -/
def statement (inLoop : Bool) (input : List Token) : Reply Stmt 1 input :=
  match input with
  | [] => expressionStatement finish []
  | token :: after =>
      match token.kind with
      | .keyword .ifWord =>
          .past token <|
            (condition finish .openParenAfterIf .closeParenAfterIfCondition after).bind
              fun test rest =>
                (statement inLoop rest.tokens).bind fun whenTrue rest =>
                  match next? (· == .keyword .elseWord) rest.tokens with
                  | none => .done (.ifThen test whenTrue)
                  | some (_, other) =>
                      .within other <|
                        (statement inLoop other.tokens).bind fun whenFalse _ =>
                          .done (.ifElse test whenTrue whenFalse)
      | .keyword .printWord =>
          .past token ((terminated finish .semicolonAfterValue after).map .print)
      | .mark .leftBrace =>
          .past token <|
            let body := items inLoop true after
            .within body.rest <|
              ((expect finish .closeBraceAfterBlock body.rest.tokens).map fun _ =>
                Stmt.block body.value).noteFirst body.noted
      | .keyword .whileWord =>
          .past token <|
            (condition finish .openParenAfterWhile .closeParenAfterCondition after).bind
              fun test rest =>
                (statement true rest.tokens).map fun body => .whileLoop test body
      | .keyword .forWord =>
          .past token <|
            (clauses finish after).bind fun parts rest =>
              (statement true rest.tokens).map fun body =>
                .countingLoop parts.initial parts.condition parts.increment body
      | .keyword .breakWord =>
          .past token <|
            if inLoop then
              (expect finish .semicolonAfterBreak after).map fun _ => .breakLoop token
            else
              .failed ⟨token, .breakOutsideLoop⟩ [] (.all after)
      | .keyword .continueWord => .fail finish (token :: after) .continueUnsupported
      | _ => expressionStatement finish (token :: after)
termination_by (input.length, 0)
decreasing_by all_goals grind

/-- Reads a declaration or another statement. One that is at fault is noted and given up. -/
def declaration (inLoop : Bool) (token : Token) (after : List Token) :
    Recovered (Option Stmt) 1 (token :: after) :=
  if token.kind = .keyword .varWord then
    (Reply.past token (declarationTail finish after)).recover
  else
    (statement inLoop (token :: after)).recover
termination_by (after.length + 1, 1)
decreasing_by exact .right _ (by decide)

/-- Reads declarations and statements up to the end of the tokens or, in a block, up to a closing
brace. -/
def items (inLoop inBlock : Bool) (input : List Token) : Recovered (List Stmt) 0 input :=
  match input with
  | [] => ⟨[], [], .all []⟩
  | token :: after =>
      if inBlock && token.kind = .mark .rightBrace then
        ⟨[], [], .all (token :: after)⟩
      else
        let item := declaration inLoop token after
        let others := items inLoop inBlock item.rest.tokens
        ⟨item.value.toList ++ others.value, item.noted ++ others.noted,
          item.rest.trans others.rest⟩
termination_by (input.length, 2)
decreasing_by
  · exact .right _ (by decide)
  · exact .left _ _ item.rest.shorter

end

end BlockScript.Grammar
