import BlockScript.Grammar.Level
import BlockScript.Syntax.Stmt

/-!
# The grammar as a relation

This module says which token sequences are expressions, statements and programs, and which tree
each of them stands for, without saying how to read them. A rule of the grammar is a constructor,
a repetition is a left-recursive rule, and an operator that associates to the left therefore has
its own level on its left and the next higher level on its right.

Nothing here looks ahead. That an else belongs to the nearest if is a matter of form: the statement
between an if and its else must not itself end in an if that still lacks an else.
-/

namespace BlockScript

/-- The token sequences that are expressions of a level, with their trees. -/
inductive Phrase : Level → List Token → Expr → Prop where
  | assign {name equals : Token} {tokens : List Token} {value : Expr} :
      name.kind = .identifier → equals.kind = .mark .equal →
      Phrase .assignment tokens value →
      Phrase .assignment (name :: equals :: tokens) (.assign name value)
  | assignmentOr {tokens : List Token} {tree : Expr} :
      Phrase (.chain .or) tokens tree → Phrase .assignment tokens tree
  | or {before after : List Token} {operator : Token} {left right : Expr} :
      Phrase (.chain .or) before left → operator.kind = .keyword .orWord →
      Phrase (.chain .and) after right →
      Phrase (.chain .or) (before ++ operator :: after) (.logical operator left right)
  | orAnd {tokens : List Token} {tree : Expr} :
      Phrase (.chain .and) tokens tree → Phrase (.chain .or) tokens tree
  | and {before after : List Token} {operator : Token} {left right : Expr} :
      Phrase (.chain .and) before left → operator.kind = .keyword .andWord →
      Phrase .ternary after right →
      Phrase (.chain .and) (before ++ operator :: after) (.logical operator left right)
  | andTernary {tokens : List Token} {tree : Expr} :
      Phrase .ternary tokens tree → Phrase (.chain .and) tokens tree
  | ternary {test first second : List Token} {question colon : Token}
      {condition whenTrue whenFalse : Expr} :
      Phrase (.chain .equality) test condition → question.kind = .mark .question →
      Phrase .assignment first whenTrue → colon.kind = .mark .colon →
      Phrase .ternary second whenFalse →
      Phrase .ternary (test ++ question :: (first ++ colon :: second))
        (.ternary question condition whenTrue whenFalse)
  | ternaryEquality {tokens : List Token} {tree : Expr} :
      Phrase (.chain .equality) tokens tree → Phrase .ternary tokens tree
  | equality {before after : List Token} {operator : Token} {left right : Expr} :
      Phrase (.chain .equality) before left →
      operator.kind = .mark .bangEqual ∨ operator.kind = .mark .equalEqual →
      Phrase (.chain .comparison) after right →
      Phrase (.chain .equality) (before ++ operator :: after) (.binary operator left right)
  | equalityComparison {tokens : List Token} {tree : Expr} :
      Phrase (.chain .comparison) tokens tree → Phrase (.chain .equality) tokens tree
  | comparison {before after : List Token} {operator : Token} {left right : Expr} :
      Phrase (.chain .comparison) before left →
      operator.kind = .mark .greater ∨ operator.kind = .mark .greaterEqual ∨
        operator.kind = .mark .less ∨ operator.kind = .mark .lessEqual →
      Phrase (.chain .sum) after right →
      Phrase (.chain .comparison) (before ++ operator :: after) (.binary operator left right)
  | comparisonSum {tokens : List Token} {tree : Expr} :
      Phrase (.chain .sum) tokens tree → Phrase (.chain .comparison) tokens tree
  | sum {before after : List Token} {operator : Token} {left right : Expr} :
      Phrase (.chain .sum) before left →
      operator.kind = .mark .minus ∨ operator.kind = .mark .plus →
      Phrase (.chain .product) after right →
      Phrase (.chain .sum) (before ++ operator :: after) (.binary operator left right)
  | sumProduct {tokens : List Token} {tree : Expr} :
      Phrase (.chain .product) tokens tree → Phrase (.chain .sum) tokens tree
  | product {before after : List Token} {operator : Token} {left right : Expr} :
      Phrase (.chain .product) before left →
      operator.kind = .mark .slash ∨ operator.kind = .mark .star →
      Phrase .unary after right →
      Phrase (.chain .product) (before ++ operator :: after) (.binary operator left right)
  | productUnary {tokens : List Token} {tree : Expr} :
      Phrase .unary tokens tree → Phrase (.chain .product) tokens tree
  | unary {operator : Token} {tokens : List Token} {operand : Expr} :
      operator.kind = .mark .bang ∨ operator.kind = .mark .minus →
      Phrase .unary tokens operand →
      Phrase .unary (operator :: tokens) (.unary operator operand)
  | unaryPrimary {tokens : List Token} {tree : Expr} :
      Phrase .primary tokens tree → Phrase .unary tokens tree
  | trueWord {token : Token} :
      token.kind = .keyword .trueWord → Phrase .primary [token] (.literal (.boolean true))
  | falseWord {token : Token} :
      token.kind = .keyword .falseWord → Phrase .primary [token] (.literal (.boolean false))
  | nilWord {token : Token} :
      token.kind = .keyword .nilWord → Phrase .primary [token] (.literal .nil)
  | number {token : Token} :
      token.kind = .number → Phrase .primary [token] (.literal token.value)
  | text {token : Token} :
      token.kind = .text → Phrase .primary [token] (.literal token.value)
  | variable {token : Token} :
      token.kind = .identifier → Phrase .primary [token] (.variable token)
  | grouping {opening closing : Token} {tokens : List Token} {inner : Expr} :
      opening.kind = .mark .leftParen → Phrase .assignment tokens inner →
      closing.kind = .mark .rightParen →
      Phrase .primary (opening :: (tokens ++ [closing])) (.grouping inner)

/-- The token sequences that are declarations of a variable, with their trees. -/
inductive DeclarationPhrase : List Token → Stmt → Prop where
  | bare {keyword name semicolon : Token} :
      keyword.kind = .keyword .varWord → name.kind = .identifier →
      semicolon.kind = .mark .semicolon →
      DeclarationPhrase [keyword, name, semicolon] (.declare name none)
  | initialized {keyword name equals semicolon : Token} {tokens : List Token} {initial : Expr} :
      keyword.kind = .keyword .varWord → name.kind = .identifier →
      equals.kind = .mark .equal → Phrase .assignment tokens initial →
      semicolon.kind = .mark .semicolon →
      DeclarationPhrase (keyword :: name :: equals :: (tokens ++ [semicolon]))
        (.declare name (some initial))

/-- The token sequences that are expression statements, with their trees. -/
inductive ExpressionPhrase : List Token → Stmt → Prop where
  | terminated {tokens : List Token} {value : Expr} {semicolon : Token} :
      Phrase .assignment tokens value → semicolon.kind = .mark .semicolon →
      ExpressionPhrase (tokens ++ [semicolon]) (.expression value)

/-- The token sequences that are expressions in parentheses, as they stand after an if or a
while. -/
inductive ConditionPhrase : List Token → Expr → Prop where
  | parenthesized {opening closing : Token} {tokens : List Token} {value : Expr} :
      opening.kind = .mark .leftParen → Phrase .assignment tokens value →
      closing.kind = .mark .rightParen →
      ConditionPhrase (opening :: (tokens ++ [closing])) value

/-- The first clause of a counting loop with its semicolon: nothing, a declaration or an expression
statement. -/
inductive InitialClause : List Token → Option Stmt → Prop where
  | absent {semicolon : Token} :
      semicolon.kind = .mark .semicolon → InitialClause [semicolon] none
  | declaration {tokens : List Token} {first : Stmt} :
      DeclarationPhrase tokens first → InitialClause tokens (some first)
  | expression {tokens : List Token} {first : Stmt} :
      ExpressionPhrase tokens first → InitialClause tokens (some first)

/-- An expression that may be left out. -/
inductive OptionalPhrase : List Token → Option Expr → Prop where
  | absent : OptionalPhrase [] none
  | present {tokens : List Token} {value : Expr} :
      Phrase .assignment tokens value → OptionalPhrase tokens (some value)

/-- The tree of a counting loop, given its clauses and its body. An absent condition is always true,
an increment follows the body in a block of the two, and a first clause precedes the whole loop in a
block of its own. -/
inductive LoopTree : Option Stmt → Option Expr → Option Expr → Stmt → Stmt → Prop where
  | endless {body : Stmt} :
      LoopTree none none none body (.whileLoop (.literal (.boolean true)) body)
  | tested {condition : Expr} {body : Stmt} :
      LoopTree none (some condition) none body (.whileLoop condition body)
  | stepped {condition : Option Expr} {increment : Expr} {body tree : Stmt} :
      LoopTree none condition none (.block [body, .expression increment]) tree →
      LoopTree none condition (some increment) body tree
  | started {first : Stmt} {condition increment : Option Expr} {body tree : Stmt} :
      LoopTree none condition increment body tree →
      LoopTree (some first) condition increment body (.block [first, tree])

mutual

/-- The token sequences that are statements other than declarations, with their trees. Whether a
sequence is a statement depends on whether it stands in the body of a loop. The second index tells
whether the statement ends in an if without an else, which an else after it would belong to. -/
inductive Sentence : (inLoop dangling : Bool) → List Token → Stmt → Prop where
  | ifThen {inLoop dangling : Bool} {keyword : Token} {test body : List Token}
      {condition : Expr} {whenTrue : Stmt} :
      keyword.kind = .keyword .ifWord → ConditionPhrase test condition →
      Sentence inLoop dangling body whenTrue →
      Sentence inLoop true (keyword :: (test ++ body)) (.ifThen condition whenTrue)
  | ifElse {inLoop dangling : Bool} {keyword other : Token} {test first second : List Token}
      {condition : Expr} {whenTrue whenFalse : Stmt} :
      keyword.kind = .keyword .ifWord → ConditionPhrase test condition →
      Sentence inLoop false first whenTrue → other.kind = .keyword .elseWord →
      Sentence inLoop dangling second whenFalse →
      Sentence inLoop dangling (keyword :: (test ++ (first ++ other :: second)))
        (.ifElse condition whenTrue whenFalse)
  | print {inLoop : Bool} {keyword semicolon : Token} {tokens : List Token} {value : Expr} :
      keyword.kind = .keyword .printWord → Phrase .assignment tokens value →
      semicolon.kind = .mark .semicolon →
      Sentence inLoop false (keyword :: (tokens ++ [semicolon])) (.print value)
  | block {inLoop : Bool} {opening closing : Token} {tokens : List Token} {body : List Stmt} :
      opening.kind = .mark .leftBrace → Sentences inLoop tokens body →
      closing.kind = .mark .rightBrace →
      Sentence inLoop false (opening :: (tokens ++ [closing])) (.block body)
  | whileLoop {inLoop dangling : Bool} {keyword : Token} {test tokens : List Token}
      {condition : Expr} {body : Stmt} :
      keyword.kind = .keyword .whileWord → ConditionPhrase test condition →
      Sentence true dangling tokens body →
      Sentence inLoop dangling (keyword :: (test ++ tokens)) (.whileLoop condition body)
  | forLoop {inLoop dangling : Bool} {keyword opening semicolon closing : Token}
      {start test step tokens : List Token} {initial : Option Stmt}
      {condition increment : Option Expr} {body tree : Stmt} :
      keyword.kind = .keyword .forWord → opening.kind = .mark .leftParen →
      InitialClause start initial → OptionalPhrase test condition →
      semicolon.kind = .mark .semicolon → OptionalPhrase step increment →
      closing.kind = .mark .rightParen → Sentence true dangling tokens body →
      LoopTree initial condition increment body tree →
      Sentence inLoop dangling
        (keyword :: opening :: (start ++ (test ++ semicolon :: (step ++ closing :: tokens)))) tree
  | breakLoop {keyword semicolon : Token} :
      keyword.kind = .keyword .breakWord → semicolon.kind = .mark .semicolon →
      Sentence true false [keyword, semicolon] (.breakLoop keyword)
  | expression {inLoop : Bool} {tokens : List Token} {tree : Stmt} :
      ExpressionPhrase tokens tree → Sentence inLoop false tokens tree

/-- The token sequences that consist of declarations and statements, one after the other, with the
trees of these. -/
inductive Sentences : (inLoop : Bool) → List Token → List Stmt → Prop where
  | nil {inLoop : Bool} : Sentences inLoop [] []
  | declaration {inLoop : Bool} {first others : List Token} {tree : Stmt} {trees : List Stmt} :
      DeclarationPhrase first tree → Sentences inLoop others trees →
      Sentences inLoop (first ++ others) (tree :: trees)
  | statement {inLoop dangling : Bool} {first others : List Token} {tree : Stmt}
      {trees : List Stmt} :
      Sentence inLoop dangling first tree → Sentences inLoop others trees →
      Sentences inLoop (first ++ others) (tree :: trees)

end

/-- A program is a sequence of declarations and statements outside any loop. -/
def ProgramPhrase (tokens : List Token) (trees : List Stmt) : Prop :=
  Sentences false tokens trees

end BlockScript
