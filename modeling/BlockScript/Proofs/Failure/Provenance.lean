import BlockScript.Proofs.Grammar.Precedence

/-!
# Where the tokens of trees come from

The trees that the reader builds keep tokens as operators and names. Each of them was among the
tokens read, and its kind is one that has the meaning that the tree gives it:
`Program.madeOf_ofTokens` says so of all programs, also of what is left of a program after its
faults have been given up.
-/

namespace BlockScript

/-- The kinds of token that join two operands which are both evaluated. -/
def Kind.isBinaryOperator (kind : Kind) : Bool :=
  Chain.equality.joins kind || Chain.comparison.joins kind || Chain.sum.joins kind ||
    Chain.product.joins kind

/-- The kinds of token that join two operands of which the second one may be left alone. -/
def Kind.isConnective (kind : Kind) : Bool :=
  Chain.or.joins kind || Chain.and.joins kind

/-- All operators and names of the expression are source tokens of kinds that can stand there. -/
inductive Expr.MadeOf (source : List Token) : Expr → Prop where
  | literal (value : Value) : MadeOf source (.literal value)
  | variable {name : Token} (stands : name.StandsIn source (· == .identifier)) :
      MadeOf source (.variable name)
  | assign {name : Token} {value : Expr} (stands : name.StandsIn source (· == .identifier))
      (made : value.MadeOf source) : MadeOf source (.assign name value)
  | unary {operator : Token} {operand : Expr}
      (stands : operator.StandsIn source Kind.isUnaryOperator) (made : operand.MadeOf source) :
      MadeOf source (.unary operator operand)
  | binary {operator : Token} {left right : Expr}
      (stands : operator.StandsIn source Kind.isBinaryOperator) (leftMade : left.MadeOf source)
      (rightMade : right.MadeOf source) : MadeOf source (.binary operator left right)
  | logical {operator : Token} {left right : Expr}
      (stands : operator.StandsIn source Kind.isConnective) (leftMade : left.MadeOf source)
      (rightMade : right.MadeOf source) : MadeOf source (.logical operator left right)
  | ternary {question : Token} {condition whenTrue whenFalse : Expr}
      (stands : question.StandsIn source (· == .mark .question))
      (conditionMade : condition.MadeOf source) (trueMade : whenTrue.MadeOf source)
      (falseMade : whenFalse.MadeOf source) :
      MadeOf source (.ternary question condition whenTrue whenFalse)
  | grouping {inner : Expr} (made : inner.MadeOf source) : MadeOf source (.grouping inner)

/-- All expressions of the statement are made of source tokens. -/
inductive Stmt.MadeOf (source : List Token) : Stmt → Prop where
  | print {value : Expr} (made : value.MadeOf source) : MadeOf source (.print value)
  | expression {value : Expr} (made : value.MadeOf source) : MadeOf source (.expression value)
  | declare {name : Token} {initial : Option Expr} (made : ∀ value ∈ initial, value.MadeOf source) :
      MadeOf source (.declare name initial)
  | block {body : List Stmt} (made : ∀ tree ∈ body, tree.MadeOf source) : MadeOf source (.block body)
  | ifThen {condition : Expr} {whenTrue : Stmt} (conditionMade : condition.MadeOf source)
      (trueMade : whenTrue.MadeOf source) : MadeOf source (.ifThen condition whenTrue)
  | ifElse {condition : Expr} {whenTrue whenFalse : Stmt}
      (conditionMade : condition.MadeOf source) (trueMade : whenTrue.MadeOf source)
      (falseMade : whenFalse.MadeOf source) : MadeOf source (.ifElse condition whenTrue whenFalse)
  | whileLoop {condition : Expr} {body : Stmt} (conditionMade : condition.MadeOf source)
      (bodyMade : body.MadeOf source) : MadeOf source (.whileLoop condition body)
  | breakLoop (keyword : Token) : MadeOf source (.breakLoop keyword)

namespace Grammar

variable {source : List Token}

theorem madeOf_join {chain : Chain} {operator : Token} {leftTree rightTree : Expr}
    (stands : operator.StandsIn source chain.joins) (leftMade : leftTree.MadeOf source)
    (rightMade : rightTree.MadeOf source) :
    (chain.join operator leftTree rightTree).MadeOf source := by
  have ⟨member, joins⟩ := stands
  cases chain with
  | or | and => exact .logical ⟨member, by simp [Kind.isConnective, joins]⟩ leftMade rightMade
  | equality | comparison | sum | product =>
      exact .binary ⟨member, by simp [Kind.isBinaryOperator, joins]⟩ leftMade rightMade

theorem levelled_madeOf (source : List Token) : Levelled source fun _ => (·.MadeOf source) where
  loosen _ made := made
  literal value := .literal value
  «variable» stands := .variable stands
  grouping made := .grouping made
  unary stands made := .unary stands made
  join stands leftMade rightMade := madeOf_join stands leftMade rightMade
  ternary stands conditionMade trueMade falseMade :=
    .ternary stands conditionMade trueMade falseMade
  assign targetMade valueMade := by
    cases targetMade with
    | «variable» stands => exact .assign stands valueMade

theorem madeOf (finish : Token) (source : List Token) :
    Inherited finish source (·.MadeOf source) (fun _ => (·.MadeOf source))
      (fun _ => (·.MadeOf source)) where
  read input left := (levelled_madeOf source).ensures .assignment input left
  endless := .literal _
  print made := .print made
  expression made := .expression made
  declare made := .declare made
  block made := .block made
  ifThen conditionMade trueMade := .ifThen conditionMade trueMade
  ifElse conditionMade trueMade falseMade := .ifElse conditionMade trueMade falseMade
  whileLoop conditionMade bodyMade := .whileLoop conditionMade bodyMade
  breakLoop keyword := .breakLoop keyword
  item made := made

end Grammar

/-- The statements of a program are made of the tokens ahead of its end, whether or not there are
faults among these. -/
theorem Program.madeOf_ofTokens (tokens : List Token) :
    ∀ tree ∈ (ofTokens tokens).statements, tree.MadeOf (ahead tokens) :=
  (Grammar.madeOf _ _).ofTokens

end BlockScript
