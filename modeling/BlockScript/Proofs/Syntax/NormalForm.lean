import BlockScript.Proofs.Grammar.Acceptance
import BlockScript.Proofs.Grammar.Precedence

/-!
# Precedence normal form

A tree is in normal form if its shape agrees with the precedence of its operators: an operand that
binds looser than its place demands stands in parentheses, every operator is one of its level, and
declarations stand among the items of a program or of a block. `Program.inNormalForm_ofTokens` says
that the reader builds no other trees. Faults do not change this. In particular, an expression that
is kept although something was to be assigned to it may become a part of a larger one.
-/

namespace BlockScript

/-! ## Expressions -/

/-- The expression is in normal form, and its outermost node is one of the level. What joins two
operands has an operator of its level, a left operand of at least that level, and a right operand of
a higher one. Parentheses hold any expression, and so do a choice between its two marks and an
assignment on its right. -/
inductive Expr.NormalAt : Level → Expr → Prop where
  | literal (value : Value) : NormalAt .primary (.literal value)
  | variable {name : Token} (named : name.kind = .identifier) : NormalAt .primary (.variable name)
  | grouping {level : Level} {inner : Expr} (normal : inner.NormalAt level) :
      NormalAt .primary (.grouping inner)
  | unary {level : Level} {operator : Token} {operand : Expr}
      (operates : operator.kind = .mark .bang ∨ operator.kind = .mark .minus)
      (tight : .unary ≤ level) (normal : operand.NormalAt level) :
      NormalAt .unary (.unary operator operand)
  | binary {chain : Chain} {leftLevel rightLevel : Level} {operator : Token} {left right : Expr}
      (computes : chain ∈ [.equality, .comparison, .sum, .product])
      (operates : operator.kind ∈ chain.operators)
      (leftTight : .chain chain ≤ leftLevel) (leftNormal : left.NormalAt leftLevel)
      (rightTighter : .chain chain < rightLevel) (rightNormal : right.NormalAt rightLevel) :
      NormalAt (.chain chain) (.binary operator left right)
  | logical {chain : Chain} {leftLevel rightLevel : Level} {operator : Token} {left right : Expr}
      (connects : chain ∈ [.or, .and]) (operates : operator.kind ∈ chain.operators)
      (leftTight : .chain chain ≤ leftLevel) (leftNormal : left.NormalAt leftLevel)
      (rightTighter : .chain chain < rightLevel) (rightNormal : right.NormalAt rightLevel) :
      NormalAt (.chain chain) (.logical operator left right)
  | ternary {conditionLevel trueLevel falseLevel : Level} {question : Token}
      {condition whenTrue whenFalse : Expr} (asks : question.kind = .mark .question)
      (conditionTight : .chain .equality ≤ conditionLevel)
      (conditionNormal : condition.NormalAt conditionLevel)
      (trueNormal : whenTrue.NormalAt trueLevel)
      (falseTight : .ternary ≤ falseLevel) (falseNormal : whenFalse.NormalAt falseLevel) :
      NormalAt .ternary (.ternary question condition whenTrue whenFalse)
  | assign {level : Level} {name : Token} {value : Expr} (named : name.kind = .identifier)
      (normal : value.NormalAt level) : NormalAt .assignment (.assign name value)

namespace Expr

def Normal (tree : Expr) : Prop :=
  ∃ level, tree.NormalAt level

/-- The expression is in normal form, and may stand where a level is demanded. -/
def NormalFrom (demanded : Level) (tree : Expr) : Prop :=
  ∃ level, demanded ≤ level ∧ tree.NormalAt level

namespace NormalFrom

variable {demanded : Level} {tree left right : Expr} {chain : Chain} {operator : Token}

theorem normal (normalFrom : tree.NormalFrom demanded) : tree.Normal := by
  obtain ⟨level, _, normal⟩ := normalFrom
  exact ⟨level, normal⟩

theorem loosen {looser : Level} (isLooser : looser ≤ demanded)
    (normalFrom : tree.NormalFrom demanded) : tree.NormalFrom looser := by
  obtain ⟨level, tight, normal⟩ := normalFrom
  exact ⟨level, isLooser.trans tight, normal⟩

/-- What a chain has joined so far can be joined with one more of its operands. -/
theorem join (operates : operator.kind ∈ chain.operators)
    (leftNormal : left.NormalFrom (.chain chain)) (rightNormal : right.NormalFrom chain.operand) :
    (chain.join operator left right).NormalFrom (.chain chain) := by
  obtain ⟨leftLevel, leftTight, leftNormal⟩ := leftNormal
  obtain ⟨rightLevel, rightTight, rightNormal⟩ := rightNormal
  have rightTighter : .chain chain < rightLevel := chain.lt_operand.trans_le rightTight
  refine ⟨.chain chain, le_rfl, ?_⟩
  cases chain with
  | or | and =>
      exact .logical (by decide) operates leftTight leftNormal rightTighter rightNormal
  | equality | comparison | sum | product =>
      exact .binary (by decide) operates leftTight leftNormal rightTighter rightNormal

end NormalFrom

end Expr

/-! ## Statements -/

mutual

/-- The statement is in normal form, and it is no declaration, so that it may be the branch of a
choice or the body of a loop. -/
inductive Stmt.Normal : Stmt → Prop where
  | print {value : Expr} (normal : value.Normal) : Normal (.print value)
  | expression {value : Expr} (normal : value.Normal) : Normal (.expression value)
  | block {body : List Stmt} (normal : ∀ item ∈ body, item.NormalItem) : Normal (.block body)
  | ifThen {condition : Expr} {whenTrue : Stmt} (conditionNormal : condition.Normal)
      (trueNormal : whenTrue.Normal) : Normal (.ifThen condition whenTrue)
  | ifElse {condition : Expr} {whenTrue whenFalse : Stmt} (conditionNormal : condition.Normal)
      (trueNormal : whenTrue.Normal) (falseNormal : whenFalse.Normal) :
      Normal (.ifElse condition whenTrue whenFalse)
  | whileLoop {condition : Expr} {body : Stmt} (conditionNormal : condition.Normal)
      (bodyNormal : body.Normal) : Normal (.whileLoop condition body)
  | breakLoop (keyword : Token) : Normal (.breakLoop keyword)

/-- The statement is in normal form, and it may be a declaration, as the items of a program or of a
block may. -/
inductive Stmt.NormalItem : Stmt → Prop where
  | declare {name : Token} {initial : Option Expr} (normal : ∀ value ∈ initial, value.Normal) :
      NormalItem (.declare name initial)
  | statement {tree : Stmt} (normal : tree.Normal) : NormalItem tree

end

/-! ## What is read -/

namespace Grammar

theorem levelled_normalFrom (source : List Token) : Levelled source Expr.NormalFrom where
  loosen isLooser normalFrom := normalFrom.loosen isLooser
  literal value := ⟨_, le_rfl, .literal value⟩
  «variable» stands := ⟨_, le_rfl, .variable (by simpa using stands.wanted)⟩
  grouping normalFrom := by
    obtain ⟨level, normal⟩ := normalFrom.normal
    exact ⟨_, le_rfl, .grouping normal⟩
  unary stands normalFrom := by
    obtain ⟨level, tight, normal⟩ := normalFrom
    exact ⟨_, le_rfl, .unary (Kind.isUnaryOperator_iff.mp stands.wanted) tight normal⟩
  join stands leftNormal rightNormal :=
    .join (Chain.joins_iff_mem_operators.mp stands.wanted) leftNormal rightNormal
  ternary stands conditionNormal trueNormal falseNormal := by
    have asks := by simpa using stands.wanted
    obtain ⟨conditionLevel, conditionTight, conditionNormal⟩ := conditionNormal
    obtain ⟨trueLevel, trueNormal⟩ := trueNormal.normal
    obtain ⟨falseLevel, falseTight, falseNormal⟩ := falseNormal
    exact ⟨_, le_rfl,
      .ternary asks conditionTight conditionNormal trueNormal falseTight falseNormal⟩
  assign targetNormal valueNormal := by
    obtain ⟨targetLevel, targetNormal⟩ := targetNormal.normal
    obtain ⟨level, normal⟩ := valueNormal.normal
    cases targetNormal with
    | «variable» named => exact ⟨_, le_rfl, .assign named normal⟩

theorem inherited_normal (finish : Token) (source : List Token) :
    Inherited finish source Expr.Normal (fun _ => Stmt.Normal) (fun _ => Stmt.NormalItem) where
  read input left :=
    ((levelled_normalFrom source).ensures .assignment input left).weaken fun _ => (·.normal)
  endless := ⟨_, .literal _⟩
  print normal := .print normal
  expression normal := .expression normal
  declare normal := .declare normal
  block normal := .block normal
  ifThen conditionNormal trueNormal := .ifThen conditionNormal trueNormal
  ifElse conditionNormal trueNormal falseNormal := .ifElse conditionNormal trueNormal falseNormal
  whileLoop conditionNormal bodyNormal := .whileLoop conditionNormal bodyNormal
  breakLoop keyword := .breakLoop keyword
  item normal := .statement normal

end Grammar

namespace Program

/-- Every statement of a program is in normal form, whatever faults there are among the tokens that
it is read from. -/
theorem inNormalForm_ofTokens (tokens : List Token) :
    ∀ tree ∈ (ofTokens tokens).statements, tree.NormalItem :=
  (Grammar.inherited_normal _ _).ofTokens

/-- The tokens of a block with two faults. The sum on the first line is no target of an assignment,
and the declaration on the second one is no branch. -/
def sumAsTarget : List Token :=
  [⟨.mark .leftBrace, "\x7b", none, 1⟩, ⟨.keyword .varWord, "var", none, 1⟩,
    ⟨.identifier, "a", none, 1⟩, ⟨.mark .equal, "=", none, 1⟩,
    ⟨.identifier, "b", none, 1⟩, ⟨.mark .equal, "=", none, 1⟩,
    ⟨.mark .leftParen, "(", none, 1⟩, ⟨.identifier, "c", none, 1⟩,
    ⟨.keyword .orWord, "or", none, 1⟩, ⟨.identifier, "d", none, 1⟩,
    ⟨.mark .rightParen, ")", none, 1⟩, ⟨.mark .plus, "+", none, 1⟩,
    ⟨.identifier, "e", none, 1⟩, ⟨.mark .equal, "=", none, 2⟩,
    ⟨.identifier, "f", none, 2⟩, ⟨.mark .semicolon, ";", none, 2⟩,
    ⟨.keyword .ifWord, "if", none, 3⟩, ⟨.mark .leftParen, "(", none, 3⟩,
    ⟨.identifier, "a", none, 3⟩, ⟨.mark .rightParen, ")", none, 3⟩,
    ⟨.keyword .varWord, "var", none, 3⟩, ⟨.identifier, "g", none, 3⟩,
    ⟨.mark .semicolon, ";", none, 3⟩, ⟨.mark .rightBrace, "\x7d", none, 3⟩, .finish 3]

/-- What is left of the block: the sum is the value of an assignment. -/
def sumAsValue : Stmt :=
  .block [.declare ⟨.identifier, "a", none, 1⟩ (some
    (.assign ⟨.identifier, "b", none, 1⟩
      (.binary ⟨.mark .plus, "+", none, 1⟩
        (.grouping (.logical ⟨.keyword .orWord, "or", none, 1⟩
          (.variable ⟨.identifier, "c", none, 1⟩) (.variable ⟨.identifier, "d", none, 1⟩)))
        (.variable ⟨.identifier, "e", none, 1⟩))))]

/-- The sum that was to be assigned to stands in a tree in normal form. -/
theorem inNormalForm_sumAsTarget :
    sumAsValue ∈ (ofTokens sumAsTarget).statements ∧
      (ofTokens sumAsTarget).errors =
        [⟨⟨.mark .equal, "=", none, 2⟩, .invalidAssignmentTarget⟩,
          ⟨⟨.keyword .varWord, "var", none, 3⟩, .missingExpression⟩] ∧
      sumAsValue.NormalItem := by
  have read : ofTokens sumAsTarget =
      ⟨[sumAsValue], [⟨⟨.mark .equal, "=", none, 2⟩, .invalidAssignmentTarget⟩,
        ⟨⟨.keyword .varWord, "var", none, 3⟩, .missingExpression⟩]⟩ := by
    cbv
  have member : sumAsValue ∈ (ofTokens sumAsTarget).statements := by
    rw [read]
    exact List.mem_singleton.mpr rfl
  exact ⟨member, congrArg Program.errors read, inNormalForm_ofTokens sumAsTarget _ member⟩

end Program

end BlockScript
