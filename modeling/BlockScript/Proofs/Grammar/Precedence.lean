import BlockScript.Proofs.Grammar.Inheritance
import Mathlib.Order.Nat

/-!
# Precedence

Levels are ordered by how tightly they bind, and what binds tighter may stand wherever something
looser may. The expressions that the reader replies with are put together level by level, so that a
property of expressions of each level which every rule hands on is a property of all that is read,
also of what is kept after a fault: `Grammar.Levelled.ensures` says so.
-/

namespace BlockScript

/-! ## The order of the levels -/

namespace Level

theorem rank_injective : Function.Injective rank := by
  intro left right same
  grind [rank, cases Level, cases Chain]

/-- The higher of two levels binds tighter. -/
instance : LE Level where
  le lower higher := higher.rank ≤ lower.rank

instance : LT Level where
  lt lower higher := higher.rank < lower.rank

instance : DecidableLE Level := fun lower higher => Nat.decLe higher.rank lower.rank

instance : DecidableLT Level := fun lower higher => Nat.decLt higher.rank lower.rank

instance : PartialOrder Level :=
  (OrderDual.toDual.injective.comp rank_injective).partialOrder _ Iff.rfl Iff.rfl

example : [assignment, chain .or, chain .and, ternary, chain .equality, chain .comparison,
    chain .sum, chain .product, unary, primary].Pairwise (· < ·) := by decide

end Level

theorem Chain.lt_operand (chain : Chain) : Level.chain chain < chain.operand :=
  chain.rank_operand_lt

/-! ## Expressions level by level -/

/-- The token is one of the source tokens and of a wanted kind. -/
structure Token.StandsIn (source : List Token) (wanted : Kind → Bool) (token : Token) : Prop where
  member : token ∈ source
  wanted : wanted token.kind = true

namespace Grammar

variable {finish : Token} {source input : List Token} {holds : Level → Expr → Prop}

theorem standsIn_of_next? {wanted : Kind → Bool} {token : Token} {after : Rest 1 input}
    (found : next? wanted input = some (token, after)) (left : input <:+ source) :
    token.StandsIn source wanted := by
  have ⟨isWanted, split⟩ := next?_eq_some.mp found
  exact ⟨left.subset (split ▸ List.mem_cons_self), isWanted⟩

/-- Properties of expressions, one for each level, that the rules of the grammar hand on when they
read what is left of the source tokens. -/
structure Levelled (source : List Token) (holds : Level → Expr → Prop) : Prop where
  loosen : ∀ {looser tighter tree}, looser ≤ tighter → holds tighter tree → holds looser tree
  literal : ∀ value, holds .primary (.literal value)
  «variable» : ∀ {name : Token}, name.StandsIn source (· == .identifier) →
    holds .primary (.variable name)
  grouping : ∀ {inner}, holds .assignment inner → holds .primary (.grouping inner)
  unary : ∀ {operator : Token} {operand}, operator.StandsIn source Kind.isUnaryOperator →
    holds .unary operand → holds .unary (.unary operator operand)
  join : ∀ {chain : Chain} {operator : Token} {left right},
    operator.StandsIn source chain.joins → holds (.chain chain) left → holds chain.operand right →
    holds (.chain chain) (chain.join operator left right)
  ternary : ∀ {question : Token} {condition whenTrue whenFalse},
    question.StandsIn source (· == .mark .question) → holds (.chain .equality) condition →
    holds .assignment whenTrue → holds .ternary whenFalse →
    holds .ternary (.ternary question condition whenTrue whenFalse)
  /-- The target has been read as an expression before it is known to be one. -/
  assign : ∀ {name value}, holds (.chain .or) (.variable name) → holds .assignment value →
    holds .assignment (.assign name value)

namespace Levelled

variable (levelled : Levelled source holds)

include levelled

theorem leaf {token : Token} {leaf : Expr} (found : Expr.ofToken? token = some leaf)
    (member : token ∈ source) : holds .primary leaf := by
  unfold Expr.ofToken? at found
  split at found <;> cases found
  case h_6 isName => exact levelled.«variable» ⟨member, by simp [isName]⟩
  all_goals exact levelled.literal _

/-- An expression that is read at a level has the property of that level. A target that cannot be
assigned to is kept as it is, since it binds tighter than an assignment. -/
theorem ensures (level : Level) (input : List Token) :
    input <:+ source → (expression finish level input).Ensures (holds level) := by
  refine expression.induct
    (fun level input => input <:+ source → (expression finish level input).Ensures (holds level))
    (fun chain left input => input <:+ source → holds (.chain chain) left →
      (joined finish chain left input).Ensures (holds (.chain chain)))
    ?assignment ?chain ?ternary ?noOperator ?operator ?nothing ?leaf ?grouping ?other ?finished
    ?continued level input
  case assignment =>
    intro input orIH valueIH left
    rw [expression]
    apply Reply.ensures_bind (orIH left)
    intro target rest targetHolds
    have kept : holds .assignment target := levelled.loosen (by decide) targetHolds
    split
    · exact kept
    · next equals after _ =>
        have leftAfter := after.isSuffix.trans (rest.isSuffix.trans left)
        apply Reply.ensures_within
        apply Reply.ensures_bind (valueIH rest after leftAfter)
        intro value _ valueHolds
        split
        · exact levelled.assign targetHolds valueHolds
        · exact kept
  case chain =>
    intro input chain operandIH joinedIH left
    rw [expression]
    apply Reply.ensures_bind (operandIH left)
    intro operand rest operandHolds
    have first : holds (.chain chain) operand :=
      levelled.loosen chain.lt_operand.le operandHolds
    exact joinedIH operand rest (rest.isSuffix.trans left) first
  case ternary =>
    intro input equalityIH trueIH falseIH left
    rw [expression]
    apply Reply.ensures_bind (equalityIH left)
    intro condition first conditionHolds
    split
    · exact levelled.loosen (by decide) conditionHolds
    · next question after found =>
        have leftFirst := first.isSuffix.trans left
        have leftAfter := after.isSuffix.trans leftFirst
        apply Reply.ensures_within
        apply Reply.ensures_bind (trueIH first after leftAfter)
        intro whenTrue second trueHolds
        have leftSecond := second.isSuffix.trans leftAfter
        apply Reply.ensures_bind (Reply.ensures_trivial _)
        intro colon third _
        have leftThird := third.isSuffix.trans leftSecond
        apply Reply.ensures_bind (falseIH first after second third leftThird)
        intro whenFalse _ falseHolds
        exact levelled.ternary (standsIn_of_next? found leftFirst) conditionHolds trueHolds
          falseHolds
  case noOperator =>
    intro input absent primaryIH left
    rw [expression, absent]
    exact (primaryIH left).weaken fun _ held => levelled.loosen (by decide) held
  case operator =>
    intro input operator after found operandIH left
    rw [expression, found]
    apply Reply.ensures_within
    apply Reply.ensures_bind (operandIH (after.isSuffix.trans left))
    intro operand _ operandHolds
    exact levelled.unary (standsIn_of_next? found left) operandHolds
  case nothing =>
    intro _
    rw [expression]
    exact True.intro
  case leaf =>
    intro token after leaf found left
    rw [expression, found]
    exact levelled.leaf found (left.subset List.mem_cons_self)
  case grouping =>
    intro token after noLeaf isOpening innerIH left
    rw [expression, noLeaf]
    simp only [isOpening, if_true]
    apply Reply.ensures_within
    apply Reply.ensures_bind (innerIH ((List.suffix_cons token after).trans left))
    intro inner _ innerHolds
    apply Reply.ensures_bind (Reply.ensures_trivial _)
    intro closing _ _
    exact levelled.grouping innerHolds
  case other =>
    intro token after noLeaf noParen _
    rw [expression, noLeaf]
    simp only [noParen, if_false]
    exact True.intro
  case finished =>
    intro chain leftTree input absent _ leftHolds
    rw [joined, absent]
    exact leftHolds
  case continued =>
    intro chain leftTree input operator after found operandIH joinedIH left leftHolds
    rw [joined, found]
    have leftAfter := after.isSuffix.trans left
    apply Reply.ensures_within
    apply Reply.ensures_bind (operandIH leftAfter)
    intro right rest rightHolds
    have longer := levelled.join (standsIn_of_next? found left) leftHolds rightHolds
    exact joinedIH right rest (rest.isSuffix.trans leftAfter) longer

end Levelled

end Grammar

end BlockScript
