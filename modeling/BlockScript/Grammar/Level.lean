import BlockScript.Syntax.Expr

/-!
# Levels of precedence

Expressions fall into levels, from assignment, which binds loosest, to primary expressions. Six of
the levels are chains of operands joined from the left by operators of one precedence; the other
four have rules of their own.
-/

namespace BlockScript

/-- A level at which operands are joined from the left. -/
inductive Chain where
  | or | and | equality | comparison | sum | product
  deriving DecidableEq, Repr

inductive Level where
  | assignment
  | chain (chain : Chain)
  | ternary
  | unary
  | primary
  deriving DecidableEq, Repr

/-- How tightly a level binds: a higher level has a lower rank. -/
def Level.rank : Level → Nat
  | assignment => 9
  | chain .or => 8
  | chain .and => 7
  | ternary => 6
  | chain .equality => 5
  | chain .comparison => 4
  | chain .sum => 3
  | chain .product => 2
  | unary => 1
  | primary => 0

namespace Chain

/-- The level of the operands that a chain joins. -/
def operand : Chain → Level
  | or => .chain .and
  | and => .ternary
  | equality => .chain .comparison
  | comparison => .chain .sum
  | sum => .chain .product
  | product => .unary

/-- The kinds of token that join the operands of a chain. -/
def joins : Chain → Kind → Bool
  | or, .keyword .orWord => true
  | and, .keyword .andWord => true
  | equality, .mark .bangEqual => true
  | equality, .mark .equalEqual => true
  | comparison, .mark .greater => true
  | comparison, .mark .greaterEqual => true
  | comparison, .mark .less => true
  | comparison, .mark .lessEqual => true
  | sum, .mark .minus => true
  | sum, .mark .plus => true
  | product, .mark .slash => true
  | product, .mark .star => true
  | _, _ => false

/-- Joins two operands. The two connectives evaluate their right operand only if they need it, so
they form expressions of their own sort. -/
def join (chain : Chain) (operator : Token) (left right : Expr) : Expr :=
  match chain with
  | or | and => .logical operator left right
  | equality | comparison | sum | product => .binary operator left right

theorem rank_operand_lt (chain : Chain) : chain.operand.rank < (Level.chain chain).rank := by
  cases chain <;> decide

end Chain

/-- The kinds of token that stand before a unary expression. -/
def Kind.isUnaryOperator : Kind → Bool
  | .mark .bang => true
  | .mark .minus => true
  | _ => false

end BlockScript
