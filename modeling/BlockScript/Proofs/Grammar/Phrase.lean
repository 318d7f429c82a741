import BlockScript.Grammar.Expression
import BlockScript.Proofs.Grammar.Derivation

/-!
# Facts about the grammar

What the rules of the grammar imply about the tokens of a phrase: the six levels of left-associative
operators follow one scheme, a phrase begins with a token that can begin an expression, and a phrase
whose tree is a variable is that variable's name alone.
-/

namespace BlockScript

/-! ## The scheme of the chains -/

/-- The kinds of token that join the operands of a chain, as a list. -/
def Chain.operators : Chain → List Kind
  | or => [.keyword .orWord]
  | and => [.keyword .andWord]
  | equality => [.mark .bangEqual, .mark .equalEqual]
  | comparison => [.mark .greater, .mark .greaterEqual, .mark .less, .mark .lessEqual]
  | sum => [.mark .minus, .mark .plus]
  | product => [.mark .slash, .mark .star]

theorem Chain.joins_iff_mem_operators {chain : Chain} {kind : Kind} :
    chain.joins kind = true ↔ kind ∈ chain.operators := by
  constructor
  · intro joins
    rw [Chain.joins.eq_def] at joins
    split at joins <;> simp_all [Chain.operators]
  · intro member
    cases chain <;> simp only [Chain.operators, List.mem_cons, List.not_mem_nil, or_false] at member
    case or | and => cases member; rfl
    case comparison => rcases member with rfl | rfl | rfl | rfl <;> rfl
    case equality | sum | product => rcases member with rfl | rfl <;> rfl

namespace Phrase

variable {tokens : List Token} {tree : Expr}

theorem ofOperand {chain : Chain} (operand : Phrase chain.operand tokens tree) :
    Phrase (.chain chain) tokens tree := by
  cases chain with
  | or => exact .orAnd operand
  | and => exact .andTernary operand
  | equality => exact .equalityComparison operand
  | comparison => exact .comparisonSum operand
  | sum => exact .sumProduct operand
  | product => exact .productUnary operand

theorem join {chain : Chain} {before after : List Token} {operator : Token} {left right : Expr}
    (earlier : Phrase (.chain chain) before left) (joins : chain.joins operator.kind = true)
    (operand : Phrase chain.operand after right) :
    Phrase (.chain chain) (before ++ operator :: after) (chain.join operator left right) := by
  have member := Chain.joins_iff_mem_operators.mp joins
  cases chain <;> simp only [Chain.operators, List.mem_cons, List.not_mem_nil, or_false] at member
  case or => exact .or earlier member operand
  case and => exact .and earlier member operand
  case equality => exact .equality earlier member operand
  case comparison => exact .comparison earlier member operand
  case sum => exact .sum earlier member operand
  case product => exact .product earlier member operand

/-- No phrase but a name has the tree of a variable: parentheses leave a trace in the tree. -/
theorem eq_of_variable {level : Level} {name : Token}
    (phrase : Phrase level tokens (.variable name)) :
    tokens = [name] ∧ name.kind = .identifier := by
  generalize same : Expr.variable name = tree at phrase
  induction phrase with
  | assignmentOr _ inductionHypothesis => exact inductionHypothesis same
  | orAnd _ inductionHypothesis => exact inductionHypothesis same
  | andTernary _ inductionHypothesis => exact inductionHypothesis same
  | ternaryEquality _ inductionHypothesis => exact inductionHypothesis same
  | equalityComparison _ inductionHypothesis => exact inductionHypothesis same
  | comparisonSum _ inductionHypothesis => exact inductionHypothesis same
  | sumProduct _ inductionHypothesis => exact inductionHypothesis same
  | productUnary _ inductionHypothesis => exact inductionHypothesis same
  | unaryPrimary _ inductionHypothesis => exact inductionHypothesis same
  | «variable» isName =>
      cases same
      exact ⟨rfl, isName⟩
  | _ => cases same

end Phrase

theorem Kind.isUnaryOperator_iff {kind : Kind} :
    kind.isUnaryOperator = true ↔ kind = .mark .bang ∨ kind = .mark .minus := by
  constructor
  · intro isOperator
    rw [Kind.isUnaryOperator.eq_def] at isOperator
    split at isOperator <;> simp_all
  · intro isOperator
    rcases isOperator with rfl | rfl <;> rfl

theorem Phrase.ofToken {token : Token} {leaf : Expr} (found : Expr.ofToken? token = some leaf) :
    Phrase .primary [token] leaf := by
  rw [Expr.ofToken?.eq_def] at found
  split at found <;> cases found
  case h_1 kind => exact .falseWord kind
  case h_2 kind => exact .trueWord kind
  case h_3 kind => exact .nilWord kind
  case h_4 kind => exact .number kind
  case h_5 kind => exact .text kind
  case h_6 kind => exact .variable kind

/-! ## First tokens -/

def Kind.beginsExpression : Kind → Bool
  | .mark .bang | .mark .minus | .mark .leftParen => true
  | .keyword .trueWord | .keyword .falseWord | .keyword .nilWord => true
  | .number | .text | .identifier => true
  | _ => false

/-- The kinds of token that a statement other than a declaration can begin with. -/
def Kind.beginsStatement : Kind → Bool
  | .keyword .ifWord | .keyword .printWord | .keyword .whileWord | .keyword .forWord => true
  | .keyword .breakWord | .mark .leftBrace => true
  | kind => kind.beginsExpression

def Begins (wanted : Kind → Bool) (tokens : List Token) : Prop :=
  ∃ token after, tokens = token :: after ∧ wanted token.kind = true

namespace Begins

variable {wanted : Kind → Bool} {tokens : List Token}

theorem append (begins : Begins wanted tokens) (more : List Token) :
    Begins wanted (tokens ++ more) := by
  rcases begins with ⟨token, after, rfl, kind⟩
  exact ⟨token, after ++ more, rfl, kind⟩

theorem mono {weaker : Kind → Bool} (begins : Begins wanted tokens)
    (implied : ∀ kind, wanted kind = true → weaker kind = true) : Begins weaker tokens := by
  rcases begins with ⟨token, after, rfl, kind⟩
  exact ⟨token, after, rfl, implied _ kind⟩

end Begins

theorem Phrase.begins {level : Level} {tokens : List Token} {tree : Expr}
    (phrase : Phrase level tokens tree) : Begins Kind.beginsExpression tokens := by
  induction phrase with
  | assign isName => exact ⟨_, _, rfl, by rw [isName]; rfl⟩
  | unary isOperator =>
      rcases isOperator with isBang | isMinus
      · exact ⟨_, _, rfl, by rw [isBang]; rfl⟩
      · exact ⟨_, _, rfl, by rw [isMinus]; rfl⟩
  | trueWord kind | falseWord kind | nilWord kind | number kind | text kind | «variable» kind =>
      exact ⟨_, _, rfl, by rw [kind]; rfl⟩
  | grouping opening => exact ⟨_, _, rfl, by rw [opening]; rfl⟩
  | or _ _ _ begins | and _ _ _ begins | equality _ _ _ begins | comparison _ _ _ begins
  | sum _ _ _ begins | product _ _ _ begins | ternary _ _ _ _ _ begins => exact begins.append _
  | _ => assumption

theorem DeclarationPhrase.begins {tokens : List Token} {tree : Stmt}
    (declaration : DeclarationPhrase tokens tree) :
    Begins (· == .keyword .varWord) tokens := by
  cases declaration with
  | bare isVar => exact ⟨_, _, rfl, by rw [isVar]; rfl⟩
  | initialized isVar => exact ⟨_, _, rfl, by rw [isVar]; rfl⟩

theorem ExpressionPhrase.begins {tokens : List Token} {tree : Stmt}
    (statement : ExpressionPhrase tokens tree) : Begins Kind.beginsExpression tokens := by
  cases statement with
  | terminated phrase => exact phrase.begins.append _

theorem Sentence.begins {inLoop dangling : Bool} {tokens : List Token} {tree : Stmt}
    (sentence : Sentence inLoop dangling tokens tree) : Begins Kind.beginsStatement tokens := by
  cases sentence with
  | ifThen kind | ifElse kind | print kind | block kind | whileLoop kind | forLoop kind
  | breakLoop kind => exact ⟨_, _, rfl, by rw [kind]; rfl⟩
  | expression statement =>
      refine statement.begins.mono fun kind begins => ?_
      rw [Kind.beginsStatement.eq_def]
      split <;> first | rfl | exact begins

def NoElse (tokens : List Token) : Prop :=
  ∀ token ∈ tokens.head?, token.kind ≠ .keyword .elseWord

theorem Begins.noElse {wanted : Kind → Bool} {tokens : List Token} (begins : Begins wanted tokens)
    (unwanted : wanted (.keyword .elseWord) = false) : NoElse tokens := by
  rcases begins with ⟨head, after, rfl, kind⟩
  intro token isNext isElse
  cases Option.some.inj isNext
  simp [isElse, unwanted] at kind

/-- An else after a sequence of items belongs to none of them. -/
theorem Sentences.noElse {inLoop : Bool} {tokens rest : List Token} {trees : List Stmt}
    (sentences : Sentences inLoop tokens trees) (noElse : NoElse rest) :
    NoElse (tokens ++ rest) := by
  cases sentences with
  | nil => exact noElse
  | declaration phrase => exact ((phrase.begins.append _).append _).noElse rfl
  | statement sentence => exact ((sentence.begins.append _).append _).noElse rfl

end BlockScript
