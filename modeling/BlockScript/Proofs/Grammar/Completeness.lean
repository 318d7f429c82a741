import BlockScript.Proofs.Grammar.Phrase
import BlockScript.Proofs.Grammar.Reading

/-!
# What follows the grammar is accepted

A rule accepts every token sequence that the grammar derives for it, whatever comes after, as long
as the next token cannot continue the sequence. For expressions that depends on the level: the
operators of a level and of the tighter ones continue a phrase of the level. For statements only an
else can, and only after an if that lacks one.
-/

namespace BlockScript

/-! ## Tokens that continue a phrase -/

/-- The level whose phrases a kind of token can continue, if there is one. -/
def Kind.continued? : Kind → Option Level
  | .mark .equal => some .assignment
  | .keyword .orWord => some (.chain .or)
  | .keyword .andWord => some (.chain .and)
  | .mark .question => some .ternary
  | .mark .bangEqual | .mark .equalEqual => some (.chain .equality)
  | .mark .greater | .mark .greaterEqual | .mark .less | .mark .lessEqual =>
      some (.chain .comparison)
  | .mark .minus | .mark .plus => some (.chain .sum)
  | .mark .slash | .mark .star => some (.chain .product)
  | _ => none

/-- A phrase of a level stops before these tokens: the next one does not continue a phrase of this
level or of a tighter one. -/
def Stops (level : Level) (tokens : List Token) : Prop :=
  ∀ token ∈ tokens.head?, ∀ other, token.kind.continued? = some other → level.rank < other.rank

theorem Chain.continued?_of_joins {chain : Chain} {kind : Kind} (joins : chain.joins kind = true) :
    kind.continued? = some (.chain chain) := by
  have member := Chain.joins_iff_mem_operators.mp joins
  cases chain <;> simp only [Chain.operators, List.mem_cons, List.not_mem_nil, or_false] at member
  case or | and => cases member; rfl
  case comparison => rcases member with rfl | rfl | rfl | rfl <;> rfl
  case equality | sum | product => rcases member with rfl | rfl <;> rfl

namespace Stops

variable {level : Level} {tokens : List Token}

/-- What stops a phrase stops every tighter one. -/
theorem mono {tighter : Level} (stops : Stops level tokens) (le : tighter.rank ≤ level.rank) :
    Stops tighter tokens := by
  intro token isNext other continues
  exact Nat.lt_of_le_of_lt le (stops token isNext other continues)

theorem cons {token : Token} (after : List Token)
    (looser : ∀ other, token.kind.continued? = some other → level.rank < other.rank) :
    Stops level (token :: after) := by
  intro next isNext
  cases Option.some.inj isNext
  exact looser

/-- A token that continues no phrase at all stops every one. -/
theorem cons_of_none {token : Token} (after : List Token) (none : token.kind.continued? = none) :
    Stops level (token :: after) := by
  refine cons after ?_
  simp [none]

theorem next?_joins {chain : Chain} (stops : Stops (.chain chain) tokens) :
    next? chain.joins tokens = none := by
  refine next?_eq_none.mpr fun token isNext => ?_
  cases joins : chain.joins token.kind with
  | false => rfl
  | true =>
      have continues := Chain.continued?_of_joins joins
      exact (Nat.lt_irrefl _ (stops token isNext _ continues)).elim

theorem next?_eq {kind : Kind} {other : Level} (stops : Stops level tokens)
    (continues : kind.continued? = some other) (le : other.rank ≤ level.rank) :
    next? (· == kind) tokens = none := by
  refine next?_eq_none.mpr fun token isNext => ?_
  rw [beq_eq_false_iff_ne]
  intro same
  subst same
  have less := stops token isNext other continues
  omega

end Stops

namespace Grammar

variable (finish : Token)

/-! ## Expressions -/

/-- What it means that the reader takes these tokens as a phrase with this tree, whatever tokens
come after them. A phrase of a chain may be the left part of a longer one, so its reading goes on
with the operators of the chain. -/
def Reads : Level → List Token → Expr → Prop
  | .chain chain, tokens, tree => ∀ rest, Stops chain.operand rest → ∀ whole unread,
      (joined finish chain tree rest).Accepts whole unread →
        (expression finish (.chain chain) (tokens ++ rest)).Accepts whole unread
  | level, tokens, tree => ∀ rest, Stops level rest →
      (expression finish level (tokens ++ rest)).Accepts tree rest

variable {finish} {tokens : List Token} {tree : Expr}

theorem accepts_joined_of_stops {chain : Chain} {rest : List Token}
    (stops : Stops (.chain chain) rest) : (joined finish chain tree rest).Accepts tree rest := by
  rw [joined, stops.next?_joins]
  exact Reply.accepts_done.mpr ⟨rfl, rfl⟩

/-- A phrase that stops is accepted with the tree that it has. -/
theorem Reads.accepts {level : Level} (reads : Reads finish level tokens tree)
    {input rest : List Token} (stops : Stops level rest) (split : input = tokens ++ rest) :
    (expression finish level input).Accepts tree rest := by
  subst split
  cases level with
  | chain chain =>
      have operandStops := stops.mono (Nat.le_of_lt chain.rank_operand_lt)
      exact reads rest operandStops tree rest (accepts_joined_of_stops stops)
  | assignment | ternary | unary | primary => exact reads rest stops

/-- A chain may consist of a single operand. -/
theorem Reads.ofOperand {chain : Chain} (reads : Reads finish chain.operand tokens tree) :
    Reads finish (.chain chain) tokens tree := by
  intro rest stops whole unread accepts
  rw [expression]
  refine (reads.accepts stops rfl).bind fun after left => ?_
  rw [left]
  exact accepts

theorem Reads.join {chain : Chain} {before after : List Token} {operator : Token}
    {left right : Expr} (earlier : Reads finish (.chain chain) before left)
    (joins : chain.joins operator.kind = true) (operand : Reads finish chain.operand after right) :
    Reads finish (.chain chain) (before ++ operator :: after) (chain.join operator left right) := by
  intro rest stops whole unread accepts
  have operatorStops : Stops chain.operand (operator :: (after ++ rest)) := by
    refine .cons _ fun other continues => ?_
    cases (Chain.continued?_of_joins joins).symm.trans continues
    exact chain.rank_operand_lt
  rw [List.append_assoc]
  refine earlier _ operatorStops whole unread ?_
  rw [joined, next?_cons _ joins]
  refine Reply.accepts_within.mpr ((operand.accepts stops rfl).bind fun further unreadSame => ?_)
  rw [unreadSame]
  exact accepts

theorem Reads.ofPrimary (reads : Reads finish .primary tokens tree)
    (noOperator : ∀ rest, next? Kind.isUnaryOperator (tokens ++ rest) = none) :
    Reads finish .unary tokens tree := by
  intro rest stops
  rw [expression, noOperator]
  exact reads.accepts (stops.mono (Nat.zero_le _)) rfl

theorem Reads.ofEquality (reads : Reads finish (.chain .equality) tokens tree) :
    Reads finish .ternary tokens tree := by
  intro rest stops
  rw [expression]
  refine (reads.accepts (stops.mono (by decide)) rfl).bind fun after left => ?_
  have absent : next? (· == .mark .question) after.tokens = none := by
    rw [left]
    exact stops.next?_eq rfl (by decide)
  rw [absent]
  exact Reply.accepts_done.mpr ⟨rfl, left⟩

theorem Reads.ofOr (reads : Reads finish (.chain .or) tokens tree) :
    Reads finish .assignment tokens tree := by
  intro rest stops
  rw [expression]
  refine (reads.accepts (stops.mono (by decide)) rfl).bind fun after left => ?_
  have absent : next? (· == .mark .equal) after.tokens = none := by
    rw [left]
    exact stops.next?_eq rfl (by decide)
  rw [absent]
  exact Reply.accepts_done.mpr ⟨rfl, left⟩

theorem reads_leaf {token : Token} {leaf : Expr} (found : Expr.ofToken? token = some leaf) :
    Reads finish .primary [token] leaf := by
  intro rest stops
  rw [List.singleton_append, expression, found]
  exact Reply.accepts_within.mpr (Reply.accepts_done.mpr ⟨rfl, rfl⟩)

/-- A name is read as the left part of whatever a level above makes of it. -/
theorem reads_name {token : Token} (isName : token.kind = .identifier) :
    Reads finish (.chain .or) [token] (.variable token) := by
  have leaf : Reads finish .primary [token] (.variable token) :=
    reads_leaf (by rw [Expr.ofToken?, isName])
  have unary := leaf.ofPrimary fun rest => by
    simp [next?, isName, Kind.isUnaryOperator]
  have product : Reads finish (.chain .product) [token] (.variable token) := unary.ofOperand
  have sum : Reads finish (.chain .sum) [token] (.variable token) := product.ofOperand
  have comparison : Reads finish (.chain .comparison) [token] (.variable token) := sum.ofOperand
  have equality : Reads finish (.chain .equality) [token] (.variable token) := comparison.ofOperand
  have ternary : Reads finish Chain.and.operand [token] (.variable token) := equality.ofEquality
  have and : Reads finish Chain.or.operand [token] (.variable token) := ternary.ofOperand
  exact and.ofOperand

theorem Reads.assign {name equals : Token} {value : Expr} (isName : name.kind = .identifier)
    (isEquals : equals.kind = .mark .equal) (reads : Reads finish .assignment tokens value) :
    Reads finish .assignment (name :: equals :: tokens) (.assign name value) := by
  intro rest stops
  have equalsStops : Stops (.chain .or) (equals :: (tokens ++ rest)) := by
    refine .cons _ fun other continues => ?_
    rw [isEquals] at continues
    cases continues
    decide
  rw [expression]
  refine ((reads_name isName).accepts equalsStops rfl).bind fun after left => ?_
  rcases next?_kind_of_eq_cons left isEquals with ⟨last, found, lastLeft⟩
  rw [found]
  refine Reply.accepts_within.mpr ((reads.accepts stops lastLeft).bind fun further unread => ?_)
  exact Reply.accepts_done.mpr ⟨rfl, unread⟩

theorem Reads.ternary {test first second : List Token} {question colon : Token}
    {condition whenTrue whenFalse : Expr}
    (testReads : Reads finish (.chain .equality) test condition)
    (isQuestion : question.kind = .mark .question)
    (firstReads : Reads finish .assignment first whenTrue) (isColon : colon.kind = .mark .colon)
    (secondReads : Reads finish .ternary second whenFalse) :
    Reads finish .ternary (test ++ question :: (first ++ colon :: second))
      (.ternary question condition whenTrue whenFalse) := by
  intro rest stops
  have questionStops :
      Stops (.chain .equality) (question :: (first ++ colon :: (second ++ rest))) := by
    refine .cons _ fun other continues => ?_
    rw [isQuestion] at continues
    cases continues
    decide
  have colonStops : Stops .assignment (colon :: (second ++ rest)) :=
    .cons_of_none _ (by rw [isColon]; rfl)
  have tokensSame : test ++ question :: (first ++ colon :: second) ++ rest =
      test ++ question :: (first ++ colon :: (second ++ rest)) := by simp
  rw [tokensSame, expression]
  refine (testReads.accepts questionStops rfl).bind fun after left => ?_
  rcases next?_kind_of_eq_cons left isQuestion with ⟨last, found, lastLeft⟩
  rw [found]
  refine Reply.accepts_within.mpr
    ((firstReads.accepts colonStops lastLeft).bind fun further unread => ?_)
  refine Reply.Accepts.bind (accepts_expect.mpr ⟨isColon, unread⟩) fun next nextLeft => ?_
  refine (secondReads.accepts stops nextLeft).bind fun final finalLeft => ?_
  exact Reply.accepts_done.mpr ⟨rfl, finalLeft⟩

theorem Reads.unary {operator : Token} {operand : Expr}
    (isOperator : operator.kind.isUnaryOperator = true)
    (reads : Reads finish .unary tokens operand) :
    Reads finish .unary (operator :: tokens) (.unary operator operand) := by
  intro rest stops
  rw [List.cons_append, expression, next?_cons _ isOperator]
  refine Reply.accepts_within.mpr ((reads.accepts stops rfl).bind fun after left => ?_)
  exact Reply.accepts_done.mpr ⟨rfl, left⟩

theorem Reads.grouping {opening closing : Token} {inner : Expr}
    (isOpening : opening.kind = .mark .leftParen) (reads : Reads finish .assignment tokens inner)
    (isClosing : closing.kind = .mark .rightParen) :
    Reads finish .primary (opening :: (tokens ++ [closing])) (.grouping inner) := by
  intro rest stops
  have closingStops : Stops .assignment (closing :: rest) :=
    .cons_of_none _ (by rw [isClosing]; rfl)
  have noLeaf : Expr.ofToken? opening = none := by rw [Expr.ofToken?, isOpening]
  have tokensSame : opening :: (tokens ++ [closing]) ++ rest =
      opening :: (tokens ++ closing :: rest) := by simp
  rw [tokensSame, expression, noLeaf]
  simp only [isOpening, if_true]
  refine Reply.accepts_within.mpr ((reads.accepts closingStops rfl).bind fun after left => ?_)
  refine Reply.Accepts.bind (accepts_expect.mpr ⟨isClosing, left⟩) fun last lastLeft => ?_
  exact Reply.accepts_done.mpr ⟨rfl, lastLeft⟩

/-- Every phrase of the grammar is read as what it is. -/
theorem reads_of_phrase {level : Level} (phrase : Phrase level tokens tree) :
    Reads finish level tokens tree := by
  induction phrase with
  | assign isName isEquals _ value => exact value.assign isName isEquals
  | assignmentOr _ reads => exact reads.ofOr
  | ternary _ isQuestion _ isColon _ test first second =>
      exact test.ternary isQuestion first isColon second
  | ternaryEquality _ reads => exact reads.ofEquality
  | or _ isOperator _ left right | and _ isOperator _ left right =>
      exact left.join
        (Chain.joins_iff_mem_operators.mpr (by simp [Chain.operators, isOperator])) right
  | equality _ isOperator _ left right | comparison _ isOperator _ left right
  | sum _ isOperator _ left right | product _ isOperator _ left right =>
      exact left.join
        (Chain.joins_iff_mem_operators.mpr (by simpa [Chain.operators] using isOperator)) right
  | orAnd _ reads => exact Reads.ofOperand reads
  | andTernary _ reads => exact Reads.ofOperand reads
  | equalityComparison _ reads => exact Reads.ofOperand reads
  | comparisonSum _ reads => exact Reads.ofOperand reads
  | sumProduct _ reads => exact Reads.ofOperand reads
  | productUnary _ reads => exact Reads.ofOperand reads
  | unary isOperator _ operand => exact operand.unary (Kind.isUnaryOperator_iff.mpr isOperator)
  | unaryPrimary primary reads =>
      refine reads.ofPrimary fun rest => ?_
      cases primary with
      | trueWord kind | falseWord kind | nilWord kind | number kind | text kind
      | «variable» kind | grouping kind => simp [next?, kind, Kind.isUnaryOperator]
  | trueWord kind | falseWord kind | nilWord kind | number kind | text kind | «variable» kind =>
      exact reads_leaf (by rw [Expr.ofToken?, kind])
  | grouping isOpening _ isClosing inner => exact inner.grouping isOpening isClosing

/-! ## Parts of statements -/

variable {input rest : List Token}

theorem accepts_of_phrase {level : Level} {token : Token} (phrase : Phrase level tokens tree)
    (ends : token.kind.continued? = none) (split : input = tokens ++ token :: rest) :
    (expression finish level input).Accepts tree (token :: rest) :=
  (reads_of_phrase phrase).accepts (.cons_of_none rest ends) split

theorem next?_eq_none_of_begins {kind : Kind} {begun : Kind → Bool} (begins : Begins begun input)
    (other : begun kind = false) : next? (· == kind) input = none := by
  refine next?_eq_none.mpr fun token isNext => ?_
  rcases begins with ⟨head, after, rfl, headKind⟩
  cases Option.some.inj isNext
  rw [beq_eq_false_iff_ne]
  intro same
  subst same
  rw [headKind] at other
  contradiction

theorem accepts_terminated {expected : Expected} {semicolon : Token}
    (wanted : expected.kind = .mark .semicolon) (phrase : Phrase .assignment tokens tree)
    (isSemicolon : semicolon.kind = .mark .semicolon)
    (split : input = tokens ++ semicolon :: rest) :
    (terminated finish expected input).Accepts tree rest := by
  refine (accepts_of_phrase phrase (by rw [isSemicolon]; rfl) split).bind fun after left => ?_
  exact accepts_expect_map.mpr ⟨semicolon, isSemicolon.trans wanted.symm, left, rfl⟩

theorem accepts_expressionStatement {statement : Stmt} (phrase : ExpressionPhrase tokens statement)
    (split : input = tokens ++ rest) :
    (expressionStatement finish input).Accepts statement rest := by
  cases phrase with
  | terminated value isSemicolon =>
      refine Reply.accepts_map.mpr ⟨_, accepts_terminated rfl value isSemicolon ?_, rfl⟩
      simpa using split

theorem accepts_declarationTail {keyword : Token} {statement : Stmt}
    (phrase : DeclarationPhrase (keyword :: tokens) statement) (split : input = tokens ++ rest) :
    (declarationTail finish input).Accepts statement rest := by
  cases phrase with
  | bare _ isName isSemicolon =>
      refine Reply.Accepts.bind (accepts_expect.mpr ⟨isName, split⟩) fun after left => ?_
      have begins : Begins (· == .mark .semicolon) after.tokens :=
        ⟨_, _, left, by simp [isSemicolon]⟩
      rw [next?_eq_none_of_begins begins rfl]
      exact accepts_expect_map.mpr ⟨_, isSemicolon, left, rfl⟩
  | initialized _ isName isEquals value isSemicolon =>
      refine Reply.Accepts.bind (accepts_expect.mpr ⟨isName, split⟩) fun after left => ?_
      rcases next?_kind_of_eq_cons left isEquals with ⟨last, found, lastLeft⟩
      rw [found]
      refine Reply.accepts_within.mpr (Reply.accepts_map.mpr
        ⟨_, accepts_terminated rfl value isSemicolon ?_, rfl⟩)
      simpa using lastLeft

theorem accepts_condition {opening closing : Expected}
    (isOpening : opening.kind = .mark .leftParen) (isClosing : closing.kind = .mark .rightParen)
    (phrase : ConditionPhrase tokens tree) (split : input = tokens ++ rest) :
    (condition finish opening closing input).Accepts tree rest := by
  cases phrase with
  | parenthesized firstKind value lastKind =>
      refine Reply.Accepts.bind
        (accepts_expect.mpr ⟨firstKind.trans isOpening.symm, split⟩) fun after left => ?_
      refine (accepts_of_phrase value (by rw [lastKind]; rfl) (by simpa using left)).bind
        fun last lastLeft => ?_
      exact accepts_expect_map.mpr ⟨_, lastKind.trans isClosing.symm, lastLeft, rfl⟩

theorem accepts_initialClause {initial : Option Stmt} (clause : InitialClause tokens initial)
    (split : input = tokens ++ rest) : (initialClause finish input).Accepts initial rest := by
  subst split
  rw [initialClause]
  cases clause with
  | absent isSemicolon =>
      rw [List.singleton_append, next?_cons _ (by simp [isSemicolon])]
      exact Reply.accepts_parsed.mpr ⟨rfl, rfl⟩
  | declaration phrase =>
      rw [next?_eq_none_of_begins (phrase.begins.append rest) rfl]
      rcases phrase.begins with ⟨keyword, after, rfl, isVar⟩
      simp only [List.cons_append]
      rw [next?_cons _ isVar]
      exact Reply.accepts_within.mpr
        (Reply.accepts_map.mpr ⟨_, accepts_declarationTail phrase rfl, rfl⟩)
  | expression phrase =>
      rw [next?_eq_none_of_begins (phrase.begins.append rest) rfl]
      simp only
      rw [next?_eq_none_of_begins (phrase.begins.append rest) rfl]
      exact Reply.accepts_map.mpr ⟨_, accepts_expressionStatement phrase rfl, rfl⟩

theorem accepts_optionalClause {closing : Expected} {token : Token} {value : Option Expr}
    (ends : closing.kind.continued? = none) (other : closing.kind.beginsExpression = false)
    (phrase : OptionalPhrase tokens value) (kind : token.kind = closing.kind)
    (split : input = tokens ++ token :: rest) :
    (optionalClause finish closing input).Accepts value rest := by
  subst split
  rw [optionalClause]
  cases phrase with
  | absent =>
      rw [List.nil_append, next?_cons _ (by simp [kind])]
      exact Reply.accepts_parsed.mpr ⟨rfl, rfl⟩
  | present phrase =>
      rw [next?_eq_none_of_begins (phrase.begins.append _) other]
      refine (accepts_of_phrase phrase (by rw [kind]; exact ends) rfl).bind fun after left => ?_
      exact accepts_expect_map.mpr ⟨_, kind, left, rfl⟩

theorem accepts_clauses {opening semicolon closing : Token} {start test step : List Token}
    {initial : Option Stmt} {condition increment : Option Expr}
    (isOpening : opening.kind = .mark .leftParen) (startClause : InitialClause start initial)
    (testPhrase : OptionalPhrase test condition) (isSemicolon : semicolon.kind = .mark .semicolon)
    (stepPhrase : OptionalPhrase step increment) (isClosing : closing.kind = .mark .rightParen)
    (split : input = opening :: (start ++ (test ++ semicolon :: (step ++ closing :: rest)))) :
    (clauses finish input).Accepts ⟨initial, condition, increment⟩ rest := by
  refine Reply.Accepts.bind (accepts_expect.mpr ⟨isOpening, split⟩) fun after left => ?_
  refine (accepts_initialClause startClause left).bind fun further furtherLeft => ?_
  refine (accepts_optionalClause rfl rfl testPhrase isSemicolon furtherLeft).bind
    fun last lastLeft => ?_
  exact Reply.accepts_map.mpr
    ⟨_, accepts_optionalClause rfl rfl stepPhrase isClosing lastLeft, rfl⟩

/-- The clauses and the body of a counting loop determine its tree. -/
theorem eq_countingLoop {initial : Option Stmt} {condition increment : Option Expr}
    {body tree : Stmt} (loop : LoopTree initial condition increment body tree) :
    tree = .countingLoop initial condition increment body := by
  induction loop with
  | endless => rfl
  | tested => rfl
  | stepped _ same => exact same
  | started _ same => rw [same]; rfl

/-! ## Statements -/

/-- Where a sequence of items ends: at the end of the tokens or, in a block, at a closing brace. -/
def EndsItems (inBlock : Bool) (tokens : List Token) : Prop :=
  tokens = [] ∨ inBlock = true ∧ Begins (· == .mark .rightBrace) tokens

theorem EndsItems.noElse {inBlock : Bool} (ends : EndsItems inBlock rest) : NoElse rest := by
  rcases ends with rfl | ⟨-, begins⟩
  · intro token isNext
    cases isNext
  · exact begins.noElse rfl

theorem accepts_items_nil {inLoop inBlock : Bool} (ends : EndsItems inBlock rest) :
    (items finish inLoop inBlock rest).Accepts [] rest := by
  rcases ends with rfl | ⟨inside, token, after, rfl, kind⟩
  · rw [items]
    exact ⟨rfl, rfl, rfl⟩
  · rw [items, if_pos (by simpa [inside] using kind)]
    exact ⟨rfl, rfl, rfl⟩

theorem accepts_items_cons {inLoop inBlock : Bool} {begun : Kind → Bool} {middle : List Token}
    {statement : Stmt} {statements : List Stmt} (begins : Begins begun input)
    (other : begun (.mark .rightBrace) = false)
    (item : ∀ token after, input = token :: after →
      (declaration finish inLoop token after).Accepts (some statement) middle)
    (others : (items finish inLoop inBlock middle).Accepts statements rest) :
    (items finish inLoop inBlock input).Accepts (statement :: statements) rest := by
  rcases begins with ⟨token, after, rfl, kind⟩
  rcases item token after rfl with ⟨value, clean, unread⟩
  have notClosing : ¬(inBlock && token.kind = .mark .rightBrace) = true := by
    intro closing
    simp only [Bool.and_eq_true, decide_eq_true_eq] at closing
    rw [closing.2, other] at kind
    contradiction
  rw [items, if_neg notClosing]
  rw [← unread] at others
  rcases others with ⟨othersValue, othersClean, othersUnread⟩
  exact ⟨by simp [value, othersValue], by simp [clean, othersClean], by simpa using othersUnread⟩

theorem accepts_declaration_of_phrase {inLoop : Bool} {token : Token} {after : List Token}
    {statement : Stmt} (phrase : DeclarationPhrase tokens statement)
    (split : token :: after = tokens ++ rest) :
    (declaration finish inLoop token after).Accepts (some statement) rest := by
  rcases phrase.begins with ⟨keyword, others, rfl, isVar⟩
  rcases List.cons.inj split with ⟨rfl, afterSplit⟩
  rw [declaration, if_pos (by simpa using isVar)]
  exact Recovered.accepts_recover.mpr
    ⟨statement, rfl, Reply.accepts_past.mpr (accepts_declarationTail phrase afterSplit)⟩

theorem accepts_declaration_of_begins {inLoop : Bool} {token : Token} {after : List Token}
    {tree : Stmt} (begins : Begins Kind.beginsStatement (token :: after))
    (accepts : (statement finish inLoop (token :: after)).Accepts tree rest) :
    (declaration finish inLoop token after).Accepts (some tree) rest := by
  rcases begins with ⟨head, others, split, kind⟩
  rcases List.cons.inj split with ⟨rfl, -⟩
  have notVar : token.kind ≠ .keyword .varWord := by
    intro isVar
    rw [isVar] at kind
    contradiction
  rw [declaration, if_neg notVar]
  exact Recovered.accepts_recover.mpr ⟨tree, rfl, accepts⟩

theorem statement_of_beginsExpression {inLoop : Bool} {token : Token} {after : List Token}
    (begins : token.kind.beginsExpression = true) :
    statement finish inLoop (token :: after) = expressionStatement finish (token :: after) := by
  refine statement_of_other ?_ ?_ ?_ ?_ ?_ ?_ ?_ <;>
  · intro kind
    rw [kind] at begins
    contradiction

/-- What it means that the reader takes these tokens as this statement, whatever comes after them,
unless that is an else that belongs to the statement. -/
def ReadsStatement (finish : Token) (inLoop dangling : Bool) (tokens : List Token) (tree : Stmt) :
    Prop :=
  ∀ {input rest : List Token}, (dangling = true → NoElse rest) → input = tokens ++ rest →
    (statement finish inLoop input).Accepts tree rest

/-- What it means that the reader takes these tokens as these items, if the items end there. -/
def ReadsItems (finish : Token) (inLoop : Bool) (tokens : List Token) (trees : List Stmt) : Prop :=
  ∀ {inBlock : Bool} {input rest : List Token}, EndsItems inBlock rest → input = tokens ++ rest →
    (items finish inLoop inBlock input).Accepts trees rest

namespace ReadsStatement

variable {inLoop dangling : Bool} {keyword semicolon : Token} {test body : List Token}
variable {condition : Expr}

theorem ifThen {whenTrue : Stmt} (isIf : keyword.kind = .keyword .ifWord)
    (phrase : ConditionPhrase test condition)
    (bodyReads : ReadsStatement finish inLoop dangling body whenTrue) :
    ReadsStatement finish inLoop true (keyword :: (test ++ body)) (.ifThen condition whenTrue) := by
  intro input rest noElse split
  rw [split, List.cons_append, List.append_assoc, Grammar.statement, isIf]
  refine Reply.accepts_past.mpr ((accepts_condition rfl rfl phrase rfl).bind fun after left => ?_)
  refine (bodyReads (fun _ => noElse rfl) left).bind fun last lastLeft => ?_
  have absent : next? (· == .keyword .elseWord) last.tokens = none := by
    rw [lastLeft]
    exact next?_eq_none.mpr fun token isNext => by simpa using noElse rfl token isNext
  rw [absent]
  exact Reply.accepts_done.mpr ⟨rfl, lastLeft⟩

theorem ifElse {other : Token} {first second : List Token} {whenTrue whenFalse : Stmt}
    (isIf : keyword.kind = .keyword .ifWord) (phrase : ConditionPhrase test condition)
    (firstReads : ReadsStatement finish inLoop false first whenTrue)
    (isElse : other.kind = .keyword .elseWord)
    (secondReads : ReadsStatement finish inLoop dangling second whenFalse) :
    ReadsStatement finish inLoop dangling (keyword :: (test ++ (first ++ other :: second)))
      (.ifElse condition whenTrue whenFalse) := by
  intro input rest noElse split
  have inputSame : input = keyword :: (test ++ (first ++ other :: (second ++ rest))) := by
    simpa using split
  rw [inputSame, Grammar.statement, isIf]
  refine Reply.accepts_past.mpr ((accepts_condition rfl rfl phrase rfl).bind fun after left => ?_)
  refine (firstReads (by simp) left).bind fun last lastLeft => ?_
  rcases next?_kind_of_eq_cons lastLeft isElse with ⟨found, taken, foundLeft⟩
  rw [taken]
  refine Reply.accepts_within.mpr ((secondReads noElse foundLeft).bind fun final finalLeft => ?_)
  exact Reply.accepts_done.mpr ⟨rfl, finalLeft⟩

theorem print {value : Expr} (isPrint : keyword.kind = .keyword .printWord)
    (phrase : Phrase .assignment tokens value) (isSemicolon : semicolon.kind = .mark .semicolon) :
    ReadsStatement finish inLoop false (keyword :: (tokens ++ [semicolon])) (.print value) := by
  intro input rest _ split
  have inputSame : input = keyword :: (tokens ++ semicolon :: rest) := by
    simpa using split
  rw [inputSame, Grammar.statement, isPrint]
  have read : (terminated finish .semicolonAfterValue (tokens ++ semicolon :: rest)).Accepts
      value rest := accepts_terminated rfl phrase isSemicolon rfl
  exact Reply.accepts_past.mpr (Reply.accepts_map.mpr ⟨value, read, rfl⟩)

theorem block {opening closing : Token} {statements : List Stmt}
    (isOpening : opening.kind = .mark .leftBrace)
    (bodyReads : ReadsItems finish inLoop tokens statements)
    (isClosing : closing.kind = .mark .rightBrace) :
    ReadsStatement finish inLoop false (opening :: (tokens ++ [closing])) (.block statements) := by
  intro input rest _ split
  have inputSame : input = opening :: (tokens ++ closing :: rest) := by
    simpa using split
  have ends : EndsItems true (closing :: rest) :=
    .inr ⟨rfl, closing, rest, rfl, by simp [isClosing]⟩
  rcases bodyReads ends rfl with ⟨value, clean, unread⟩
  rw [inputSame, Grammar.statement, isOpening]
  apply Reply.accepts_past.mpr
  apply Reply.accepts_within.mpr
  rw [clean, Reply.accepts_noteFirst_nil]
  exact accepts_expect_map.mpr ⟨closing, isClosing, unread, congrArg Stmt.block value⟩

theorem whileLoop {repeated : Stmt} (isWhile : keyword.kind = .keyword .whileWord)
    (phrase : ConditionPhrase test condition)
    (bodyReads : ReadsStatement finish true dangling body repeated) :
    ReadsStatement finish inLoop dangling (keyword :: (test ++ body))
      (.whileLoop condition repeated) := by
  intro input rest noElse split
  rw [split, List.cons_append, List.append_assoc, Grammar.statement, isWhile]
  refine Reply.accepts_past.mpr ((accepts_condition rfl rfl phrase rfl).bind fun after left => ?_)
  exact Reply.accepts_map.mpr ⟨repeated, bodyReads noElse left, rfl⟩

theorem forLoop {opening closing : Token} {start step : List Token} {initial : Option Stmt}
    {condition increment : Option Expr} {repeated loop : Stmt}
    (isFor : keyword.kind = .keyword .forWord) (isOpening : opening.kind = .mark .leftParen)
    (startClause : InitialClause start initial) (testPhrase : OptionalPhrase test condition)
    (isSemicolon : semicolon.kind = .mark .semicolon) (stepPhrase : OptionalPhrase step increment)
    (isClosing : closing.kind = .mark .rightParen)
    (loopTree : LoopTree initial condition increment repeated loop)
    (bodyReads : ReadsStatement finish true dangling body repeated) :
    ReadsStatement finish inLoop dangling
      (keyword :: opening :: (start ++ (test ++ semicolon :: (step ++ closing :: body)))) loop := by
  intro input rest noElse split
  have inputSame : input = keyword :: opening ::
      (start ++ (test ++ semicolon :: (step ++ closing :: (body ++ rest)))) := by
    simpa using split
  rw [inputSame, Grammar.statement, isFor]
  refine Reply.accepts_past.mpr ((accepts_clauses isOpening startClause testPhrase isSemicolon
    stepPhrase isClosing rfl).bind fun after left => ?_)
  exact Reply.accepts_map.mpr ⟨repeated, bodyReads noElse left, (eq_countingLoop loopTree).symm⟩

theorem breakLoop (isBreak : keyword.kind = .keyword .breakWord)
    (isSemicolon : semicolon.kind = .mark .semicolon) :
    ReadsStatement finish true false [keyword, semicolon] (.breakLoop keyword) := by
  intro input rest _ split
  rw [split, List.cons_append, Grammar.statement, isBreak]
  exact Reply.accepts_past.mpr (accepts_expect_map.mpr ⟨semicolon, isSemicolon, rfl, rfl⟩)

theorem expression {statement : Stmt} (phrase : ExpressionPhrase tokens statement) :
    ReadsStatement finish inLoop false tokens statement := by
  intro input rest _ split
  rcases phrase.begins with ⟨token, after, rfl, kind⟩
  rw [split, List.cons_append, statement_of_beginsExpression kind]
  exact accepts_expressionStatement phrase rfl

end ReadsStatement

namespace ReadsItems

variable {inLoop : Bool} {first others : List Token} {item : Stmt} {following : List Stmt}

theorem nil : ReadsItems finish inLoop [] [] := by
  intro inBlock input rest ends split
  rw [split, List.nil_append]
  exact accepts_items_nil ends

theorem declaration (phrase : DeclarationPhrase first item)
    (othersRead : ReadsItems finish inLoop others following) :
    ReadsItems finish inLoop (first ++ others) (item :: following) := by
  intro inBlock input rest ends split
  rw [List.append_assoc] at split
  have begins : Begins (· == .keyword .varWord) input := by
    rw [split]
    exact phrase.begins.append _
  apply accepts_items_cons begins rfl _ (othersRead ends rfl)
  intro token after same
  exact accepts_declaration_of_phrase phrase (same.symm.trans split)

/-- A statement is read as an item although others follow, because none of them begins with an
else. -/
theorem statement {dangling : Bool} (phrase : Sentence inLoop dangling first item)
    (firstReads : ReadsStatement finish inLoop dangling first item)
    (phrases : Sentences inLoop others following)
    (othersRead : ReadsItems finish inLoop others following) :
    ReadsItems finish inLoop (first ++ others) (item :: following) := by
  intro inBlock input rest ends split
  rw [List.append_assoc] at split
  have begins : Begins Kind.beginsStatement input := by
    rw [split]
    exact phrase.begins.append _
  have noElse : NoElse (others ++ rest) := phrases.noElse ends.noElse
  apply accepts_items_cons begins rfl _ (othersRead ends rfl)
  intro token after same
  rw [same] at begins
  exact accepts_declaration_of_begins begins (firstReads (fun _ => noElse) (same.symm.trans split))

end ReadsItems

mutual

/-- Every statement of the grammar is read as what it is. -/
theorem readsStatement_of_sentence (finish : Token) {inLoop dangling : Bool} {tokens : List Token}
    {tree : Stmt} :
    Sentence inLoop dangling tokens tree → ReadsStatement finish inLoop dangling tokens tree
  | .ifThen isIf phrase body =>
      ReadsStatement.ifThen isIf phrase (readsStatement_of_sentence finish body)
  | .ifElse isIf phrase first isElse second =>
      ReadsStatement.ifElse isIf phrase (readsStatement_of_sentence finish first) isElse
        (readsStatement_of_sentence finish second)
  | .print isPrint phrase isSemicolon => ReadsStatement.print isPrint phrase isSemicolon
  | .block isOpening body isClosing =>
      ReadsStatement.block isOpening (readsItems_of_sentences finish body) isClosing
  | .whileLoop isWhile phrase body =>
      ReadsStatement.whileLoop isWhile phrase (readsStatement_of_sentence finish body)
  | .forLoop isFor isOpening start test isSemicolon step isClosing body loopTree =>
      ReadsStatement.forLoop isFor isOpening start test isSemicolon step isClosing loopTree
        (readsStatement_of_sentence finish body)
  | .breakLoop isBreak isSemicolon => ReadsStatement.breakLoop isBreak isSemicolon
  | .expression phrase => ReadsStatement.expression phrase

/-- Every sequence of items of the grammar is read as what it is. -/
theorem readsItems_of_sentences (finish : Token) {inLoop : Bool} {tokens : List Token}
    {trees : List Stmt} : Sentences inLoop tokens trees → ReadsItems finish inLoop tokens trees
  | .nil => ReadsItems.nil
  | .declaration phrase others =>
      ReadsItems.declaration phrase (readsItems_of_sentences finish others)
  | .statement phrase others =>
      ReadsItems.statement phrase (readsStatement_of_sentence finish phrase) others
        (readsItems_of_sentences finish others)

end

end Grammar
end BlockScript
