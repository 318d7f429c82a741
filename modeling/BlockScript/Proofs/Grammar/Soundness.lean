import BlockScript.Proofs.Grammar.Phrase
import BlockScript.Proofs.Grammar.Reading

/-!
# What is accepted follows the grammar

A rule that accepts has read tokens that the grammar derives, and replies with their tree. The
inductions follow the recursion of the reader. A chain is read operand by operand, so what it has
read so far is carried along as a phrase of its own.
-/

namespace BlockScript.Grammar

variable {finish : Token} {input : List Token}

/-! ## Expressions -/

/-- What it means that an expression of a level is read from these tokens only as the grammar has
it. -/
def Follows (finish : Token) (level : Level) (input : List Token) : Prop :=
  ∀ tree unread, (expression finish level input).Accepts tree unread →
    ∃ tokens, input = tokens ++ unread ∧ Phrase level tokens tree

/-- What it means that a chain goes on with these tokens only as the grammar has it, whatever phrase
has been read before them. -/
def JoinedFollow (finish : Token) (chain : Chain) (left : Expr) (input : List Token) : Prop :=
  ∀ before tree unread, Phrase (.chain chain) before left →
    (joined finish chain left input).Accepts tree unread →
      ∃ tokens, input = tokens ++ unread ∧ Phrase (.chain chain) (before ++ tokens) tree

namespace Follows

theorem assignment (orFollows : Follows finish (.chain .or) input)
    (valueFollows : ∀ (rest : Rest 0 input) (after : Rest 1 rest.tokens),
      Follows finish .assignment after.tokens) :
    Follows finish .assignment input := by
  intro tree unread accepts
  rw [expression] at accepts
  rcases Reply.accepts_bind.mp accepts with ⟨target, rest, targetRead, accepts⟩
  rcases orFollows _ _ targetRead with ⟨tokens, targetSplit, phrase⟩
  split at accepts
  · rcases Reply.accepts_done.mp accepts with ⟨rfl, rfl⟩
    exact ⟨tokens, targetSplit, .assignmentOr phrase⟩
  · next equals after found =>
      rcases next?_kind_eq_some.mp found with ⟨isEquals, split⟩
      rcases Reply.accepts_bind.mp (Reply.accepts_within.mp accepts) with
        ⟨value, further, valueRead, accepts⟩
      rcases valueFollows rest after _ _ valueRead with ⟨valueTokens, valueSplit, valuePhrase⟩
      cases target with
      | «variable» name =>
          rcases Reply.accepts_done.mp accepts with ⟨rfl, rfl⟩
          rcases phrase.eq_of_variable with ⟨rfl, isName⟩
          exact ⟨name :: equals :: valueTokens, by grind, .assign isName isEquals valuePhrase⟩
      | _ => exact (Reply.not_accepts_note accepts).elim

theorem chain {chain : Chain} (operandFollows : Follows finish chain.operand input)
    (joinedFollow : ∀ (left : Expr) (rest : Rest 0 input),
      JoinedFollow finish chain left rest.tokens) :
    Follows finish (.chain chain) input := by
  intro tree unread accepts
  rw [expression] at accepts
  rcases Reply.accepts_bind.mp accepts with ⟨left, rest, leftRead, accepts⟩
  rcases operandFollows _ _ leftRead with ⟨first, split, phrase⟩
  rcases joinedFollow left rest _ _ _ phrase.ofOperand accepts with ⟨others, othersSplit, whole⟩
  exact ⟨first ++ others, by grind, whole⟩

theorem ternary (equalityFollows : Follows finish (.chain .equality) input)
    (whenTrueFollows : ∀ (rest : Rest 0 input) (after : Rest 1 rest.tokens),
      Follows finish .assignment after.tokens)
    (whenFalseFollows : ∀ (rest : Rest 0 input) (after : Rest 1 rest.tokens)
      (further : Rest 0 after.tokens) (last : Rest 1 further.tokens),
      Follows finish .ternary last.tokens) :
    Follows finish .ternary input := by
  intro tree unread accepts
  rw [expression] at accepts
  rcases Reply.accepts_bind.mp accepts with ⟨condition, rest, conditionRead, accepts⟩
  rcases equalityFollows _ _ conditionRead with ⟨test, testSplit, testPhrase⟩
  split at accepts
  · rcases Reply.accepts_done.mp accepts with ⟨rfl, rfl⟩
    exact ⟨test, testSplit, .ternaryEquality testPhrase⟩
  · next question after found =>
      rcases next?_kind_eq_some.mp found with ⟨isQuestion, split⟩
      rcases Reply.accepts_bind.mp (Reply.accepts_within.mp accepts) with
        ⟨whenTrue, further, whenTrueRead, accepts⟩
      rcases whenTrueFollows rest after _ _ whenTrueRead with ⟨first, firstSplit, firstPhrase⟩
      rcases accepts_expect_bind.mp accepts with ⟨colon, last, isColon, colonSplit, accepts⟩
      rcases Reply.accepts_bind.mp accepts with ⟨whenFalse, final, whenFalseRead, accepts⟩
      rcases whenFalseFollows rest after further last _ _ whenFalseRead with
        ⟨second, secondSplit, secondPhrase⟩
      rcases Reply.accepts_done.mp accepts with ⟨rfl, rfl⟩
      exact ⟨test ++ question :: (first ++ colon :: second), by grind,
        .ternary testPhrase isQuestion firstPhrase isColon secondPhrase⟩

theorem unary {operator : Token} {after : Rest 1 input}
    (found : next? Kind.isUnaryOperator input = some (operator, after))
    (operandFollows : Follows finish .unary after.tokens) : Follows finish .unary input := by
  intro tree unread accepts
  rcases next?_eq_some.mp found with ⟨isOperator, split⟩
  rw [expression, found] at accepts
  rcases Reply.accepts_bind.mp (Reply.accepts_within.mp accepts) with
    ⟨operand, rest, operandRead, accepts⟩
  rcases operandFollows _ _ operandRead with ⟨tokens, tokensSplit, phrase⟩
  rcases Reply.accepts_done.mp accepts with ⟨rfl, rfl⟩
  exact ⟨operator :: tokens, by grind, .unary (Kind.isUnaryOperator_iff.mp isOperator) phrase⟩

theorem grouping {token : Token} {after : List Token} (noLeaf : Expr.ofToken? token = none)
    (isOpening : token.kind = .mark .leftParen)
    (innerFollows : Follows finish .assignment after) :
    Follows finish .primary (token :: after) := by
  intro tree unread accepts
  rw [expression, noLeaf] at accepts
  simp only [isOpening, if_true] at accepts
  rcases Reply.accepts_bind.mp (Reply.accepts_within.mp accepts) with
    ⟨inner, rest, innerRead, accepts⟩
  rcases innerFollows _ _ innerRead with ⟨tokens, innerSplit, phrase⟩
  rcases accepts_expect_bind.mp accepts with ⟨closing, last, isClosing, split, accepts⟩
  rcases Reply.accepts_done.mp accepts with ⟨rfl, rfl⟩
  exact ⟨token :: (tokens ++ [closing]), by grind, .grouping isOpening phrase isClosing⟩

end Follows

theorem JoinedFollow.operator {chain : Chain} {left : Expr} {operator : Token}
    {after : Rest 1 input} (found : next? chain.joins input = some (operator, after))
    (operandFollows : Follows finish chain.operand after.tokens)
    (joinedFollow : ∀ (right : Expr) (rest : Rest 0 after.tokens),
      JoinedFollow finish chain (chain.join operator left right) rest.tokens) :
    JoinedFollow finish chain left input := by
  intro before tree unread phrase accepts
  rcases next?_eq_some.mp found with ⟨joins, split⟩
  rw [joined, found] at accepts
  rcases Reply.accepts_bind.mp (Reply.accepts_within.mp accepts) with
    ⟨right, rest, rightRead, accepts⟩
  rcases operandFollows _ _ rightRead with ⟨operand, operandSplit, operandPhrase⟩
  rcases joinedFollow right rest _ _ _ (phrase.join joins operandPhrase) accepts with
    ⟨others, othersSplit, whole⟩
  exact ⟨operator :: (operand ++ others), by grind, by simpa using whole⟩

/-- The tokens that an accepting rule has read are a phrase with the tree that it replies. -/
theorem follows_expression (finish : Token) (level : Level) (input : List Token) :
    Follows finish level input := by
  refine expression.induct (Follows finish) (JoinedFollow finish) ?assignment ?chain ?ternary
    ?noOperator ?operator ?nothing ?leaf ?grouping ?other ?finished ?continued level input
  case assignment =>
    intro input orFollows valueFollows
    exact orFollows.assignment valueFollows
  case chain =>
    intro input chain operandFollows joinedFollow
    exact operandFollows.chain joinedFollow
  case ternary =>
    intro input equalityFollows whenTrueFollows whenFalseFollows
    exact equalityFollows.ternary whenTrueFollows whenFalseFollows
  case noOperator =>
    intro input absent primaryFollows tree unread accepts
    rw [expression, absent] at accepts
    rcases primaryFollows _ _ accepts with ⟨tokens, split, phrase⟩
    exact ⟨tokens, split, .unaryPrimary phrase⟩
  case operator =>
    intro input operator after found operandFollows
    exact .unary found operandFollows
  case nothing =>
    intro tree unread accepts
    rw [expression] at accepts
    exact (Reply.not_accepts_fail accepts).elim
  case leaf =>
    intro token after leaf found tree unread accepts
    rw [expression, found] at accepts
    rcases Reply.accepts_done.mp (Reply.accepts_within.mp accepts) with ⟨rfl, rfl⟩
    exact ⟨[token], rfl, Phrase.ofToken found⟩
  case grouping =>
    intro token after noLeaf isOpening innerFollows
    exact .grouping noLeaf isOpening innerFollows
  case other =>
    intro token after noLeaf noParen tree unread accepts
    rw [expression, noLeaf] at accepts
    simp only [noParen, if_false] at accepts
    exact (Reply.not_accepts_fail accepts).elim
  case finished =>
    intro chain left input absent before tree unread phrase accepts
    rw [joined, absent] at accepts
    rcases Reply.accepts_done.mp accepts with ⟨rfl, rfl⟩
    exact ⟨[], rfl, by simpa using phrase⟩
  case continued =>
    intro chain left input operator after found operandFollows joinedFollow
    exact .operator found operandFollows joinedFollow

theorem phrase_of_accepts_bind {β : Type} {least : Nat} {level : Level} {result : β}
    {unread : List Token} {next : Expr → (rest : Rest 0 input) → Reply β least rest.tokens}
    (accepts : ((expression finish level input).bind next).Accepts result unread) :
    ∃ tree tokens, ∃ rest : Rest 0 input, input = tokens ++ rest.tokens ∧
      Phrase level tokens tree ∧ (next tree rest).Accepts result unread := by
  rcases Reply.accepts_bind.mp accepts with ⟨tree, rest, treeRead, continued⟩
  rcases follows_expression finish level input _ _ treeRead with ⟨tokens, split, phrase⟩
  exact ⟨tree, tokens, rest, split, phrase, continued⟩

/-! ## Parts of statements -/

variable {unread : List Token}

theorem phrase_of_accepts_terminated {semicolon : Expected} {value : Expr}
    (isSemicolon : semicolon.kind = .mark .semicolon)
    (accepts : (terminated finish semicolon input).Accepts value unread) :
    ∃ tokens token, input = tokens ++ token :: unread ∧ Phrase .assignment tokens value ∧
      token.kind = .mark .semicolon := by
  rcases phrase_of_accepts_bind accepts with ⟨read, tokens, rest, split, phrase, accepts⟩
  rcases accepts_expect_map.mp accepts with ⟨token, kind, tokenSplit, rfl⟩
  exact ⟨tokens, token, by grind, phrase, kind.trans isSemicolon⟩

theorem phrase_of_accepts_expressionStatement {tree : Stmt}
    (accepts : (expressionStatement finish input).Accepts tree unread) :
    ∃ tokens, input = tokens ++ unread ∧ ExpressionPhrase tokens tree := by
  rcases Reply.accepts_map.mp accepts with ⟨value, valueRead, rfl⟩
  rcases phrase_of_accepts_terminated rfl valueRead with ⟨tokens, semicolon, split, phrase, kind⟩
  exact ⟨tokens ++ [semicolon], by grind, .terminated phrase kind⟩

theorem phrase_of_accepts_declarationTail {keyword : Token} {tree : Stmt}
    (isVar : keyword.kind = .keyword .varWord)
    (accepts : (declarationTail finish input).Accepts tree unread) :
    ∃ tokens, input = tokens ++ unread ∧ DeclarationPhrase (keyword :: tokens) tree := by
  rcases accepts_expect_bind.mp accepts with ⟨name, rest, isName, nameSplit, accepts⟩
  split at accepts
  · next equals after found =>
      rcases next?_kind_eq_some.mp found with ⟨isEquals, equalsSplit⟩
      rcases Reply.accepts_map.mp (Reply.accepts_within.mp accepts) with ⟨initial, initialRead, rfl⟩
      rcases phrase_of_accepts_terminated rfl initialRead with
        ⟨tokens, semicolon, split, phrase, kind⟩
      exact ⟨name :: equals :: (tokens ++ [semicolon]), by grind,
        .initialized isVar isName isEquals phrase kind⟩
  · rcases accepts_expect_map.mp accepts with ⟨semicolon, isSemicolon, semicolonSplit, rfl⟩
    exact ⟨[name, semicolon], by grind, .bare isVar isName isSemicolon⟩

theorem phrase_of_accepts_condition {opening closing : Expected} {value : Expr}
    (isOpening : opening.kind = .mark .leftParen) (isClosing : closing.kind = .mark .rightParen)
    (accepts : (condition finish opening closing input).Accepts value unread) :
    ∃ tokens, input = tokens ++ unread ∧ ConditionPhrase tokens value := by
  rcases accepts_expect_bind.mp accepts with ⟨first, rest, firstKind, firstSplit, accepts⟩
  rcases phrase_of_accepts_bind accepts with ⟨read, tokens, further, split, phrase, accepts⟩
  rcases accepts_expect_map.mp accepts with ⟨last, lastKind, lastSplit, rfl⟩
  exact ⟨first :: (tokens ++ [last]), by grind,
    .parenthesized (firstKind.trans isOpening) phrase (lastKind.trans isClosing)⟩

theorem phrase_of_accepts_initialClause {initial : Option Stmt}
    (accepts : (initialClause finish input).Accepts initial unread) :
    ∃ tokens, input = tokens ++ unread ∧ InitialClause tokens initial := by
  rw [initialClause] at accepts
  split at accepts
  · next semicolon after found =>
      rcases next?_kind_eq_some.mp found with ⟨isSemicolon, split⟩
      rcases Reply.accepts_parsed.mp accepts with ⟨rfl, rfl⟩
      exact ⟨[semicolon], split, .absent isSemicolon⟩
  · split at accepts
    · next keyword after found =>
        rcases next?_kind_eq_some.mp found with ⟨isVar, split⟩
        rcases Reply.accepts_map.mp (Reply.accepts_within.mp accepts) with ⟨tree, treeRead, rfl⟩
        rcases phrase_of_accepts_declarationTail isVar treeRead with
          ⟨tokens, tokensSplit, phrase⟩
        exact ⟨keyword :: tokens, by grind, .declaration phrase⟩
    · rcases Reply.accepts_map.mp accepts with ⟨tree, treeRead, rfl⟩
      rcases phrase_of_accepts_expressionStatement treeRead with ⟨tokens, split, phrase⟩
      exact ⟨tokens, split, .expression phrase⟩

theorem phrase_of_accepts_optionalClause {closing : Expected} {value : Option Expr}
    (accepts : (optionalClause finish closing input).Accepts value unread) :
    ∃ tokens token, input = tokens ++ token :: unread ∧ OptionalPhrase tokens value ∧
      token.kind = closing.kind := by
  rw [optionalClause] at accepts
  split at accepts
  · next token after found =>
      rcases next?_kind_eq_some.mp found with ⟨isClosing, split⟩
      rcases Reply.accepts_parsed.mp accepts with ⟨rfl, rfl⟩
      exact ⟨[], token, split, .absent, isClosing⟩
  · rcases phrase_of_accepts_bind accepts with ⟨read, tokens, rest, split, phrase, accepts⟩
    rcases accepts_expect_map.mp accepts with ⟨token, kind, tokenSplit, rfl⟩
    exact ⟨tokens, token, by grind, .present phrase, kind⟩

theorem phrases_of_accepts_clauses {parts : Clauses}
    (accepts : (clauses finish input).Accepts parts unread) :
    ∃ opening start semicolon test closing step,
      input = opening :: (start ++ (test ++ semicolon :: (step ++ closing :: unread))) ∧
      opening.kind = .mark .leftParen ∧ InitialClause start parts.initial ∧
      OptionalPhrase test parts.condition ∧ semicolon.kind = .mark .semicolon ∧
      OptionalPhrase step parts.increment ∧ closing.kind = .mark .rightParen := by
  rcases accepts_expect_bind.mp accepts with ⟨opening, rest, isOpening, openingSplit, accepts⟩
  rcases Reply.accepts_bind.mp accepts with ⟨initial, further, initialRead, accepts⟩
  rcases phrase_of_accepts_initialClause initialRead with ⟨start, startSplit, initialClause⟩
  rcases Reply.accepts_bind.mp accepts with ⟨condition, last, conditionRead, accepts⟩
  rcases phrase_of_accepts_optionalClause conditionRead with
    ⟨test, semicolon, testSplit, testPhrase, isSemicolon⟩
  rcases Reply.accepts_map.mp accepts with ⟨increment, incrementRead, rfl⟩
  rcases phrase_of_accepts_optionalClause incrementRead with
    ⟨step, closing, stepSplit, stepPhrase, isClosing⟩
  exact ⟨opening, start, semicolon, test, closing, step, by grind, isOpening, initialClause,
    testPhrase, isSemicolon, stepPhrase, isClosing⟩

theorem loopTree_countingLoop (initial : Option Stmt) (condition increment : Option Expr)
    (body : Stmt) :
    LoopTree initial condition increment body
      (.countingLoop initial condition increment body) := by
  have plain : (body : Stmt) → LoopTree none condition none body
      (.whileLoop (condition.getD (.literal (.boolean true))) body) := by
    cases condition with
    | none => exact fun body => .endless
    | some condition => exact fun body => .tested
  have repeated : LoopTree none condition increment body
      (.whileLoop (condition.getD (.literal (.boolean true))) (body.withIncrement increment)) := by
    cases increment with
    | none => exact plain body
    | some increment => exact .stepped (plain _)
  cases initial with
  | none => exact repeated
  | some first => exact .started repeated

/-! ## Statements -/

/-- What it means that a statement is read from these tokens only as the grammar has it. An else
that the statement could have taken is not left over. -/
def StatementFollows (finish : Token) (inLoop : Bool) (input : List Token) : Prop :=
  ∀ {tree : Stmt} {unread : List Token}, (statement finish inLoop input).Accepts tree unread →
    ∃ dangling tokens, input = tokens ++ unread ∧ Sentence inLoop dangling tokens tree ∧
      (dangling = true → NoElse unread)

/-- What it means that declarations and statements are read from these tokens only as the grammar
has it. -/
def ItemsFollow (finish : Token) (inLoop inBlock : Bool) (input : List Token) : Prop :=
  ∀ {trees : List Stmt} {unread : List Token},
    (items finish inLoop inBlock input).Accepts trees unread →
      ∃ tokens, input = tokens ++ unread ∧ Sentences inLoop tokens trees

/-- What it means that a declaration or a statement is read from these tokens only as the grammar
has it. -/
def DeclarationFollows (finish : Token) (inLoop : Bool) (token : Token) (after : List Token) :
    Prop :=
  ∀ {value : Option Stmt} {unread : List Token},
    (declaration finish inLoop token after).Accepts value unread →
      ∃ tree tokens, value = some tree ∧ token :: after = tokens ++ unread ∧
        (DeclarationPhrase tokens tree ∨ ∃ dangling, Sentence inLoop dangling tokens tree)

namespace StatementFollows

variable {inLoop : Bool} {token : Token} {after : List Token}

/-- If the statements in it follow the grammar, then an if does. An if that is read without an else
lacks one, and one that is read with an else took it from a first branch that lacks none. -/
theorem ifWord (isIf : token.kind = .keyword .ifWord)
    (whenTrueFollows : ∀ rest : Rest 1 after, StatementFollows finish inLoop rest.tokens)
    (whenFalseFollows : ∀ (rest : Rest 1 after) (further : Rest 1 rest.tokens)
      (other : Rest 1 further.tokens), StatementFollows finish inLoop other.tokens) :
    StatementFollows finish inLoop (token :: after) := by
  intro tree unread accepts
  rw [statement, isIf] at accepts
  rcases Reply.accepts_bind.mp (Reply.accepts_past.mp accepts) with ⟨test, rest, testRead, accepts⟩
  rcases phrase_of_accepts_condition rfl rfl testRead with ⟨testTokens, testSplit, testPhrase⟩
  rcases Reply.accepts_bind.mp accepts with ⟨whenTrue, further, whenTrueRead, accepts⟩
  rcases whenTrueFollows rest whenTrueRead with
    ⟨dangling, first, firstSplit, firstSentence, noElse⟩
  split at accepts
  · next absent =>
      rcases Reply.accepts_done.mp accepts with ⟨rfl, rfl⟩
      have noElseLeft : NoElse further.tokens := by
        intro next isNext
        simpa using next?_eq_none.mp absent next isNext
      exact ⟨true, token :: (testTokens ++ first), by grind,
        .ifThen isIf testPhrase firstSentence, fun _ => noElseLeft⟩
  · next other last found =>
      rcases next?_kind_eq_some.mp found with ⟨isElse, elseSplit⟩
      rcases Reply.accepts_bind.mp (Reply.accepts_within.mp accepts) with
        ⟨whenFalse, final, whenFalseRead, accepts⟩
      rcases whenFalseFollows rest further last whenFalseRead with
        ⟨lastDangling, second, secondSplit, secondSentence, lastNoElse⟩
      rcases Reply.accepts_done.mp accepts with ⟨rfl, rfl⟩
      -- A first branch that still lacked an else would have taken the one that comes here.
      have closed : dangling = false := by
        cases dangling with
        | false => rfl
        | true => exact (noElse rfl other (by rw [elseSplit]; rfl) isElse).elim
      subst closed
      exact ⟨lastDangling, token :: (testTokens ++ (first ++ other :: second)), by grind,
        .ifElse isIf testPhrase firstSentence isElse secondSentence, lastNoElse⟩

theorem printWord (isPrint : token.kind = .keyword .printWord) :
    StatementFollows finish inLoop (token :: after) := by
  intro tree unread accepts
  rw [statement, isPrint] at accepts
  rcases Reply.accepts_map.mp (Reply.accepts_past.mp accepts) with ⟨value, valueRead, rfl⟩
  rcases phrase_of_accepts_terminated rfl valueRead with ⟨tokens, semicolon, split, phrase, kind⟩
  exact ⟨false, token :: (tokens ++ [semicolon]), by grind, .print isPrint phrase kind, by simp⟩

theorem block (isOpening : token.kind = .mark .leftBrace)
    (itemsFollow : ItemsFollow finish inLoop true after) :
    StatementFollows finish inLoop (token :: after) := by
  intro tree unread accepts
  rw [statement, isOpening] at accepts
  have accepts := Reply.accepts_within.mp (Reply.accepts_past.mp accepts)
  -- The reply to the whole block has no fault, so the items have none, nor has the closing brace.
  rcases Reply.yields_noteFirst.mp accepts with ⟨later, braceRead, noFault⟩
  rcases List.append_eq_nil_iff.mp noFault with ⟨clean, rfl⟩
  rcases accepts_expect_map.mp braceRead with ⟨closing, isClosing, closingSplit, rfl⟩
  rcases itemsFollow ⟨rfl, clean, rfl⟩ with ⟨tokens, split, sentences⟩
  exact ⟨false, token :: (tokens ++ [closing]), by grind, .block isOpening sentences isClosing,
    by simp⟩

theorem whileWord (isWhile : token.kind = .keyword .whileWord)
    (bodyFollows : ∀ rest : Rest 1 after, StatementFollows finish true rest.tokens) :
    StatementFollows finish inLoop (token :: after) := by
  intro tree unread accepts
  rw [statement, isWhile] at accepts
  rcases Reply.accepts_bind.mp (Reply.accepts_past.mp accepts) with ⟨test, rest, testRead, accepts⟩
  rcases phrase_of_accepts_condition rfl rfl testRead with ⟨testTokens, testSplit, testPhrase⟩
  rcases Reply.accepts_map.mp accepts with ⟨body, bodyRead, rfl⟩
  rcases bodyFollows rest bodyRead with ⟨dangling, tokens, split, sentence, noElse⟩
  exact ⟨dangling, token :: (testTokens ++ tokens), by grind,
    .whileLoop isWhile testPhrase sentence, noElse⟩

theorem forWord (isFor : token.kind = .keyword .forWord)
    (bodyFollows : ∀ rest : Rest 1 after, StatementFollows finish true rest.tokens) :
    StatementFollows finish inLoop (token :: after) := by
  intro tree unread accepts
  rw [statement, isFor] at accepts
  rcases Reply.accepts_bind.mp (Reply.accepts_past.mp accepts) with
    ⟨parts, rest, partsRead, accepts⟩
  rcases phrases_of_accepts_clauses partsRead with
    ⟨opening, start, semicolon, test, closing, step, split, phrases⟩
  rcases phrases with ⟨isOpening, initial, condition, isSemicolon, increment, isClosing⟩
  rcases Reply.accepts_map.mp accepts with ⟨body, bodyRead, rfl⟩
  rcases bodyFollows rest bodyRead with ⟨dangling, tokens, bodySplit, sentence, noElse⟩
  have loopTree := loopTree_countingLoop parts.initial parts.condition parts.increment body
  exact ⟨dangling,
    token :: opening :: (start ++ (test ++ semicolon :: (step ++ closing :: tokens))), by grind,
    .forLoop isFor isOpening initial condition isSemicolon increment isClosing sentence loopTree,
    noElse⟩

theorem breakWord (isBreak : token.kind = .keyword .breakWord) :
    StatementFollows finish inLoop (token :: after) := by
  intro tree unread accepts
  rw [statement, isBreak] at accepts
  cases inLoop with
  | false => exact (Reply.not_accepts_failed (Reply.accepts_past.mp accepts)).elim
  | true =>
      rcases accepts_expect_map.mp (Reply.accepts_past.mp accepts) with
        ⟨semicolon, isSemicolon, split, rfl⟩
      exact ⟨false, [token, semicolon], by grind, .breakLoop isBreak isSemicolon, by simp⟩

theorem expression (same : statement finish inLoop input = expressionStatement finish input) :
    StatementFollows finish inLoop input := by
  intro tree unread accepts
  rw [same] at accepts
  rcases phrase_of_accepts_expressionStatement accepts with ⟨tokens, split, phrase⟩
  exact ⟨false, tokens, split, .expression phrase, by simp⟩

end StatementFollows

theorem ItemsFollow.cons {inLoop inBlock : Bool} {token : Token} {after : List Token}
    (notClosing : ¬(inBlock && token.kind = .mark .rightBrace) = true)
    (itemFollows : DeclarationFollows finish inLoop token after)
    (othersFollow : ItemsFollow finish inLoop inBlock
      (declaration finish inLoop token after).rest.tokens) :
    ItemsFollow finish inLoop inBlock (token :: after) := by
  intro trees unread accepts
  rw [items, if_neg notClosing] at accepts
  rcases accepts with ⟨rfl, clean, rfl⟩
  rcases List.append_eq_nil_iff.mp clean with ⟨itemClean, othersClean⟩
  rcases itemFollows ⟨rfl, itemClean, rfl⟩ with ⟨tree, tokens, value, split, form⟩
  rcases othersFollow ⟨rfl, othersClean, rfl⟩ with ⟨others, othersSplit, sentences⟩
  have wholeSplit := split.trans (congrArg (tokens ++ ·) othersSplit)
  rw [← List.append_assoc] at wholeSplit
  simp only [value, Option.toList_some, List.singleton_append]
  rcases form with phrase | ⟨dangling, sentence⟩
  · exact ⟨tokens ++ others, wholeSplit, .declaration phrase sentences⟩
  · exact ⟨tokens ++ others, wholeSplit, .statement sentence sentences⟩

/-- Statements, sequences of items and single items are read as the grammar has it. -/
theorem follows (finish : Token) :
    (∀ inLoop input, StatementFollows finish inLoop input) ∧
    (∀ inLoop inBlock input, ItemsFollow finish inLoop inBlock input) ∧
    (∀ inLoop token after, DeclarationFollows finish inLoop token after) := by
  refine statement.mutual_induct finish (StatementFollows finish) (ItemsFollow finish)
    (DeclarationFollows finish) ?nothing ?ifWord ?printWord ?block ?whileWord ?forWord ?breakWord
    ?continueWord ?expression ?noItems ?closing ?item ?variableDeclaration ?otherDeclaration
  case nothing =>
    intro inLoop
    exact StatementFollows.expression (by rw [statement])
  case ifWord =>
    intro inLoop token after isIf whenTrueFollows whenFalseFollows
    exact StatementFollows.ifWord isIf whenTrueFollows whenFalseFollows
  case printWord =>
    intro inLoop token after isPrint
    exact StatementFollows.printWord isPrint
  case block =>
    intro inLoop token after isOpening itemsFollow
    exact StatementFollows.block isOpening itemsFollow
  case whileWord =>
    intro inLoop token after isWhile bodyFollows
    exact StatementFollows.whileWord isWhile bodyFollows
  case forWord =>
    intro inLoop token after isFor bodyFollows
    exact StatementFollows.forWord isFor bodyFollows
  case breakWord =>
    intro inLoop token after isBreak
    exact StatementFollows.breakWord isBreak
  case continueWord =>
    intro inLoop token after isContinue tree unread accepts
    rw [statement, isContinue] at accepts
    exact (Reply.not_accepts_fail accepts).elim
  case expression =>
    intro inLoop token after notIf notPrint notBrace notWhile notFor notBreak notContinue
    exact StatementFollows.expression
      (statement_of_other notIf notPrint notBrace notWhile notFor notBreak notContinue)
  case noItems =>
    intro inLoop inBlock trees unread accepts
    rw [items] at accepts
    rcases accepts with ⟨rfl, -, rfl⟩
    exact ⟨[], rfl, .nil⟩
  case closing =>
    intro inLoop inBlock token after isClosing trees unread accepts
    rw [items, if_pos isClosing] at accepts
    rcases accepts with ⟨rfl, -, rfl⟩
    exact ⟨[], rfl, .nil⟩
  case item =>
    intro inLoop inBlock token after notClosing item itemFollows othersFollow
    exact ItemsFollow.cons notClosing itemFollows othersFollow
  case variableDeclaration =>
    intro inLoop token after isVar value unread accepts
    rw [declaration, if_pos isVar] at accepts
    rcases Recovered.accepts_recover.mp accepts with ⟨tree, valueSame, accepts⟩
    rcases phrase_of_accepts_declarationTail isVar (Reply.accepts_past.mp accepts) with
      ⟨tokens, split, phrase⟩
    exact ⟨tree, token :: tokens, valueSame, by grind, .inl phrase⟩
  case otherDeclaration =>
    intro inLoop token after notVar statementFollows value unread accepts
    rw [declaration, if_neg notVar] at accepts
    rcases Recovered.accepts_recover.mp accepts with ⟨tree, valueSame, accepts⟩
    rcases statementFollows accepts with ⟨dangling, tokens, split, sentence, -⟩
    exact ⟨tree, tokens, valueSame, split, .inr ⟨dangling, sentence⟩⟩

/-- Outside blocks, reading goes on to the end of the tokens. -/
theorem tokens_rest_items (finish : Token) (inLoop : Bool) : (input : List Token) →
    (items finish inLoop false input).rest.tokens = []
  | [] => by rw [items]; rfl
  | token :: after => by
      rw [items, if_neg (by simp)]
      exact tokens_rest_items finish inLoop (declaration finish inLoop token after).rest.tokens
termination_by input => input.length
decreasing_by exact (declaration finish inLoop token after).rest.shorter

end BlockScript.Grammar
