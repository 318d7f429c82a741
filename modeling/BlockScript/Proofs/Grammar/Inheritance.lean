import BlockScript.Grammar.Program
import BlockScript.Proofs.Grammar.Reading

/-!
# What trees inherit from their parts

Whatever the reader replies with is put together from expressions and statements that it has read
before. A property of trees that each way to put them together hands on is therefore a property of
all that is read, with or without faults: `Grammar.Inherited.ofTokens` says so of programs. What is
asked of a statement may depend on whether it stands in the body of a loop, and what is asked of an
expression on the tokens from which everything is read.
-/

namespace BlockScript

variable {α β : Type} {least first : Nat} {input : List Token}

/-- Whatever value the reply has meets the condition. -/
def Reply.Ensures (condition : α → Prop) : Reply α least input → Prop
  | parsed value _ _ => condition value
  | failed _ _ _ => True

namespace Reply

variable {condition : α → Prop} {result : β → Prop}

theorem Ensures.weaken {weaker : α → Prop} {reply : Reply α least input}
    (ensures : reply.Ensures condition) (follows : ∀ value, condition value → weaker value) :
    reply.Ensures weaker := by
  cases reply with
  | parsed value noted rest => exact follows value ensures
  | failed error noted rest => exact True.intro

theorem Ensures.of_yields {reply : Reply α least input} {value : α} {noted : List SyntaxError}
    {unread : List Token} (ensures : reply.Ensures condition)
    (yields : reply.Yields value noted unread) : condition value := by
  obtain ⟨rest, rfl, _⟩ := yields
  exact ensures

theorem ensures_map {f : α → β} {reply : Reply α least input}
    (ensures : reply.Ensures fun value => result (f value)) : (reply.map f).Ensures result := by
  cases reply with
  | parsed value noted rest => exact ensures
  | failed error noted rest => exact True.intro

theorem ensures_within {rest : Rest first input} {reply : Reply α least rest.tokens}
    (ensures : reply.Ensures condition) : (within rest reply).Ensures condition := by
  cases reply with
  | parsed value noted further => exact ensures
  | failed error noted further => exact True.intro

theorem ensures_past {token : Token} {reply : Reply α least input}
    (ensures : reply.Ensures condition) : (past token reply).Ensures condition := by
  cases reply with
  | parsed value noted rest => exact ensures
  | failed error noted rest => exact True.intro

theorem ensures_noteFirst {earlier : List SyntaxError} {reply : Reply α least input}
    (ensures : reply.Ensures condition) : (reply.noteFirst earlier).Ensures condition := by
  cases reply with
  | parsed value noted rest => exact ensures
  | failed error noted rest => exact True.intro

/-- The second of two rules may rely on what the first one ensures. -/
theorem ensures_bind {reply : Reply α first input}
    {next : α → (rest : Rest first input) → Reply β least rest.tokens}
    (ensures : reply.Ensures condition)
    (continued : ∀ value rest, condition value → (next value rest).Ensures result) :
    (reply.bind next).Ensures result := by
  cases reply with
  | failed error noted rest => exact True.intro
  | parsed value noted rest =>
      have reached := continued value rest ensures
      rw [bind]
      cases reply : next value rest with
      | parsed made further last =>
          rw [reply] at reached
          exact reached
      | failed error further last => exact True.intro

/-- What holds of every value need not be known of the reply. -/
theorem ensures_of_forall {reply : Reply α least input} (always : ∀ value, condition value) :
    reply.Ensures condition := by
  cases reply with
  | parsed value noted rest => exact always value
  | failed error noted rest => exact True.intro

/-- Nothing need be known of a value that does not matter. -/
theorem ensures_trivial (reply : Reply α least input) : reply.Ensures fun _ => True :=
  ensures_of_forall fun _ => True.intro

theorem ensures_recover {token : Token} {after : List Token} {reply : Reply α 1 (token :: after)}
    (ensures : reply.Ensures condition) : ∀ value ∈ reply.recover.value, condition value := by
  cases reply with
  | parsed other noted rest =>
      intro value isValue
      cases isValue
      exact ensures
  | failed error noted rest =>
      intro value isValue
      cases isValue

end Reply

namespace Grammar

variable {finish : Token} {source : List Token} {ofExpr : Expr → Prop}
variable {ofStatement ofItem : Bool → Stmt → Prop} {inLoop : Bool}

/-- Properties of expressions, of statements and of items that the rules of the grammar hand on when
they read what is left of the source tokens. Declarations are items and no statements, so that they
need not be known to make good branches. -/
structure Inherited (finish : Token) (source : List Token) (ofExpr : Expr → Prop)
    (ofStatement ofItem : Bool → Stmt → Prop) : Prop where
  read : ∀ input, input <:+ source → (expression finish .assignment input).Ensures ofExpr
  /-- The condition of a counting loop that is given none. -/
  endless : ofExpr (.literal (.boolean true))
  print : ∀ {inLoop value}, ofExpr value → ofStatement inLoop (.print value)
  expression : ∀ {inLoop value}, ofExpr value → ofStatement inLoop (.expression value)
  declare : ∀ {inLoop name initial}, (∀ value ∈ initial, ofExpr value) →
    ofItem inLoop (.declare name initial)
  block : ∀ {inLoop body}, (∀ tree ∈ body, ofItem inLoop tree) → ofStatement inLoop (.block body)
  ifThen : ∀ {inLoop condition whenTrue}, ofExpr condition → ofStatement inLoop whenTrue →
    ofStatement inLoop (.ifThen condition whenTrue)
  ifElse : ∀ {inLoop condition whenTrue whenFalse}, ofExpr condition →
    ofStatement inLoop whenTrue → ofStatement inLoop whenFalse →
    ofStatement inLoop (.ifElse condition whenTrue whenFalse)
  whileLoop : ∀ {inLoop condition body}, ofExpr condition → ofStatement true body →
    ofStatement inLoop (.whileLoop condition body)
  breakLoop : ∀ keyword, ofStatement true (.breakLoop keyword)
  item : ∀ {inLoop tree}, ofStatement inLoop tree → ofItem inLoop tree

namespace Inherited

variable (inherited : Inherited finish source ofExpr ofStatement ofItem) {input : List Token}

include inherited

theorem terminated (semicolon : Expected) (left : input <:+ source) :
    (terminated finish semicolon input).Ensures ofExpr := by
  apply Reply.ensures_bind (inherited.read input left)
  intro value rest held
  exact Reply.ensures_map (Reply.ensures_of_forall fun _ => held)

theorem expressionStatement (left : input <:+ source) :
    (expressionStatement finish input).Ensures (ofStatement inLoop) := by
  apply Reply.ensures_map
  exact (inherited.terminated _ left).weaken fun _ held => inherited.expression held

theorem declarationTail (left : input <:+ source) :
    (declarationTail finish input).Ensures (ofItem inLoop) := by
  apply Reply.ensures_bind (Reply.ensures_trivial _)
  intro name rest _
  split
  · next equals after _ =>
      apply Reply.ensures_within
      apply Reply.ensures_map
      apply (inherited.terminated _ (after.isSuffix.trans (rest.isSuffix.trans left))).weaken
      intro initial held
      exact inherited.declare (by simpa using held)
  · apply Reply.ensures_map
    exact Reply.ensures_of_forall fun _ => inherited.declare (by simp)

theorem condition (opening closing : Expected) (left : input <:+ source) :
    (condition finish opening closing input).Ensures ofExpr := by
  apply Reply.ensures_bind (Reply.ensures_trivial _)
  intro _ rest _
  apply Reply.ensures_bind (inherited.read rest.tokens (rest.isSuffix.trans left))
  intro value _ held
  exact Reply.ensures_map (Reply.ensures_of_forall fun _ => held)

theorem initialClause (left : input <:+ source) :
    (initialClause finish input).Ensures fun initial => ∀ tree ∈ initial, ofItem inLoop tree := by
  rw [Grammar.initialClause]
  split
  · simp [Reply.Ensures]
  · split
    · next keyword after _ =>
        apply Reply.ensures_within
        apply Reply.ensures_map
        apply (inherited.declarationTail (after.isSuffix.trans left)).weaken
        intro tree held
        simpa using held
    · apply Reply.ensures_map
      apply (inherited.expressionStatement left).weaken
      intro tree held
      simpa using inherited.item held

theorem optionalClause (closing : Expected) (left : input <:+ source) :
    (optionalClause finish closing input).Ensures fun clause => ∀ value ∈ clause, ofExpr value := by
  rw [Grammar.optionalClause]
  split
  · simp [Reply.Ensures]
  · apply Reply.ensures_bind (inherited.read input left)
    intro value rest held
    exact Reply.ensures_map (Reply.ensures_of_forall fun _ => by simpa using held)

theorem clauses (left : input <:+ source) :
    (clauses finish input).Ensures fun parts => (∀ tree ∈ parts.initial, ofItem inLoop tree) ∧
      (∀ value ∈ parts.condition, ofExpr value) ∧ ∀ value ∈ parts.increment, ofExpr value := by
  apply Reply.ensures_bind (Reply.ensures_trivial _)
  intro _ first _
  have leftFirst := first.isSuffix.trans left
  apply Reply.ensures_bind (inherited.initialClause leftFirst)
  intro initial second ofInitial
  have leftSecond := second.isSuffix.trans leftFirst
  apply Reply.ensures_bind (inherited.optionalClause _ leftSecond)
  intro condition third ofCondition
  apply Reply.ensures_map
  apply (inherited.optionalClause _ (third.isSuffix.trans leftSecond)).weaken
  intro increment ofIncrement
  exact ⟨ofInitial, ofCondition, ofIncrement⟩

theorem withIncrement {body : Stmt} {increment : Option Expr} (ofBody : ofStatement true body)
    (ofIncrement : ∀ value ∈ increment, ofExpr value) :
    ofStatement true (body.withIncrement increment) := by
  cases increment with
  | none => exact ofBody
  | some increment =>
      have advances : ofStatement true (.expression increment) :=
        inherited.expression (ofIncrement increment rfl)
      apply inherited.block
      simpa using ⟨inherited.item ofBody, inherited.item advances⟩

theorem countingLoop {initial : Option Stmt} {condition increment : Option Expr} {body : Stmt}
    (ofInitial : ∀ tree ∈ initial, ofItem inLoop tree)
    (ofCondition : ∀ value ∈ condition, ofExpr value)
    (ofIncrement : ∀ value ∈ increment, ofExpr value) (ofBody : ofStatement true body) :
    ofStatement inLoop (.countingLoop initial condition increment body) := by
  have ofTest : ofExpr (condition.getD (.literal (.boolean true))) := by
    cases condition with
    | none => exact inherited.endless
    | some condition => exact ofCondition condition rfl
  have loops : ofStatement inLoop _ :=
    inherited.whileLoop ofTest (inherited.withIncrement ofBody ofIncrement)
  cases initial with
  | none => exact loops
  | some first =>
      apply inherited.block
      simpa using ⟨ofInitial first rfl, inherited.item loops⟩

/-- Whatever is read has the properties, whether or not there are faults in what it is read from. -/
theorem ensures :
    (∀ inLoop input, input <:+ source →
      (statement finish inLoop input).Ensures (ofStatement inLoop)) ∧
    (∀ inLoop inBlock input, input <:+ source →
      ∀ tree ∈ (items finish inLoop inBlock input).value, ofItem inLoop tree) ∧
    (∀ inLoop token after, token :: after <:+ source →
      ∀ tree ∈ (declaration finish inLoop token after).value, ofItem inLoop tree) := by
  refine statement.mutual_induct finish
    (fun inLoop input => input <:+ source →
      (statement finish inLoop input).Ensures (ofStatement inLoop))
    (fun inLoop inBlock input => input <:+ source →
      ∀ tree ∈ (items finish inLoop inBlock input).value, ofItem inLoop tree)
    (fun inLoop token after => token :: after <:+ source →
      ∀ tree ∈ (declaration finish inLoop token after).value, ofItem inLoop tree)
    ?nothing ?ifWord ?printWord ?block ?whileWord ?forWord ?breakWord ?continueWord ?expression
    ?noItems ?closing ?item ?variableDeclaration ?otherDeclaration
  case nothing =>
    intro inLoop left
    rw [statement]
    exact inherited.expressionStatement left
  case ifWord =>
    intro inLoop token after isIf whenTrueIH whenFalseIH left
    have leftAfter := (List.suffix_cons token after).trans left
    rw [statement, isIf]
    apply Reply.ensures_past
    apply Reply.ensures_bind (inherited.condition _ _ leftAfter)
    intro test rest ofTest
    have leftRest := rest.isSuffix.trans leftAfter
    apply Reply.ensures_bind (whenTrueIH rest leftRest)
    intro whenTrue further ofTrue
    split
    · exact inherited.ifThen ofTest ofTrue
    · next other last _ =>
        apply Reply.ensures_within
        have leftLast := last.isSuffix.trans (further.isSuffix.trans leftRest)
        apply Reply.ensures_bind (whenFalseIH rest further last leftLast)
        intro whenFalse final ofFalse
        exact inherited.ifElse ofTest ofTrue ofFalse
  case printWord =>
    intro inLoop token after isPrint left
    have leftAfter := (List.suffix_cons token after).trans left
    rw [statement, isPrint]
    apply Reply.ensures_past
    apply Reply.ensures_map
    exact (inherited.terminated _ leftAfter).weaken fun _ held => inherited.print held
  case block =>
    intro inLoop token after isOpening itemsIH left
    have leftAfter := (List.suffix_cons token after).trans left
    rw [statement, isOpening]
    apply Reply.ensures_past
    apply Reply.ensures_within
    apply Reply.ensures_noteFirst
    apply Reply.ensures_map
    exact Reply.ensures_of_forall fun _ => inherited.block (itemsIH leftAfter)
  case whileWord =>
    intro inLoop token after isWhile bodyIH left
    have leftAfter := (List.suffix_cons token after).trans left
    rw [statement, isWhile]
    apply Reply.ensures_past
    apply Reply.ensures_bind (inherited.condition _ _ leftAfter)
    intro test rest ofTest
    apply Reply.ensures_map
    exact (bodyIH rest (rest.isSuffix.trans leftAfter)).weaken fun _ ofBody =>
      inherited.whileLoop ofTest ofBody
  case forWord =>
    intro inLoop token after isFor bodyIH left
    have leftAfter := (List.suffix_cons token after).trans left
    rw [statement, isFor]
    apply Reply.ensures_past
    apply Reply.ensures_bind (inherited.clauses leftAfter)
    intro parts rest ofParts
    apply Reply.ensures_map
    exact (bodyIH rest (rest.isSuffix.trans leftAfter)).weaken fun _ ofBody =>
      inherited.countingLoop ofParts.1 ofParts.2.1 ofParts.2.2 ofBody
  case breakWord =>
    intro inLoop token after isBreak _
    rw [statement, isBreak]
    apply Reply.ensures_past
    cases inLoop with
    | false => exact True.intro
    | true =>
        apply Reply.ensures_map
        exact Reply.ensures_of_forall fun _ => inherited.breakLoop token
  case continueWord =>
    intro inLoop token after isContinue _
    rw [statement, isContinue]
    exact True.intro
  case expression =>
    intro inLoop token after notIf notPrint notBrace notWhile notFor notBreak notContinue left
    rw [statement_of_other notIf notPrint notBrace notWhile notFor notBreak notContinue]
    exact inherited.expressionStatement left
  case noItems =>
    intro inLoop inBlock _
    simp [items]
  case closing =>
    intro inLoop inBlock token after isClosing _
    rw [items, if_pos isClosing]
    simp
  case item =>
    intro inLoop inBlock token after notClosing item itemIH othersIH left tree member
    rw [items, if_neg notClosing] at member
    cases List.mem_append.mp member with
    | inl isFirst => exact itemIH left tree (Option.mem_toList.mp isFirst)
    | inr isOther => exact othersIH (item.rest.isSuffix.trans left) tree isOther
  case variableDeclaration =>
    intro inLoop token after isVar left
    have leftAfter := (List.suffix_cons token after).trans left
    rw [declaration, if_pos isVar]
    exact Reply.ensures_recover (Reply.ensures_past (inherited.declarationTail leftAfter))
  case otherDeclaration =>
    intro inLoop token after notVar statementIH left
    rw [declaration, if_neg notVar]
    exact Reply.ensures_recover ((statementIH left).weaken fun _ held => inherited.item held)

end Inherited

theorem Inherited.ofTokens {tokens : List Token}
    (inherited : Inherited (Program.ending tokens) (Program.ahead tokens) ofExpr ofStatement ofItem) :
    ∀ tree ∈ (Program.ofTokens tokens).statements, ofItem false tree :=
  inherited.ensures.2.1 false false (Program.ahead tokens) (List.suffix_refl _)

end Grammar

end BlockScript
