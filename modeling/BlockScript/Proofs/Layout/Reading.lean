import BlockScript.Proofs.Grammar.Reading
import BlockScript.Proofs.Layout.Relocation

/-!
# Lines do not matter to the reader

The reader looks at the kinds of tokens and never at their lines. From relocated tokens it reads the
same program, relocated, and finds the same faults, relocated. There is one lemma for each way to
build a reply, and so one for each rule of the grammar.
-/

namespace BlockScript

variable {α β γ δ : Type} {least first : Nat} {input other : List Token}
variable {lines : Nat → Nat}

/-! ## Replies -/

namespace Reply

/-- The second reply is the first one, relocated. What becomes of its value depends on what the
value is. -/
inductive Relocates (lines : Nat → Nat) (change : α → β) :
    Reply α least input → Reply β least other → Prop where
  | parsed (value : α) (noted : List SyntaxError) {rest : Rest least input}
      {otherRest : Rest least other}
      (unread : otherRest.tokens = rest.tokens.map (·.relocate lines)) :
      Relocates lines change (.parsed value noted rest)
        (.parsed (change value) (noted.map (·.relocate lines)) otherRest)
  | failed (error : SyntaxError) (noted : List SyntaxError) {rest : Rest 0 input}
      {otherRest : Rest 0 other} (unread : otherRest.tokens = rest.tokens.map (·.relocate lines)) :
      Relocates lines change (.failed error noted rest)
        (.failed (error.relocate lines) (noted.map (·.relocate lines)) otherRest)

variable {change : α → β} {reply : Reply α least input} {otherReply : Reply β least other}

theorem relocates_done (value : α) (relocated : other = input.map (·.relocate lines)) :
    Relocates lines change (done value : Reply α 0 input) (done (change value) : Reply β 0 other) :=
  .parsed value [] relocated

theorem relocates_fail (finish : Token) (fault : SyntaxFault)
    (relocated : other = input.map (·.relocate lines)) :
    Relocates lines change (fail finish input fault : Reply α least input)
      (fail (finish.relocate lines) other fault : Reply β least other) := by
  subst relocated
  cases input with
  | nil => exact .failed _ [] rfl
  | cons token after => exact .failed _ [] rfl

theorem Relocates.note (error : SyntaxError) (relocates : Relocates lines change reply otherReply) :
    Relocates lines change (reply.note error) (otherReply.note (error.relocate lines)) := by
  cases relocates with
  | parsed value noted unread =>
      simpa [Reply.note] using Relocates.parsed value (noted ++ [error]) unread
  | failed stopping noted unread =>
      simpa [Reply.note] using Relocates.failed stopping (noted ++ [error]) unread

theorem Relocates.noteFirst (earlier : List SyntaxError)
    (relocates : Relocates lines change reply otherReply) :
    Relocates lines change (reply.noteFirst earlier)
      (otherReply.noteFirst (earlier.map (·.relocate lines))) := by
  cases relocates with
  | parsed value noted unread =>
      simpa [Reply.noteFirst] using Relocates.parsed value (earlier ++ noted) unread
  | failed stopping noted unread =>
      simpa [Reply.noteFirst] using Relocates.failed stopping (earlier ++ noted) unread

/-- What is made of the value is relocated if it is made alike. -/
theorem Relocates.map {changeResult : γ → δ} {f : α → γ} {g : β → δ}
    (relocates : Relocates lines change reply otherReply)
    (alike : ∀ value, g (change value) = changeResult (f value)) :
    Relocates lines changeResult (reply.map f) (otherReply.map g) := by
  cases relocates with
  | parsed value noted unread =>
      simp only [Reply.map, alike]
      exact .parsed (f value) noted unread
  | failed error noted unread => exact .failed error noted unread

theorem Relocates.within {rest : Rest first input} {otherRest : Rest first other}
    {reply : Reply α least rest.tokens} {otherReply : Reply β least otherRest.tokens}
    (relocates : Relocates lines change reply otherReply) :
    Relocates lines change (.within rest reply) (.within otherRest otherReply) := by
  cases relocates with
  | parsed value noted unread => exact .parsed value noted unread
  | failed error noted unread => exact .failed error noted unread

theorem Relocates.past {token otherToken : Token}
    (relocates : Relocates lines change reply otherReply) :
    Relocates lines change (.past token reply) (.past otherToken otherReply) := by
  cases relocates with
  | parsed value noted unread => exact .parsed value noted unread
  | failed error noted unread => exact .failed error noted unread

/-- Two rules in a row relocate if the second one does on whatever the first one leaves. -/
theorem Relocates.bind {change : α → γ} {changeResult : β → δ} {reply : Reply α first input}
    {otherReply : Reply γ first other}
    {next : α → (rest : Rest first input) → Reply β least rest.tokens}
    {otherNext : γ → (rest : Rest first other) → Reply δ least rest.tokens}
    (relocates : Relocates lines change reply otherReply)
    (continued : ∀ value (rest : Rest first input) (otherRest : Rest first other),
      otherRest.tokens = rest.tokens.map (·.relocate lines) →
        Relocates lines changeResult (next value rest) (otherNext (change value) otherRest)) :
    Relocates lines changeResult (reply.bind next) (otherReply.bind otherNext) := by
  cases relocates with
  | failed error noted unread => exact .failed error noted unread
  | @parsed value noted rest otherRest unread =>
      have further := continued value rest otherRest unread
      simp only [Reply.bind]
      generalize next value rest = reached, otherNext (change value) otherRest = otherReached
        at further ⊢
      cases further with
      | parsed result laterNoted last =>
          simp only [← List.map_append]
          exact .parsed result (noted ++ laterNoted) last
      | failed error laterNoted last =>
          simp only [← List.map_append]
          exact .failed error (noted ++ laterNoted) last

end Reply

/-- Whether a token is taken does not depend on lines. -/
theorem next?_relocates (wanted : Kind → Bool) (relocated : other = input.map (·.relocate lines)) :
    (next? wanted input = none ∧ next? wanted other = none) ∨
      ∃ token after otherAfter, next? wanted input = some (token, after) ∧
        next? wanted other = some (token.relocate lines, otherAfter) ∧
        otherAfter.tokens = after.tokens.map (·.relocate lines) := by
  subst relocated
  cases input with
  | nil => exact .inl ⟨rfl, rfl⟩
  | cons token after =>
      cases taken : wanted token.kind with
      | true => exact .inr ⟨token, .tail _ _, .tail _ _, by simp [next?, taken], if_pos taken, rfl⟩
      | false =>
          have notTaken : ¬ wanted token.kind = true := by simp [taken]
          exact .inl ⟨if_neg notTaken, if_neg notTaken⟩

theorem expect_relocates (finish : Token) (expected : Expected)
    (relocated : other = input.map (·.relocate lines)) :
    Reply.Relocates lines (·.relocate lines) (expect finish expected input)
      (expect (finish.relocate lines) expected other) := by
  rw [expect, expect]
  obtain ⟨absent, otherAbsent⟩ | ⟨token, after, otherAfter, found, otherFound, unread⟩ :=
    next?_relocates (· == expected.kind) relocated
  · rw [absent, otherAbsent]
    exact Reply.relocates_fail finish _ relocated
  · rw [found, otherFound]
    exact .parsed token [] unread

/-! ## Expressions -/

namespace Grammar

theorem ofToken?_relocate (lines : Nat → Nat) (token : Token) :
    Expr.ofToken? (token.relocate lines) = (Expr.ofToken? token).map (·.relocate lines) := by
  simp only [Expr.ofToken?, Token.kind_relocate]
  split <;> rfl

theorem join_relocate (chain : Chain) (operator : Token) (left right : Expr) :
    chain.join (operator.relocate lines) (left.relocate lines) (right.relocate lines) =
      (chain.join operator left right).relocate lines := by
  cases chain <;> rfl

/-- Expressions are read from relocated tokens as they are read from the tokens. -/
theorem expression_relocates (finish : Token) (level : Level) (input : List Token)
    {other : List Token} (relocated : other = input.map (·.relocate lines)) :
    Reply.Relocates lines (·.relocate lines) (expression finish level input)
      (expression (finish.relocate lines) level other) := by
  refine expression.induct
    (fun level input => ∀ other, other = input.map (·.relocate lines) →
      Reply.Relocates lines (·.relocate lines) (expression finish level input)
        (expression (finish.relocate lines) level other))
    (fun chain left input => ∀ other, other = input.map (·.relocate lines) →
      Reply.Relocates lines (·.relocate lines) (joined finish chain left input)
        (joined (finish.relocate lines) chain (left.relocate lines) other))
    ?assignment ?chain ?ternary ?noOperator ?operator ?nothing ?leaf ?grouping ?other ?finished
    ?continued level input other relocated
  case assignment =>
    intro input orIH valueIH other relocated
    rw [expression, expression]
    apply (orIH other relocated).bind
    intro target rest otherRest unread
    obtain ⟨absent, otherAbsent⟩ | ⟨equals, after, otherAfter, found, otherFound, further⟩ :=
      next?_relocates (· == .mark .equal) unread
    · rw [absent, otherAbsent]
      exact Reply.relocates_done target unread
    · rw [found, otherFound]
      apply Reply.Relocates.within
      apply (valueIH rest after _ further).bind
      intro value last otherLast finalUnread
      cases target with
      | «variable» name => exact Reply.relocates_done _ finalUnread
      | _ => exact (Reply.relocates_done _ finalUnread).note _
  case chain =>
    intro input chain operandIH joinedIH other relocated
    conv => lhs; rw [expression]
    conv => rhs; rw [expression]
    apply (operandIH other relocated).bind
    intro left rest otherRest unread
    exact joinedIH left rest _ unread
  case ternary =>
    intro input equalityIH trueIH falseIH other relocated
    conv => lhs; rw [expression]
    conv => rhs; rw [expression]
    apply (equalityIH other relocated).bind
    intro condition rest otherRest unread
    obtain ⟨absent, otherAbsent⟩ | ⟨question, after, otherAfter, found, otherFound, further⟩ :=
      next?_relocates (· == .mark .question) unread
    · rw [absent, otherAbsent]
      exact Reply.relocates_done condition unread
    · rw [found, otherFound]
      apply Reply.Relocates.within
      apply (trueIH rest after _ further).bind
      intro whenTrue branchRest otherBranchRest branchUnread
      apply (expect_relocates finish _ branchUnread).bind
      intro colon colonRest otherColonRest colonUnread
      apply (falseIH rest after branchRest colonRest _ colonUnread).bind
      intro whenFalse last otherLast finalUnread
      exact Reply.relocates_done _ finalUnread
  case noOperator =>
    intro input absent primaryIH other relocated
    obtain ⟨_, otherAbsent⟩ | ⟨_, _, _, found, _, _⟩ :=
      next?_relocates Kind.isUnaryOperator relocated
    · rw [expression, absent, expression, otherAbsent]
      exact primaryIH other relocated
    · cases absent.symm.trans found
  case operator =>
    intro input operator after found operandIH other relocated
    obtain ⟨absent, _⟩ | ⟨_, _, otherAfter, alsoFound, otherFound, unread⟩ :=
      next?_relocates Kind.isUnaryOperator relocated
    · cases absent.symm.trans found
    · cases found.symm.trans alsoFound
      rw [expression, found, expression, otherFound]
      apply Reply.Relocates.within
      apply (operandIH _ unread).bind
      intro operand rest otherRest unread
      exact Reply.relocates_done _ unread
  case nothing =>
    intro other relocated
    subst relocated
    rw [List.map_nil, expression, expression]
    exact Reply.relocates_fail finish _ rfl
  case leaf =>
    intro token after leaf found other relocated
    have otherFound := ofToken?_relocate lines token
    rw [found, Option.map_some] at otherFound
    rw [List.map_cons] at relocated
    subst relocated
    conv => lhs; rw [expression, found]
    conv => rhs; rw [expression, otherFound]
    exact (Reply.relocates_done leaf rfl).within
  case grouping =>
    intro token after noLeaf isOpening innerIH other relocated
    have otherNoLeaf := ofToken?_relocate lines token
    rw [noLeaf, Option.map_none] at otherNoLeaf
    rw [List.map_cons] at relocated
    subst relocated
    conv => lhs; rw [expression, noLeaf]
    conv => rhs; rw [expression, otherNoLeaf]
    simp only [Token.kind_relocate, isOpening, if_true]
    apply Reply.Relocates.within
    apply (innerIH _ rfl).bind
    intro inner rest otherRest unread
    apply (expect_relocates finish _ unread).bind
    intro closing last otherLast finalUnread
    exact Reply.relocates_done _ finalUnread
  case other =>
    intro token after noLeaf noParen other relocated
    have otherNoLeaf := ofToken?_relocate lines token
    rw [noLeaf, Option.map_none] at otherNoLeaf
    rw [List.map_cons] at relocated
    subst relocated
    conv => lhs; rw [expression, noLeaf]
    conv => rhs; rw [expression, otherNoLeaf]
    simp only [Token.kind_relocate, noParen, if_false]
    exact Reply.relocates_fail finish _ rfl
  case finished =>
    intro chain left input absent other relocated
    obtain ⟨_, otherAbsent⟩ | ⟨_, _, _, found, _, _⟩ := next?_relocates chain.joins relocated
    · rw [joined, absent, joined, otherAbsent]
      exact Reply.relocates_done left relocated
    · cases absent.symm.trans found
  case continued =>
    intro chain left input operator after found operandIH joinedIH other relocated
    obtain ⟨absent, _⟩ | ⟨_, _, otherAfter, alsoFound, otherFound, unread⟩ :=
      next?_relocates chain.joins relocated
    · cases absent.symm.trans found
    · cases found.symm.trans alsoFound
      rw [joined, found, joined, otherFound]
      apply Reply.Relocates.within
      apply (operandIH _ unread).bind
      intro right rest otherRest further
      rw [join_relocate]
      exact joinedIH right rest _ further

/-! ## Parts of statements -/

theorem terminated_relocates (finish : Token) (semicolon : Expected)
    (relocated : other = input.map (·.relocate lines)) :
    Reply.Relocates lines (·.relocate lines) (terminated finish semicolon input)
      (terminated (finish.relocate lines) semicolon other) := by
  apply (expression_relocates finish _ input relocated).bind
  intro value rest otherRest unread
  exact (expect_relocates finish _ unread).map fun _ => rfl

theorem expressionStatement_relocates (finish : Token)
    (relocated : other = input.map (·.relocate lines)) :
    Reply.Relocates lines (·.relocate lines) (expressionStatement finish input)
      (expressionStatement (finish.relocate lines) other) :=
  (terminated_relocates finish _ relocated).map fun _ => by rw [Stmt.relocate]

theorem declarationTail_relocates (finish : Token)
    (relocated : other = input.map (·.relocate lines)) :
    Reply.Relocates lines (·.relocate lines) (declarationTail finish input)
      (declarationTail (finish.relocate lines) other) := by
  apply (expect_relocates finish _ relocated).bind
  intro name rest otherRest unread
  obtain ⟨absent, otherAbsent⟩ | ⟨equals, after, otherAfter, found, otherFound, further⟩ :=
    next?_relocates (· == .mark .equal) unread
  · rw [absent, otherAbsent]
    exact (expect_relocates finish _ unread).map fun _ => by rw [Stmt.relocate, Option.map_none]
  · rw [found, otherFound]
    apply Reply.Relocates.within
    exact (terminated_relocates finish _ further).map fun _ => by
      rw [Stmt.relocate, Option.map_some]

theorem condition_relocates (finish : Token) (opening closing : Expected)
    (relocated : other = input.map (·.relocate lines)) :
    Reply.Relocates lines (·.relocate lines) (condition finish opening closing input)
      (condition (finish.relocate lines) opening closing other) := by
  apply (expect_relocates finish _ relocated).bind
  intro token rest otherRest unread
  apply (expression_relocates finish _ rest.tokens unread).bind
  intro value last otherLast further
  exact (expect_relocates finish _ further).map fun _ => rfl

theorem initialClause_relocates (finish : Token)
    (relocated : other = input.map (·.relocate lines)) :
    Reply.Relocates lines (Option.map (·.relocate lines)) (initialClause finish input)
      (initialClause (finish.relocate lines) other) := by
  rw [initialClause, initialClause]
  obtain ⟨absent, otherAbsent⟩ | ⟨semicolon, after, otherAfter, found, otherFound, unread⟩ :=
    next?_relocates (· == .mark .semicolon) relocated
  · rw [absent, otherAbsent]
    obtain ⟨noVar, otherNoVar⟩ | ⟨keyword, after, otherAfter, found, otherFound, unread⟩ :=
      next?_relocates (· == .keyword .varWord) relocated
    · rw [noVar, otherNoVar]
      exact (expressionStatement_relocates finish relocated).map fun _ => rfl
    · rw [found, otherFound]
      apply Reply.Relocates.within
      exact (declarationTail_relocates finish unread).map fun _ => rfl
  · rw [found, otherFound]
    exact .parsed none [] unread

theorem optionalClause_relocates (finish : Token) (closing : Expected)
    (relocated : other = input.map (·.relocate lines)) :
    Reply.Relocates lines (Option.map (·.relocate lines)) (optionalClause finish closing input)
      (optionalClause (finish.relocate lines) closing other) := by
  rw [optionalClause, optionalClause]
  obtain ⟨absent, otherAbsent⟩ | ⟨token, after, otherAfter, found, otherFound, unread⟩ :=
    next?_relocates (· == closing.kind) relocated
  · rw [absent, otherAbsent]
    apply (expression_relocates finish _ input relocated).bind
    intro value rest otherRest unread
    exact (expect_relocates finish _ unread).map fun _ => rfl
  · rw [found, otherFound]
    exact .parsed none [] unread

def Clauses.relocate (lines : Nat → Nat) (clauses : Clauses) : Clauses :=
  ⟨clauses.initial.map (·.relocate lines), clauses.condition.map (·.relocate lines),
    clauses.increment.map (·.relocate lines)⟩

theorem clauses_relocates (finish : Token) (relocated : other = input.map (·.relocate lines)) :
    Reply.Relocates lines (·.relocate lines) (clauses finish input)
      (clauses (finish.relocate lines) other) := by
  apply (expect_relocates finish _ relocated).bind
  intro opening rest otherRest unread
  apply (initialClause_relocates finish unread).bind
  intro initial rest otherRest unread
  apply (optionalClause_relocates finish _ unread).bind
  intro condition rest otherRest unread
  exact (optionalClause_relocates finish _ unread).map fun _ => rfl

/-! ## Recovery -/

theorem skip_relocate (last : Kind) (input : List Token) :
    skip last (input.map (·.relocate lines)) = (skip last input).map (·.relocate lines) := by
  induction input generalizing last with
  | nil => rfl
  | cons token after inductionHypothesis =>
      simp only [List.map_cons, skip, Token.kind_relocate, inductionHypothesis]
      split <;> rfl

theorem resume_relocate (input : List Token) :
    resume (input.map (·.relocate lines)) = (resume input).map (·.relocate lines) := by
  cases input with
  | nil => rfl
  | cons token after => exact skip_relocate token.kind after

end Grammar

structure Recovered.Relocates (lines : Nat → Nat) (change : α → β)
    (recovered : Recovered α least input) (other : Recovered β least other) : Prop where
  value : other.value = change recovered.value
  noted : other.noted = recovered.noted.map (·.relocate lines)
  unread : other.rest.tokens = recovered.rest.tokens.map (·.relocate lines)

theorem Reply.Relocates.recover {change : α → β} {token otherToken : Token}
    {after otherAfter : List Token} {reply : Reply α 1 (token :: after)}
    {otherReply : Reply β 1 (otherToken :: otherAfter)}
    (relocates : reply.Relocates lines change otherReply) :
    reply.recover.Relocates lines (Option.map change) otherReply.recover := by
  cases relocates with
  | parsed value noted unread => exact ⟨rfl, rfl, unread⟩
  | failed error noted unread =>
      refine ⟨rfl, ?_, ?_⟩
      · simp [Reply.recover]
      · simp only [Reply.recover, unread, Grammar.resume_relocate]

namespace Grammar

/-! ## Statements -/

theorem relocate_countingLoop (initial : Option Stmt) (condition increment : Option Expr)
    (body : Stmt) :
    (Stmt.countingLoop initial condition increment body).relocate lines =
      .countingLoop (initial.map (·.relocate lines)) (condition.map (·.relocate lines))
        (increment.map (·.relocate lines)) (body.relocate lines) := by
  cases initial <;> cases condition <;> cases increment <;> rfl

/-- Statements are read from relocated tokens as they are read from the tokens. -/
theorem statements_relocate (lines : Nat → Nat) (finish : Token) :
    (∀ inLoop input other, other = input.map (·.relocate lines) →
      Reply.Relocates lines (·.relocate lines) (statement finish inLoop input)
        (statement (finish.relocate lines) inLoop other)) ∧
    (∀ inLoop inBlock input other, other = input.map (·.relocate lines) →
      Recovered.Relocates lines (List.map (·.relocate lines)) (items finish inLoop inBlock input)
        (items (finish.relocate lines) inLoop inBlock other)) ∧
    (∀ inLoop token after otherAfter, otherAfter = after.map (·.relocate lines) →
      Recovered.Relocates lines (Option.map (·.relocate lines))
        (declaration finish inLoop token after)
        (declaration (finish.relocate lines) inLoop (token.relocate lines) otherAfter)) := by
  refine statement.mutual_induct finish
    (fun inLoop input => ∀ other, other = input.map (·.relocate lines) →
      Reply.Relocates lines (·.relocate lines) (statement finish inLoop input)
        (statement (finish.relocate lines) inLoop other))
    (fun inLoop inBlock input => ∀ other, other = input.map (·.relocate lines) →
      Recovered.Relocates lines (List.map (·.relocate lines)) (items finish inLoop inBlock input)
        (items (finish.relocate lines) inLoop inBlock other))
    (fun inLoop token after => ∀ otherAfter, otherAfter = after.map (·.relocate lines) →
      Recovered.Relocates lines (Option.map (·.relocate lines))
        (declaration finish inLoop token after)
        (declaration (finish.relocate lines) inLoop (token.relocate lines) otherAfter))
    ?nothing ?ifWord ?printWord ?block ?whileWord ?forWord ?breakWord ?continueWord ?expression
    ?noItems ?closing ?item ?variableDeclaration ?otherDeclaration
  case nothing =>
    intro inLoop other relocated
    subst relocated
    rw [List.map_nil, statement, statement]
    exact expressionStatement_relocates finish rfl
  case ifWord =>
    intro inLoop token after isIf trueIH falseIH other relocated
    have otherIsIf : (token.relocate lines).kind = .keyword .ifWord := isIf
    rw [List.map_cons] at relocated
    subst relocated
    conv => lhs; rw [statement, isIf]
    conv => rhs; rw [statement, otherIsIf]
    apply Reply.Relocates.past
    apply (condition_relocates finish _ _ rfl).bind
    intro test rest otherRest unread
    apply (trueIH rest _ unread).bind
    intro whenTrue further otherFurther unread
    obtain ⟨absent, otherAbsent⟩ | ⟨elseWord, last, otherLast, found, otherFound, unreadElse⟩ :=
      next?_relocates (· == .keyword .elseWord) unread
    · rw [absent, otherAbsent]
      exact Reply.relocates_done (Stmt.ifThen test whenTrue) unread
    · rw [found, otherFound]
      apply Reply.Relocates.within
      apply (falseIH rest further last _ unreadElse).bind
      intro whenFalse final otherFinal unread
      exact Reply.relocates_done (Stmt.ifElse test whenTrue whenFalse) unread
  case printWord =>
    intro inLoop token after isPrint other relocated
    have otherIsPrint : (token.relocate lines).kind = .keyword .printWord := isPrint
    rw [List.map_cons] at relocated
    subst relocated
    rw [statement, isPrint, statement, otherIsPrint]
    apply Reply.Relocates.past
    exact (terminated_relocates finish _ rfl).map fun _ => by rw [Stmt.relocate]
  case block =>
    intro inLoop token after isOpening itemsIH other relocated
    have otherIsOpening : (token.relocate lines).kind = .mark .leftBrace := isOpening
    rw [List.map_cons] at relocated
    subst relocated
    conv => lhs; rw [statement, isOpening]
    conv => rhs; rw [statement, otherIsOpening]
    have body := itemsIH _ rfl
    apply Reply.Relocates.past
    apply Reply.Relocates.within
    rw [body.noted]
    apply Reply.Relocates.noteFirst
    apply (expect_relocates finish _ body.unread).map
    intro closing
    rw [body.value, Stmt.relocate, Stmt.relocateAll_eq_map]
  case whileWord =>
    intro inLoop token after isWhile bodyIH other relocated
    have otherIsWhile : (token.relocate lines).kind = .keyword .whileWord := isWhile
    rw [List.map_cons] at relocated
    subst relocated
    conv => lhs; rw [statement, isWhile]
    conv => rhs; rw [statement, otherIsWhile]
    apply Reply.Relocates.past
    apply (condition_relocates finish _ _ rfl).bind
    intro test rest otherRest unread
    exact (bodyIH rest _ unread).map fun _ => by rw [Stmt.relocate]
  case forWord =>
    intro inLoop token after isFor bodyIH other relocated
    have otherIsFor : (token.relocate lines).kind = .keyword .forWord := isFor
    rw [List.map_cons] at relocated
    subst relocated
    conv => lhs; rw [statement, isFor]
    conv => rhs; rw [statement, otherIsFor]
    apply Reply.Relocates.past
    apply (clauses_relocates finish rfl).bind
    intro parts rest otherRest unread
    apply (bodyIH rest _ unread).map
    intro body
    exact (relocate_countingLoop parts.initial parts.condition parts.increment body).symm
  case breakWord =>
    intro inLoop token after isBreak other relocated
    have otherIsBreak : (token.relocate lines).kind = .keyword .breakWord := isBreak
    rw [List.map_cons] at relocated
    subst relocated
    rw [statement, isBreak, statement, otherIsBreak]
    apply Reply.Relocates.past
    cases inLoop with
    | false => exact .failed ⟨token, .breakOutsideLoop⟩ [] rfl
    | true => exact (expect_relocates finish _ rfl).map fun _ => by rw [Stmt.relocate]
  case continueWord =>
    intro inLoop token after isContinue other relocated
    have otherIsContinue : (token.relocate lines).kind = .keyword .continueWord := isContinue
    rw [List.map_cons] at relocated
    subst relocated
    rw [statement, isContinue, statement, otherIsContinue]
    exact Reply.relocates_fail finish _ rfl
  case expression =>
    intro inLoop token after notIf notPrint notBrace notWhile notFor notBreak notContinue other
      relocated
    rw [List.map_cons] at relocated
    subst relocated
    have otherRead : statement (finish.relocate lines) inLoop
        (token.relocate lines :: after.map (·.relocate lines)) = expressionStatement _ _ :=
      statement_of_other notIf notPrint notBrace notWhile notFor notBreak notContinue
    rw [statement_of_other notIf notPrint notBrace notWhile notFor notBreak notContinue, otherRead]
    exact expressionStatement_relocates finish rfl
  case noItems =>
    intro inLoop inBlock other relocated
    subst relocated
    rw [List.map_nil, items, items]
    exact ⟨rfl, rfl, rfl⟩
  case closing =>
    intro inLoop inBlock token after isClosing other relocated
    rw [List.map_cons] at relocated
    subst relocated
    conv => lhs; rw [items, if_pos isClosing]
    conv => rhs; rw [items, Token.kind_relocate, if_pos isClosing]
    exact ⟨rfl, rfl, rfl⟩
  case item =>
    intro inLoop inBlock token after notClosing item itemIH othersIH other relocated
    rw [List.map_cons] at relocated
    subst relocated
    conv => lhs; rw [items, if_neg notClosing]
    conv => rhs; rw [items, Token.kind_relocate, if_neg notClosing]
    have first := itemIH _ rfl
    have others := othersIH _ first.unread
    constructor
    · simp only [first.value, others.value, List.map_append, Option.toList_map, item]
    · simp only [first.noted, others.noted, List.map_append, item]
    · exact others.unread
  case variableDeclaration =>
    intro inLoop token after isVar otherAfter relocated
    rw [declaration, if_pos isVar, declaration, Token.kind_relocate, if_pos isVar]
    exact (declarationTail_relocates finish relocated).past.recover
  case otherDeclaration =>
    intro inLoop token after notVar statementIH otherAfter relocated
    rw [declaration, if_neg notVar, declaration, Token.kind_relocate, if_neg notVar]
    have readToo : token.relocate lines :: otherAfter =
        (token :: after).map (·.relocate lines) := by
      rw [List.map_cons, relocated]
    exact (statementIH _ readToo).recover

end Grammar

/-! ## Programs -/

namespace Program

theorem ahead_relocate (tokens : List Token) :
    ahead (tokens.map (·.relocate lines)) = (ahead tokens).map (·.relocate lines) := by
  rw [ahead, List.takeWhile_map]
  rfl

/-- Only for no tokens at all is the end not on the line of a token. -/
theorem ending_relocate {tokens : List Token} (nonempty : tokens ≠ []) :
    ending (tokens.map (·.relocate lines)) = (ending tokens).relocate lines := by
  have foundToo : (tokens.map (·.relocate lines)).find? (·.kind == .finish) =
      (tokens.find? (·.kind == .finish)).map (·.relocate lines) := by
    rw [List.find?_map]
    rfl
  rw [ending, ending, foundToo]
  cases tokens.find? (·.kind == .finish) with
  | some token => rfl
  | none => simp [List.getLast?_eq_some_getLast nonempty, Token.relocate, Token.finish]

/-- From relocated tokens the same program is read, with the same faults, all of it relocated. -/
theorem ofTokens_relocate (lines : Nat → Nat) {tokens : List Token} (nonempty : tokens ≠ []) :
    ofTokens (tokens.map (·.relocate lines)) = (ofTokens tokens).relocate lines := by
  have readings := (Grammar.statements_relocate lines (ending tokens)).2.1
  have all := readings false false (ahead tokens) _ rfl
  rw [ofTokens, ahead_relocate, ending_relocate nonempty, all.value, all.noted]
  rfl

end Program

end BlockScript
