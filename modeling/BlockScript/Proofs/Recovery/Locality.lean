import BlockScript.Proofs.Grammar.Reading

/-!
# Statements are read up to their semicolon

No expression contains a semicolon, so a rule that reads expressions comes to a semicolon before it
comes to what follows it. Whatever is appended after the semicolon, the rule replies as before. There
is one lemma for each way to build a reply, and so one for each rule that ends at a semicolon.
-/

namespace BlockScript

variable {α β : Type} {least first : Nat} {input other more : List Token}

/-- The tokens end in a semicolon, and there is no other semicolon among them. -/
inductive OneSemicolon : List Token → Prop where
  | last {semicolon : Token} (isSemicolon : semicolon.kind = .mark .semicolon) :
      OneSemicolon [semicolon]
  | cons {token : Token} {after : List Token} (notSemicolon : token.kind ≠ .mark .semicolon)
      (one : OneSemicolon after) : OneSemicolon (token :: after)

namespace OneSemicolon

variable {token : Token} {after : List Token}

theorem tail (one : OneSemicolon (token :: after)) (notSemicolon : token.kind ≠ .mark .semicolon) :
    OneSemicolon after := by
  cases one with
  | last isSemicolon => exact absurd isSemicolon notSemicolon
  | cons _ one => exact one

end OneSemicolon

/-! ## Replies -/

namespace Reply

/-- The second reply is the first one with further tokens left unread. If a fault has stopped the
rule, the semicolon is unread too; otherwise the unread tokens are as the condition says. -/
inductive Extends (more : List Token) (leaves : List Token → Prop) :
    Reply α least input → Reply α least other → Prop where
  | parsed (value : α) (noted : List SyntaxError) {rest : Rest least input}
      {otherRest : Rest least other} (unread : otherRest.tokens = rest.tokens ++ more)
      (left : leaves rest.tokens) :
      Extends more leaves (.parsed value noted rest) (.parsed value noted otherRest)
  | failed (error : SyntaxError) (noted : List SyntaxError) {rest : Rest 0 input}
      {otherRest : Rest 0 other} (unread : otherRest.tokens = rest.tokens ++ more)
      (left : OneSemicolon rest.tokens) :
      Extends more leaves (.failed error noted rest) (.failed error noted otherRest)

variable {leaves : List Token → Prop} {reply : Reply α least input} {otherReply : Reply α least other}

theorem extends_done (value : α) (extended : other = input ++ more) (one : OneSemicolon input) :
    Extends more OneSemicolon (done value : Reply α 0 input) (done value : Reply α 0 other) :=
  .parsed value [] extended one

theorem extends_fail (finish : Token) (fault : SyntaxFault) (extended : other = input ++ more)
    (one : OneSemicolon input) : Extends more leaves (fail finish input fault : Reply α least input)
      (fail finish other fault : Reply α least other) := by
  subst extended
  cases one with
  | last isSemicolon => exact .failed _ [] rfl (.last isSemicolon)
  | cons notSemicolon one => exact .failed _ [] rfl (.cons notSemicolon one)

theorem Extends.note (error : SyntaxError) (extension : Extends more leaves reply otherReply) :
    Extends more leaves (reply.note error) (otherReply.note error) := by
  cases extension with
  | parsed value noted unread left => exact .parsed value (noted ++ [error]) unread left
  | failed stopping noted unread left => exact .failed stopping (noted ++ [error]) unread left

theorem Extends.map (f : α → β) (extension : Extends more leaves reply otherReply) :
    Extends more leaves (reply.map f) (otherReply.map f) := by
  cases extension with
  | parsed value noted unread left => exact .parsed (f value) noted unread left
  | failed error noted unread left => exact .failed error noted unread left

theorem Extends.within {rest : Rest first input} {otherRest : Rest first other}
    {reply : Reply α least rest.tokens} {otherReply : Reply α least otherRest.tokens}
    (extension : Extends more leaves reply otherReply) :
    Extends more leaves (.within rest reply) (.within otherRest otherReply) := by
  cases extension with
  | parsed value noted unread left => exact .parsed value noted unread left
  | failed error noted unread left => exact .failed error noted unread left

theorem Extends.past (token : Token) (extension : Extends more leaves reply otherReply) :
    Extends more leaves (.past token reply) (.past token otherReply) := by
  cases extension with
  | parsed value noted unread left => exact .parsed value noted unread left
  | failed error noted unread left => exact .failed error noted unread left

/-- Of two rules in a row, the second one starts before the semicolon. -/
theorem Extends.bind {reply : Reply α first input} {otherReply : Reply α first other}
    {next : α → (rest : Rest first input) → Reply β least rest.tokens}
    {otherNext : α → (rest : Rest first other) → Reply β least rest.tokens}
    (extension : Extends more OneSemicolon reply otherReply)
    (continued : ∀ value (rest : Rest first input) (otherRest : Rest first other),
      otherRest.tokens = rest.tokens ++ more → OneSemicolon rest.tokens →
        Extends more leaves (next value rest) (otherNext value otherRest)) :
    Extends more leaves (reply.bind next) (otherReply.bind otherNext) := by
  cases extension with
  | failed error noted unread left => exact .failed error noted unread left
  | @parsed value noted rest otherRest unread left =>
      have further := continued value rest otherRest unread left
      simp only [Reply.bind]
      generalize next value rest = reached, otherNext value otherRest = otherReached at further ⊢
      cases further with
      | parsed result laterNoted last left => exact .parsed result (noted ++ laterNoted) last left
      | failed error laterNoted last left => exact .failed error (noted ++ laterNoted) last left

end Reply

/-- Whether a token is taken does not depend on what comes after the semicolon. -/
theorem next?_extends (wanted : Kind → Bool) (unwanted : wanted (.mark .semicolon) = false)
    (extended : other = input ++ more) (one : OneSemicolon input) :
    (next? wanted input = none ∧ next? wanted other = none) ∨
      ∃ token after otherAfter, next? wanted input = some (token, after) ∧
        next? wanted other = some (token, otherAfter) ∧
        otherAfter.tokens = after.tokens ++ more ∧ OneSemicolon after.tokens := by
  subst extended
  cases input with
  | nil => cases one
  | cons token after =>
      cases taken : wanted token.kind with
      | true =>
          have notSemicolon : token.kind ≠ .mark .semicolon := by
            intro isSemicolon
            rw [isSemicolon, unwanted] at taken
            cases taken
          exact .inr ⟨token, .tail _ _, .tail _ _, if_pos taken, if_pos taken, rfl,
            one.tail notSemicolon⟩
      | false =>
          have notTaken : ¬ wanted token.kind = true := by simp [taken]
          exact .inl ⟨if_neg notTaken, if_neg notTaken⟩

theorem expect_extends (finish : Token) {expected : Expected}
    (unwanted : expected.kind ≠ .mark .semicolon) (extended : other = input ++ more)
    (one : OneSemicolon input) :
    Reply.Extends more OneSemicolon (expect finish expected input) (expect finish expected other) := by
  rw [expect, expect]
  obtain ⟨absent, otherAbsent⟩ | ⟨token, after, otherAfter, found, otherFound, unread, oneLeft⟩ :=
    next?_extends (· == expected.kind) (by simpa using unwanted.symm) extended one
  · rw [absent, otherAbsent]
    exact Reply.extends_fail finish _ extended one
  · rw [found, otherFound]
    exact .parsed token [] unread oneLeft

/-- After the semicolon, nothing is left. -/
theorem expect_semicolon_extends (finish : Token) {expected : Expected}
    (isSemicolon : expected.kind = .mark .semicolon) (extended : other = input ++ more)
    (one : OneSemicolon input) :
    Reply.Extends more (· = []) (expect finish expected input) (expect finish expected other) := by
  subst extended
  cases one with
  | @last semicolon kind =>
      have taken : (semicolon.kind == expected.kind) = true := by simp [kind, isSemicolon]
      simp only [expect, next?, List.cons_append, taken, if_true]
      exact .parsed semicolon [] rfl rfl
  | @cons token after notSemicolon one =>
      have notTaken : (token.kind == expected.kind) = false := by simpa [isSemicolon] using notSemicolon
      simp only [expect, next?, List.cons_append, notTaken, Bool.false_eq_true, if_false]
      exact Reply.extends_fail finish _ rfl (.cons notSemicolon one)

namespace Grammar

theorem joins_semicolon (chain : Chain) : chain.joins (.mark .semicolon) = false := by
  cases chain <;> rfl

/-- An expression is read without a look at what comes after the semicolon. -/
theorem expression_extends (finish : Token) (level : Level) (input : List Token)
    {other : List Token} (extended : other = input ++ more) (one : OneSemicolon input) :
    Reply.Extends more OneSemicolon (expression finish level input) (expression finish level other) := by
  refine expression.induct
    (fun level input => ∀ other, other = input ++ more → OneSemicolon input →
      Reply.Extends more OneSemicolon (expression finish level input)
        (expression finish level other))
    (fun chain left input => ∀ other, other = input ++ more → OneSemicolon input →
      Reply.Extends more OneSemicolon (joined finish chain left input)
        (joined finish chain left other))
    ?assignment ?chain ?ternary ?noOperator ?operator ?nothing ?leaf ?grouping ?other ?finished
    ?continued level input other extended one
  case assignment =>
    intro input orIH valueIH other extended one
    rw [expression, expression]
    apply (orIH other extended one).bind
    intro target rest otherRest unread one
    obtain ⟨absent, otherAbsent⟩ | ⟨equals, after, otherAfter, found, otherFound, further, one'⟩ :=
      next?_extends (· == .mark .equal) rfl unread one
    · rw [absent, otherAbsent]
      exact Reply.extends_done target unread one
    · rw [found, otherFound]
      apply Reply.Extends.within
      apply (valueIH rest after _ further one').bind
      intro value last otherLast finalUnread one
      cases target with
      | «variable» name => exact Reply.extends_done _ finalUnread one
      | _ => exact (Reply.extends_done _ finalUnread one).note _
  case chain =>
    intro input chain operandIH joinedIH other extended one
    conv => lhs; rw [expression]
    conv => rhs; rw [expression]
    apply (operandIH other extended one).bind
    intro left rest otherRest unread one
    exact joinedIH left rest _ unread one
  case ternary =>
    intro input equalityIH trueIH falseIH other extended one
    conv => lhs; rw [expression]
    conv => rhs; rw [expression]
    apply (equalityIH other extended one).bind
    intro condition rest otherRest unread one
    obtain ⟨absent, otherAbsent⟩ | ⟨question, after, otherAfter, found, otherFound, further, one⟩ :=
      next?_extends (· == .mark .question) rfl unread one
    · rw [absent, otherAbsent]
      exact Reply.extends_done condition unread one
    · rw [found, otherFound]
      apply Reply.Extends.within
      apply (trueIH rest after _ further one).bind
      intro whenTrue branchRest otherBranchRest branchUnread one
      apply (expect_extends finish (by decide) branchUnread one).bind
      intro colon colonRest otherColonRest colonUnread one
      apply (falseIH rest after branchRest colonRest _ colonUnread one).bind
      intro whenFalse last otherLast finalUnread one
      exact Reply.extends_done _ finalUnread one
  case noOperator =>
    intro input absent primaryIH other extended one
    obtain ⟨_, otherAbsent⟩ | ⟨_, _, _, found, _, _⟩ :=
      next?_extends Kind.isUnaryOperator rfl extended one
    · rw [expression, absent, expression, otherAbsent]
      exact primaryIH other extended one
    · cases absent.symm.trans found
  case operator =>
    intro input operator after found operandIH other extended one
    obtain ⟨absent, _⟩ | ⟨_, _, otherAfter, alsoFound, otherFound, unread, one⟩ :=
      next?_extends Kind.isUnaryOperator rfl extended one
    · cases absent.symm.trans found
    · cases found.symm.trans alsoFound
      rw [expression, found, expression, otherFound]
      apply Reply.Extends.within
      apply (operandIH _ unread one).bind
      intro operand rest otherRest unread one
      exact Reply.extends_done _ unread one
  case nothing =>
    intro other extended one
    cases one
  case leaf =>
    intro token after leaf found other extended one
    have notSemicolon : token.kind ≠ .mark .semicolon := by
      intro isSemicolon
      simp [Expr.ofToken?, isSemicolon] at found
    subst extended
    rw [List.cons_append]
    conv => lhs; rw [expression, found]
    conv => rhs; rw [expression, found]
    exact (Reply.extends_done leaf rfl (one.tail notSemicolon)).within
  case grouping =>
    intro token after noLeaf isOpening innerIH other extended one
    have notSemicolon : token.kind ≠ .mark .semicolon := by simp [isOpening]
    subst extended
    rw [List.cons_append]
    conv => lhs; rw [expression, noLeaf]
    conv => rhs; rw [expression, noLeaf]
    simp only [isOpening, if_true]
    apply Reply.Extends.within
    apply (innerIH _ rfl (one.tail notSemicolon)).bind
    intro inner rest otherRest unread one
    apply (expect_extends finish (by decide) unread one).bind
    intro closing last otherLast finalUnread one
    exact Reply.extends_done _ finalUnread one
  case other =>
    intro token after noLeaf noParen other extended one
    subst extended
    rw [List.cons_append]
    conv => lhs; rw [expression, noLeaf]
    conv => rhs; rw [expression, noLeaf]
    simp only [noParen, if_false]
    exact Reply.extends_fail finish _ rfl one
  case finished =>
    intro chain left input absent other extended one
    obtain ⟨_, otherAbsent⟩ | ⟨_, _, _, found, _, _⟩ :=
      next?_extends chain.joins (joins_semicolon chain) extended one
    · rw [joined, absent, joined, otherAbsent]
      exact Reply.extends_done left extended one
    · cases absent.symm.trans found
  case continued =>
    intro chain left input operator after found operandIH joinedIH other extended one
    obtain ⟨absent, _⟩ | ⟨_, _, otherAfter, alsoFound, otherFound, unread, one⟩ :=
      next?_extends chain.joins (joins_semicolon chain) extended one
    · cases absent.symm.trans found
    · cases found.symm.trans alsoFound
      rw [joined, found, joined, otherFound]
      apply Reply.Extends.within
      apply (operandIH _ unread one).bind
      intro right rest otherRest further one
      exact joinedIH right rest _ further one

/-! ## Statements that end at a semicolon -/

section Terminated

variable (finish : Token) {semicolon : Expected} (isSemicolon : semicolon.kind = .mark .semicolon)
  (extended : other = input ++ more) (one : OneSemicolon input)

include extended one

include isSemicolon in
theorem terminated_extends : Reply.Extends more (· = []) (terminated finish semicolon input)
    (terminated finish semicolon other) := by
  apply (expression_extends finish _ input extended one).bind
  intro value rest otherRest unread one
  exact (expect_semicolon_extends finish isSemicolon unread one).map _

theorem expressionStatement_extends : Reply.Extends more (· = [])
    (expressionStatement finish input) (expressionStatement finish other) :=
  (terminated_extends finish rfl extended one).map _

theorem declarationTail_extends : Reply.Extends more (· = []) (declarationTail finish input)
    (declarationTail finish other) := by
  apply (expect_extends finish (by decide) extended one).bind
  intro name rest otherRest unread one
  obtain ⟨absent, otherAbsent⟩ | ⟨equals, after, otherAfter, found, otherFound, further, one⟩ :=
    next?_extends (· == .mark .equal) rfl unread one
  · rw [absent, otherAbsent]
    exact (expect_semicolon_extends finish rfl unread one).map _
  · rw [found, otherFound]
    exact ((terminated_extends finish rfl further one).map _).within

end Terminated

end Grammar
end BlockScript
