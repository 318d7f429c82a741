import BlockScript.Proofs.Cursor.Progress
import Mathlib.Order.Bounds.Basic

/-!
# Where reading resumes

A statement at fault leaves the cursor somewhere behind its start, and reading resumes at an index
at which a statement can start: there is the end, or a keyword that starts statements, or a
semicolon in front of the index has been given up. Recovery gives up the token that the cursor was
left at before it looks for such an index. So it passes over a keyword if the cursor was left at
one, even if the keyword is not that of the statement at fault, and over nothing else.
-/

namespace BlockScript

/-! ## Indices at which a statement can start -/

/-- At the index there is the end of the tokens or a keyword that starts statements. -/
def OpensAt (tokens : List Token) (index : Nat) : Prop :=
  ∃ token, tokens[index]? = some token ∧
    (token.kind = .finish ∨ token.kind.startsStatement = true)

def KeywordAt (tokens : List Token) (index : Nat) : Prop :=
  ∃ token, tokens[index]? = some token ∧ token.kind.startsStatement = true

def ClosedBefore (tokens : List Token) (index : Nat) : Prop :=
  ∃ token, tokens[index - 1]? = some token ∧ token.kind = .mark .semicolon

/-- The indices behind a token at which reading can resume when the cursor was left at an index. A
semicolon counts if it has been given up. -/
def resumable (tokens : List Token) (token left : Nat) : Set Nat :=
  {index | left ≤ index ∧ token < index ∧
    (OpensAt tokens index ∨ left < index ∧ ClosedBefore tokens index)}

section

variable {tokens : List Token} {started left : Nat}

theorem KeywordAt.opensAt (keyword : KeywordAt tokens left) : OpensAt tokens left :=
  keyword.imp fun _ => And.imp_right .inr

/-- Where no keyword is, a statement can start only at the end. -/
theorem not_opensAt {token : Token} (here : tokens[left]? = some token)
    (notFinish : token.kind ≠ .finish) (noKeyword : ¬ KeywordAt tokens left) :
    ¬ OpensAt tokens left := by
  rintro ⟨other, isOther, isFinish | starts⟩
  · cases here.symm.trans isOther
    exact notFinish isFinish
  · exact noKeyword ⟨other, isOther, starts⟩

/-- Unless the cursor was left where a statement can start, reading can resume behind the start of
the statement at fault at no other indices than behind the place where the cursor was left. -/
theorem resumable_eq (started_le : started ≤ left) (notOpen : ¬ OpensAt tokens left) :
    resumable tokens started left = resumable tokens left left := by
  ext index
  constructor
  · rintro ⟨notBack, -, opens | ⟨behind, closed⟩⟩
    · have behind : left ≠ index := fun same => notOpen (same ▸ opens)
      exact ⟨notBack, by omega, .inl opens⟩
    · exact ⟨notBack, behind, .inr ⟨behind, closed⟩⟩
  · rintro ⟨notBack, behind, starts⟩
    exact ⟨notBack, by omega, starts⟩

end

/-! ## Recovery -/

section

variable {tokens : List Token} (finishes : ∃ token ∈ tokens, token.kind = .finish)

include finishes

theorem opensAt_length_ahead : OpensAt tokens (Program.ahead tokens).length :=
  ⟨_, Program.getElem?_of_suffix finishes (List.nil_suffix) rfl, .inl
    (Program.eq_ahead_append finishes).1⟩

theorem not_keywordAt_length_ahead : ¬ KeywordAt tokens (Program.ahead tokens).length := by
  rintro ⟨token, here, starts⟩
  cases here.symm.trans (Program.getElem?_of_suffix finishes List.nil_suffix rfl)
  rw [List.headD_nil, (Program.eq_ahead_append finishes).1] at starts
  cases starts

/-- Skipping ends at the first index at which a statement can start. -/
theorem Grammar.isLeast_skip {last : Token} {input : List Token} {place resumed : Nat}
    (precedes : last :: input <:+ Program.ahead tokens)
    (stands : place + 1 + input.length = (Program.ahead tokens).length)
    (standsThere : resumed + (skip last.kind input).length = (Program.ahead tokens).length) :
    IsLeast {index | place < index ∧ (OpensAt tokens index ∨ ClosedBefore tokens index)}
      resumed := by
  induction input generalizing last place with
  | nil =>
      have isEnd : resumed = (Program.ahead tokens).length := standsThere
      have isNext : resumed = place + 1 := isEnd.trans stands.symm
      refine ⟨⟨by omega, .inl ?_⟩, fun index later => by rw [isNext]; exact later.1⟩
      rw [isEnd]
      exact opensAt_length_ahead finishes
  | cons token after inductionHypothesis =>
      have isSuffix := (List.suffix_cons last _).trans precedes
      have here : tokens[place + 1]? = some token :=
        Program.getElem?_of_suffix finishes isSuffix stands
      have before : tokens[place]? = some last :=
        Program.getElem?_of_suffix finishes precedes (by simp only [List.length_cons] at *; omega)
      rw [skip] at standsThere
      split at standsThere
      · next stops =>
          have isNext : resumed = place + 1 := Nat.add_right_cancel (standsThere.trans stands.symm)
          refine ⟨⟨by omega, ?_⟩, fun index later => by rw [isNext]; exact later.1⟩
          rw [isNext]
          simp only [Bool.or_eq_true, decide_eq_true_eq] at stops
          exact stops.symm.imp (fun starts => ⟨token, here, .inr starts⟩)
            fun isSemicolon => ⟨last, before, isSemicolon⟩
      · next goesOn =>
          simp only [Bool.or_eq_true, decide_eq_true_eq, not_or] at goesOn
          have notOpen : ¬ OpensAt tokens (place + 1) := by
            apply not_opensAt here
            · exact Program.kind_ne_finish_of_mem_ahead (isSuffix.subset List.mem_cons_self)
            · rintro ⟨other, isOther, starts⟩
              cases here.symm.trans isOther
              exact goesOn.2 starts
          have notClosed : ¬ ClosedBefore tokens (place + 1) := by
            rintro ⟨other, isOther, isSemicolon⟩
            cases before.symm.trans isOther
            exact goesOn.1 isSemicolon
          have standsNext : place + 1 + 1 + after.length = (Program.ahead tokens).length := by
            simp only [List.length_cons] at stands
            omega
          have further := inductionHypothesis isSuffix standsNext standsThere
          refine ⟨⟨Nat.lt_of_succ_lt further.1.1, further.1.2⟩, fun index later => ?_⟩
          have notNext : index ≠ place + 1 := by
            rintro rfl
            exact later.2.elim notOpen notClosed
          exact further.2 ⟨by have := later.1; omega, later.2⟩

/-- Recovery gives up the token that the cursor was left at, and reading resumes at the first index
behind it at which a statement can start. -/
theorem Grammar.isLeast_resume {token : Token} {after : List Token} {left resumed : Nat}
    (isSuffix : token :: after <:+ Program.ahead tokens)
    (stands : left + (token :: after).length = (Program.ahead tokens).length)
    (standsThere : resumed + (resume (token :: after)).length = (Program.ahead tokens).length) :
    IsLeast (resumable tokens left left) resumed := by
  have standsNext : left + 1 + after.length = (Program.ahead tokens).length := by
    simp only [List.length_cons] at stands
    omega
  have least := isLeast_skip finishes isSuffix standsNext standsThere
  have same : resumable tokens left left =
      {index | left < index ∧ (OpensAt tokens index ∨ ClosedBefore tokens index)} := by
    ext index
    constructor
    · rintro ⟨-, behind, opens | ⟨-, closed⟩⟩
      · exact ⟨behind, .inl opens⟩
      · exact ⟨behind, .inr closed⟩
    · rintro ⟨behind, starts⟩
      exact ⟨Nat.le_of_lt behind, behind, starts.imp_right fun closed => ⟨behind, closed⟩⟩
  rwa [same]

end

/-! ## Declarations at fault -/

section

variable {tokens input : List Token} {depth fuel least : Nat} {α : Type}

theorem Attempt.Follows.exists_reads {attempt : Attempt α} {reply : Reply α least input}
    (follows : attempt.Follows tokens depth reply) :
    ∃ outcome noted unread, Walk.Reads tokens depth input attempt.run outcome noted unread ∧
      unread <:+ input := by
  cases reply with
  | parsed value noted rest => exact ⟨_, _, _, follows, rest.isSuffix⟩
  | failed error noted rest => exact ⟨_, _, _, follows, rest.isSuffix⟩

/-- The part of a declaration that a fault can stop. -/
def Walk.declared (tokens : List Token) (fuel : Nat) : Attempt Stmt := do
  if (← peek tokens).kind == .keyword .varWord then
    let _ ← advance tokens
    declarationTail tokens fuel
  else
    statement tokens fuel

theorem Walk.declaration_eq_recover (tokens : List Token) (fuel : Nat) :
    declaration tokens (fuel + 1) = recover tokens fuel (declared tokens fuel) := by
  rw [declaration, declared]

namespace Walk

theorem Ends.unique {walk : Walk α} {before first second : Cursor} {value other : α}
    (ends : walk.Ends before value first) (endsOther : walk.Ends before other second) :
    value = other ∧ first = second := by
  have same := Except.ok.inj (ends.symm.trans endsOther)
  exact ⟨congrArg Prod.fst same, congrArg Prod.snd same⟩

theorem ends_recover_error {attempt : Attempt α} {before left after : Cursor} {error : SyntaxError}
    (stopped : attempt.run.Ends before (.error error) left)
    (recovers : (synchronize tokens fuel).Ends (left.note error) () after) :
    (recover tokens fuel attempt).Ends before none after :=
  stopped.bind ((ends_modify _ left).bind (recovers.bind (ends_pure none after)))

variable (finishes : ∃ token ∈ tokens, token.kind = .finish)

include finishes

/-- The part of a declaration that a fault can stop moves the cursor on, or leaves it. -/
theorem reads_declared {token : Token} {after : List Token}
    (enough : 11 * (token :: after).length + 12 ≤ fuel) :
    ∃ outcome noted unread,
      Reads tokens depth (token :: after) (declared tokens fuel).run outcome noted unread ∧
        unread <:+ token :: after := by
  by_cases isVar : token.kind = .keyword .varWord
  · have follows : Attempt.Follows tokens depth (declared tokens fuel)
        (.past token (Grammar.declarationTail (Program.ending tokens) after)) := by
      apply Attempt.follows_peek finishes
      simp only [List.headD_cons, isVar, beq_self_eq_true, if_true]
      apply Attempt.follows_advance_past finishes
      exact Attempt.declarationTail_follows finishes (by grind)
    exact follows.exists_reads
  · have follows : Attempt.Follows tokens depth (declared tokens fuel)
        (Grammar.statement (Program.ending tokens) (decide (0 < depth)) (token :: after)) := by
      apply Attempt.follows_peek finishes
      simp only [List.headD_cons, isVar, beq_iff_eq, if_false]
      exact (Attempt.statements_follow finishes).1 _ _ _ _ rfl enough
    exact follows.exists_reads

/-- Recovery leaves the cursor at the end, if it starts there. -/
theorem ends_synchronize_nil {left : Cursor} (enough : 1 ≤ fuel)
    (stands : left.At tokens depth []) :
    ∃ after, (synchronize tokens fuel).Ends left () after ∧ after.errors = left.errors ∧
      after.current = left.current := by
  obtain ⟨after, ends, standsThere, errors⟩ := reads_synchronize finishes enough left stands
  have same : after.current = (Program.ahead tokens).length := standsThere.position
  exact ⟨after, ends, by simpa using errors, same.trans stands.position.symm⟩

/-- Otherwise it leaves the cursor at the first index behind at which a statement can start. -/
theorem ends_synchronize_cons {token : Token} {unread : List Token} {left : Cursor}
    (enough : (token :: unread).length + 1 ≤ fuel)
    (stands : left.At tokens depth (token :: unread)) :
    ∃ after, (synchronize tokens fuel).Ends left () after ∧ after.errors = left.errors ∧
      IsLeast (resumable tokens left.current left.current) after.current := by
  obtain ⟨after, ends, standsThere, errors⟩ := reads_synchronize finishes enough left stands
  exact ⟨after, ends, by simpa using errors,
    Grammar.isLeast_resume finishes stands.isSuffix stands.position standsThere.position⟩

/-- A statement at fault leaves the cursor at its start or behind it, and not behind the end. -/
theorem exists_at_of_declared {before left : Cursor} {outcome : Except SyntaxError Stmt}
    (enough : 11 * (Program.ahead tokens).length + 12 ≤ fuel)
    (inFront : before.current < (Program.ahead tokens).length)
    (farthest_le : before.farthest ≤ (Program.ahead tokens).length)
    (stopped : (declared tokens fuel).run.Ends before outcome left) :
    ∃ unread, left.At tokens before.loopDepth unread ∧ before.current ≤ left.current := by
  have stands := Cursor.At.drop (Nat.le_of_lt inFront) farthest_le
  have started := stands.position
  rw [List.drop_eq_getElem_cons inFront] at stands started
  have enoughLeft : 11 * ((Program.ahead tokens)[before.current] ::
      (Program.ahead tokens).drop (before.current + 1)).length + 12 ≤ fuel := by omega
  obtain ⟨_, _, unread, reads, isSuffix⟩ := reads_declared finishes enoughLeft
  obtain ⟨reached, ends, standsThere, -⟩ := reads before stands
  obtain ⟨-, rfl⟩ := ends.unique stopped
  have position := standsThere.position
  have shorter := isSuffix.length_le
  exact ⟨unread, standsThere, by omega⟩

/-- A declaration whose statement is at fault is noted, and reading resumes. It resumes at the
first index behind the start of the statement, and not before the place where the cursor was left,
at which a statement can start, exactly unless a keyword at that place starts a statement and is
not the first token of the one at fault. Such a keyword is passed over, and reading resumes at the
first index behind it at which a statement can start. -/
theorem declaration_resumes {before left : Cursor} {error : SyntaxError}
    (enough : 11 * tokens.findIdx (·.kind == .finish) + 12 ≤ fuel)
    (inFront : before.current < tokens.findIdx (·.kind == .finish))
    (farthest_le : before.farthest ≤ tokens.findIdx (·.kind == .finish))
    (stopped : (declared tokens fuel).run.Ends before (.error error) left) :
    ∃ after, (declaration tokens (fuel + 1)).Ends before none after ∧
      after.errors = left.errors ++ [error] ∧
      (IsLeast (resumable tokens before.current left.current) after.current ↔
        (KeywordAt tokens left.current → left.current = before.current)) ∧
      (KeywordAt tokens left.current →
        IsLeast (resumable tokens left.current left.current) after.current) := by
  rw [← Program.length_ahead] at enough inFront farthest_le
  obtain ⟨unread, stands, notBack⟩ :=
    exists_at_of_declared finishes enough inFront farthest_le stopped
  have position := stands.position
  rw [declaration_eq_recover]
  cases unread with
  | nil =>
      have someFuel : 1 ≤ fuel := by omega
      obtain ⟨after, recovers, errors, same⟩ :=
        ends_synchronize_nil finishes someFuel (stands.note error)
      have atEnd : left.current = (Program.ahead tokens).length := position
      have noKeyword : ¬ KeywordAt tokens left.current :=
        atEnd ▸ not_keywordAt_length_ahead finishes
      have least : IsLeast (resumable tokens before.current left.current) after.current := by
        rw [same]
        exact ⟨⟨Nat.le_refl _, atEnd ▸ inFront, .inl (atEnd ▸ opensAt_length_ahead finishes)⟩,
          fun index member => member.1⟩
      exact ⟨after, ends_recover_error stopped recovers, errors,
        ⟨fun _ keyword => absurd keyword noKeyword, fun _ => least⟩,
        fun keyword => absurd keyword noKeyword⟩
  | cons token unread =>
      have enoughLeft : (token :: unread).length + 1 ≤ fuel := by omega
      obtain ⟨after, recovers, errors, least⟩ :=
        ends_synchronize_cons finishes enoughLeft (stands.note error)
      refine ⟨after, ends_recover_error stopped recovers, errors, ⟨?passes, ?resumes⟩,
        fun _ => least⟩
      case passes =>
        -- A keyword behind the start would be an index to resume at, but it has been given up.
        intro leastFromStart keyword
        by_contra elsewhere
        have behindStart : before.current < left.current := by omega
        have candidate : left.current ∈ resumable tokens before.current left.current :=
          ⟨Nat.le_refl _, behindStart, .inl keyword.opensAt⟩
        exact Nat.not_lt.mpr (leastFromStart.2 candidate) least.1.2.1
      case resumes =>
        intro atStart
        by_cases keyword : KeywordAt tokens left.current
        · rw [← atStart keyword]
          exact least
        · have here : tokens[left.current]? = some token :=
            Program.getElem?_of_suffix finishes stands.isSuffix position
          rw [resumable_eq notBack (not_opensAt here stands.kind_ne_finish keyword)]
          exact least

end Walk

end

/-- The keyword at which no declaration can start is the first token of the statement at fault. It
is given up with the semicolon behind it. -/
theorem Walk.declaration_strayKeyword :
    (∃ token ∈ strayKeyword, token.kind = .finish) ∧
      ∃ left after, (declared strayKeyword 40).run.Ends .start
          (.error ⟨plainToken (.keyword .classWord) "class", .missingExpression⟩) left ∧
        left.current = 0 ∧ KeywordAt strayKeyword 0 ∧
        (declaration strayKeyword 41).Ends .start none after ∧
        IsLeast (resumable strayKeyword 0 0) after.current := by
  have finishes : ∃ token ∈ strayKeyword, token.kind = .finish := by decide
  have stopped : (declared strayKeyword 40).run.Ends .start
      (.error ⟨plainToken (.keyword .classWord) "class", .missingExpression⟩) .start := by
    rfl
  have keyword : KeywordAt strayKeyword 0 := ⟨_, rfl, rfl⟩
  obtain ⟨after, ends, -, resumes, -⟩ :=
    declaration_resumes finishes (by decide) (by decide) (by decide) stopped
  exact ⟨finishes, .start, after, stopped, rfl, keyword, ends, resumes.mpr fun _ => rfl⟩

/-- Two statements, of which the first one lacks its semicolon. -/
def missingSemicolon : List Token :=
  [plainToken (.keyword .printWord) "print", plainToken .identifier "a",
    plainToken (.keyword .printWord) "print", plainToken .identifier "b",
    plainToken (.mark .semicolon) ";", .finish 1]

/-- The first statement is found to be at fault at the keyword of the second one. Reading could
resume there, and it resumes at the end only. So the second statement is lost. -/
theorem Walk.declaration_missingSemicolon :
    let error : SyntaxError :=
      ⟨plainToken (.keyword .printWord) "print", .missing .semicolonAfterValue⟩
    (declared missingSemicolon 80).run.Ends .start (.error error) ⟨2, 2, 0, []⟩ ∧
      (declaration missingSemicolon 81).Ends .start none ⟨5, 5, 0, [error]⟩ ∧
      2 ∈ resumable missingSemicolon 0 2 ∧ ¬ IsLeast (resumable missingSemicolon 0 2) 5 ∧
      Program.ofTokens missingSemicolon = ⟨[], [error]⟩ := by
  have candidate : 2 ∈ resumable missingSemicolon 0 2 :=
    ⟨Nat.le_refl _, Nat.zero_lt_two, .inl ⟨_, rfl, .inr rfl⟩⟩
  refine ⟨rfl, rfl, candidate, ?_, by cbv⟩
  intro least
  exact absurd (least.2 candidate) (by decide)

end BlockScript
