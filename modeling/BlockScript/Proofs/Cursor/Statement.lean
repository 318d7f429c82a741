import BlockScript.Proofs.Cursor.Simulation

/-!
# Statements read with a cursor

A statement that stops at a fault leaves the cursor where the fault is, and the loops around it have
been left again. So recovery starts where the grammar starts it. It gives up a token if there is
one, and therefore each declaration moves the cursor on.
-/

namespace BlockScript

variable {α β : Type} {least first depth fuel : Nat} {tokens input : List Token}

namespace Walk

/-! ## Recovery -/

section

variable (finishes : ∃ token ∈ tokens, token.kind = .finish)

include finishes

theorem reads_skip_nil : Reads tokens depth [] (skip tokens (fuel + 1)) () [] [] := by
  rw [skip]
  exact (reads_atEnd finishes).bind (reads_pure ())

theorem reads_skip {last : Token} (enough : input.length + 1 ≤ fuel)
    (precedes : last :: input <:+ Program.ahead tokens) :
    Reads tokens depth input (skip tokens fuel) () [] (Grammar.skip last.kind input) := by
  induction input generalizing last fuel with
  | nil =>
      obtain ⟨fuel, rfl, -⟩ := exists_fuel enough
      exact reads_skip_nil finishes
  | cons token after inductionHypothesis =>
      obtain ⟨fuel, rfl, spare⟩ := exists_fuel enough
      rw [skip, Grammar.skip]
      apply (reads_atEnd finishes).bind
      apply (reads_previous finishes precedes).bind
      by_cases ended : last.kind = .mark .semicolon
      · simp only [ended, beq_self_eq_true, decide_true, Bool.true_or, if_true]
        exact reads_pure ()
      · simp only [ended, beq_iff_eq, decide_false, Bool.false_or, if_false]
        apply (reads_peek finishes).bind
        by_cases starts : token.kind.startsStatement = true
        · simp only [List.headD_cons, starts, if_true]
          exact reads_pure ()
        · simp only [List.headD_cons, starts]
          apply (reads_advance finishes).bind
          exact inductionHypothesis spare ((List.suffix_cons last _).trans precedes)

theorem reads_synchronize (enough : input.length + 1 ≤ fuel) :
    Reads tokens depth input (synchronize tokens fuel) () [] (Grammar.resume input) := by
  cases input with
  | nil =>
      obtain ⟨fuel, rfl, -⟩ := exists_fuel enough
      obtain ⟨last, reads⟩ := reads_advance_nil finishes
      exact reads.bind (reads_skip_nil finishes)
  | cons token after =>
      apply reads_of_forall
      intro cursor stands
      exact (reads_advance finishes).bind
        (reads_skip finishes (Nat.le_of_succ_le enough) stands.isSuffix)

theorem reads_recover {token : Token} {after : List Token} {attempt : Attempt α}
    {reply : Reply α 1 (token :: after)} (enough : (token :: after).length + 1 ≤ fuel)
    (follows : attempt.Follows tokens depth reply) :
    Reads tokens depth (token :: after) (recover tokens fuel attempt) reply.recover.value
      reply.recover.noted reply.recover.rest.tokens := by
  cases reply with
  | parsed tree noted rest => exact Reads.bind_pure follows rfl
  | failed error noted rest =>
      apply Reads.bind follows
      apply (reads_note error).bind
      exact (reads_synchronize finishes (by grind)).bind_pure rfl

end

end Walk

namespace Attempt

open Walk

/-! ## Loops and blocks -/

/-- The depth of loops is the same after a loop body as before it, also if a fault has stopped the
body. -/
theorem reads_inLoop {body : Attempt α} {outcome : Except SyntaxError α}
    {noted : List SyntaxError} {unread : List Token}
    (reads : Reads tokens (depth + 1) input body.run outcome noted unread) :
    Reads tokens depth input (inLoop body).run outcome noted unread := by
  intro cursor stands
  obtain ⟨reached, ends, standsThere, errors⟩ :=
    reads { cursor with loopDepth := cursor.loopDepth + 1 }
      ⟨stands.isSuffix, stands.position, stands.farthest_le, congrArg (· + 1) stands.depth_eq⟩
  refine ⟨{ reached with loopDepth := depth }, ?_,
    ⟨standsThere.isSuffix, standsThere.position, standsThere.farthest_le, rfl⟩, errors⟩
  have leaves := ends_leaveLoop standsThere.depth_eq
  exact (ends_modify _ cursor).bind (ends.bind (leaves.bind (ends_pure _ _)))

theorem Follows.inLoop {body : Attempt α} {reply : Reply α least input}
    (follows : Follows tokens (depth + 1) body reply) :
    Follows tokens depth (inLoop body) reply := by
  cases reply with
  | parsed value noted rest => exact reads_inLoop follows
  | failed error noted rest => exact reads_inLoop follows

theorem follows_loopDepth {next : Nat → Attempt β} {reply : Reply β least input}
    (follows : Follows tokens depth (next depth) reply) :
    Follows tokens depth (liftM loopDepth >>= next) reply := by
  cases reply with
  | parsed value noted rest => exact reads_lift_bind reads_loopDepth follows
  | failed error noted rest => exact reads_lift_bind reads_loopDepth follows

/-- Items cannot fail, but an attempt can go on after them. -/
theorem follows_items {next : List Stmt → Attempt β} {walk : Walk (List Stmt)}
    {items : Recovered (List Stmt) 0 input} {reply : Reply β least items.rest.tokens}
    (reads : Reads tokens depth input walk items.value items.noted items.rest.tokens)
    (follows : Follows tokens depth (next items.value) reply) :
    Follows tokens depth (liftM walk >>= next)
      (.within items.rest (reply.noteFirst items.noted)) := by
  cases reply with
  | parsed value noted rest => exact reads_lift_bind reads follows
  | failed error noted rest => exact reads_lift_bind reads follows

/-! ## Statements -/

section

variable (finishes : ∃ token ∈ tokens, token.kind = .finish)

include finishes

/-- Statements, items and declarations are read as the grammar reads them. A statement needs a
little more fuel than an expression, and items need a little more than a statement. -/
theorem statements_follow :
    (∀ inLoop input depth fuel, inLoop = decide (0 < depth) → 11 * input.length + 12 ≤ fuel →
      Follows tokens depth (statement tokens fuel)
        (Grammar.statement (Program.ending tokens) inLoop input)) ∧
    (∀ inLoop inBlock input depth fuel, inLoop = decide (0 < depth) →
      11 * input.length + 14 ≤ fuel →
      let all := Grammar.items (Program.ending tokens) inLoop inBlock input
      Reads tokens depth input (items tokens fuel inBlock) all.value all.noted all.rest.tokens) ∧
    (∀ inLoop token after depth fuel, inLoop = decide (0 < depth) →
      11 * (token :: after).length + 13 ≤ fuel →
      let item := Grammar.declaration (Program.ending tokens) inLoop token after
      Reads tokens depth (token :: after) (declaration tokens fuel) item.value item.noted
        item.rest.tokens) := by
  -- The grammar only knows whether there is a loop around a statement, and the cursor knows how many
  -- there are, so the depth is left open in the induction and goes up by one in the body of a loop.
  refine Grammar.statement.mutual_induct (Program.ending tokens)
    (fun inLoop input => ∀ depth fuel, inLoop = decide (0 < depth) →
      11 * input.length + 12 ≤ fuel →
      Follows tokens depth (statement tokens fuel)
        (Grammar.statement (Program.ending tokens) inLoop input))
    (fun inLoop inBlock input => ∀ depth fuel, inLoop = decide (0 < depth) →
      11 * input.length + 14 ≤ fuel →
      let all := Grammar.items (Program.ending tokens) inLoop inBlock input
      Reads tokens depth input (items tokens fuel inBlock) all.value all.noted all.rest.tokens)
    (fun inLoop token after => ∀ depth fuel, inLoop = decide (0 < depth) →
      11 * (token :: after).length + 13 ≤ fuel →
      let item := Grammar.declaration (Program.ending tokens) inLoop token after
      Reads tokens depth (token :: after) (declaration tokens fuel) item.value item.noted
        item.rest.tokens)
    ?nothing ?ifWord ?printWord ?block ?whileWord ?forWord ?breakWord ?continueWord ?expression
    ?noItems ?closing ?item ?variableDeclaration ?otherDeclaration
  case nothing =>
    intro inLoop depth fuel isDepth enough
    obtain ⟨fuel, rfl, spare⟩ := exists_fuel enough
    rw [Walk.statement, Grammar.statement]
    apply follows_peek finishes
    have isEnd := (Program.eq_ahead_append finishes).1
    simp only [List.headD_nil, isEnd]
    exact expressionStatement_follows finishes spare
  case ifWord =>
    intro inLoop token after isIf whenTrueIH whenFalseIH depth fuel isDepth enough
    obtain ⟨fuel, rfl, spare⟩ := exists_fuel enough
    rw [Walk.statement, Grammar.statement, isIf]
    apply follows_peek finishes
    simp only [List.headD_cons, isIf]
    apply follows_advance_past finishes
    apply (condition_follows finishes (by grind) _ _).bind
    intro test rest
    apply (whenTrueIH rest depth fuel isDepth (by grind)).bind
    intro whenTrue further
    cases found : next? (· == .keyword .elseWord) further.tokens with
    | none => exact follows_leave finishes found rfl (follows_done _)
    | some pair =>
        obtain ⟨other, last⟩ := pair
        apply follows_take_advance finishes found
        apply (whenFalseIH rest further last depth fuel isDepth (by grind)).bind
        intro whenFalse final
        exact follows_done _
  case printWord =>
    intro inLoop token after isPrint depth fuel isDepth enough
    obtain ⟨fuel, rfl, spare⟩ := exists_fuel enough
    rw [Walk.statement, Grammar.statement, isPrint]
    apply follows_peek finishes
    simp only [List.headD_cons, isPrint]
    apply follows_advance_past finishes
    exact (terminated_follows finishes (by grind) _).map _
  case block =>
    intro inLoop token after isOpening itemsIH depth fuel isDepth enough
    obtain ⟨fuel, rfl, spare⟩ := exists_fuel enough
    rw [Walk.statement, Grammar.statement, isOpening]
    apply follows_peek finishes
    simp only [List.headD_cons, isOpening]
    apply follows_advance_past finishes
    apply follows_items (itemsIH depth fuel isDepth (by grind))
    exact (follows_consume finishes _).map _
  case whileWord =>
    intro inLoop token after isWhile bodyIH depth fuel isDepth enough
    obtain ⟨fuel, rfl, spare⟩ := exists_fuel enough
    rw [Walk.statement, Grammar.statement, isWhile]
    apply follows_peek finishes
    simp only [List.headD_cons, isWhile]
    apply follows_advance_past finishes
    apply (condition_follows finishes (by grind) _ _).bind
    intro test rest
    exact (bodyIH rest (depth + 1) fuel rfl (by grind)).inLoop.map _
  case forWord =>
    intro inLoop token after isFor bodyIH depth fuel isDepth enough
    obtain ⟨fuel, rfl, spare⟩ := exists_fuel enough
    rw [Walk.statement, Grammar.statement, isFor]
    apply follows_peek finishes
    simp only [List.headD_cons, isFor]
    apply follows_advance_past finishes
    apply (clauses_follows finishes (by grind)).bind
    intro parts rest
    exact (bodyIH rest (depth + 1) fuel rfl (by grind)).inLoop.map _
  case breakWord =>
    intro inLoop token after isBreak depth fuel isDepth enough
    obtain ⟨fuel, rfl, spare⟩ := exists_fuel enough
    rw [Walk.statement, Grammar.statement, isBreak]
    apply follows_peek finishes
    simp only [List.headD_cons, isBreak]
    apply follows_advance_past finishes
    apply follows_loopDepth
    subst isDepth
    cases depth with
    | zero => exact reads_pure _
    | succ depth => exact (follows_consume finishes _).map _
  case continueWord =>
    intro inLoop token after isContinue depth fuel isDepth enough
    obtain ⟨fuel, rfl, spare⟩ := exists_fuel enough
    rw [Walk.statement, Grammar.statement, isContinue]
    apply follows_peek finishes
    simp only [List.headD_cons, isContinue]
    exact follows_fail finishes _
  case expression =>
    intro inLoop token after notIf notPrint notBrace notWhile notFor notBreak notContinue depth fuel
      isDepth enough
    obtain ⟨fuel, rfl, spare⟩ := exists_fuel enough
    rw [Walk.statement,
      Grammar.statement_of_other notIf notPrint notBrace notWhile notFor notBreak notContinue]
    apply follows_peek finishes
    rw [List.headD_cons]
    split
    all_goals first | contradiction | exact expressionStatement_follows finishes spare
  case noItems =>
    intro inLoop inBlock depth fuel isDepth enough
    obtain ⟨fuel, rfl, spare⟩ := exists_fuel enough
    rw [Walk.items, Grammar.items]
    exact (reads_atEnd finishes).bind (reads_pure [])
  case closing =>
    intro inLoop inBlock token after isClosing depth fuel isDepth enough
    obtain ⟨fuel, rfl, spare⟩ := exists_fuel enough
    rw [Walk.items, Grammar.items, if_pos isClosing]
    apply (reads_atEnd finishes).bind
    apply (reads_peek finishes).bind
    simp only [Bool.and_eq_true, decide_eq_true_eq] at isClosing
    simp only [List.headD_cons, isClosing, beq_self_eq_true, Bool.and_self, if_true]
    exact reads_pure []
  case item =>
    intro inLoop inBlock token after notClosing item itemIH othersIH depth fuel isDepth enough
    obtain ⟨fuel, rfl, spare⟩ := exists_fuel enough
    rw [Walk.items, Grammar.items, if_neg notClosing]
    apply (reads_atEnd finishes).bind
    apply (reads_peek finishes).bind
    have notBrace : ¬(inBlock && token.kind == .mark .rightBrace) = true := notClosing
    simp only [List.headD_cons, notBrace]
    apply (itemIH depth fuel isDepth spare).bind
    exact (othersIH depth fuel isDepth (by grind)).bind_pure rfl
  case variableDeclaration =>
    intro inLoop token after isVar depth fuel isDepth enough
    obtain ⟨fuel, rfl, spare⟩ := exists_fuel enough
    rw [Walk.declaration, Grammar.declaration, if_pos isVar]
    apply reads_recover finishes (by grind)
    apply follows_peek finishes
    simp only [List.headD_cons, isVar, beq_self_eq_true, if_true]
    apply follows_advance_past finishes
    exact declarationTail_follows finishes (by grind)
  case otherDeclaration =>
    intro inLoop token after notVar statementIH depth fuel isDepth enough
    obtain ⟨fuel, rfl, spare⟩ := exists_fuel enough
    rw [Walk.declaration, Grammar.declaration, if_neg notVar]
    apply reads_recover finishes (by grind)
    apply follows_peek finishes
    simp only [List.headD_cons, notVar, beq_iff_eq, if_false]
    exact statementIH depth fuel isDepth spare

end

end Attempt
end BlockScript
