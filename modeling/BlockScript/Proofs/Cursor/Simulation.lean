import BlockScript.Proofs.Cursor.Walk
import BlockScript.Proofs.Grammar.Reading

/-!
# The cursor and the grammar

Each function of the cursor reader follows the rule of the grammar that has its name: wherever the
cursor stands in front of some tokens, the function ends as the rule replies on them. So it ends,
without a crash, and with the cursor in front of the tokens that the rule leaves unread. There is
one lemma for each way to build a reply, and so one for each rule.
-/

namespace BlockScript

variable {α β : Type} {least first depth : Nat} {tokens input : List Token}

/-- Wherever the cursor stands in front of the input, the attempt ends as the reply says. -/
def Attempt.Follows (tokens : List Token) (depth : Nat) (attempt : Attempt α) :
    Reply α least input → Prop
  | .parsed value noted rest =>
      Walk.Reads tokens depth input attempt.run (.ok value) noted rest.tokens
  | .failed error noted rest =>
      Walk.Reads tokens depth input attempt.run (.error error) noted rest.tokens

/-- A call that is given enough fuel hands on one unit less. -/
theorem exists_fuel {needed fuel : Nat} (enough : needed + 1 ≤ fuel) :
    ∃ less, fuel = less + 1 ∧ needed ≤ less :=
  ⟨fuel - 1, by omega, by omega⟩

theorem Level.rank_le (level : Level) : level.rank ≤ 9 := by
  cases level with
  | chain chain => cases chain <;> decide
  | _ => decide

namespace Attempt

open Walk

variable {attempt : Attempt α} {next : α → Attempt β} {value : α} {outcome : Except SyntaxError β}
variable {earlier later noted : List SyntaxError} {middle unread : List Token}

/-! ## Attempts in a row -/

theorem reads_bind_ok (reads : Reads tokens depth input attempt.run (.ok value) earlier middle)
    (continued : Reads tokens depth middle (next value).run outcome later unread) :
    Reads tokens depth input (attempt >>= next).run outcome (earlier ++ later) unread :=
  reads.bind continued

theorem reads_bind_error {error : SyntaxError}
    (reads : Reads tokens depth input attempt.run (.error error) noted unread) :
    Reads tokens depth input (attempt >>= next).run (.error error) noted unread :=
  reads.bind_pure rfl

/-- A walk stops no attempt. -/
theorem reads_lift {walk : Walk α} (reads : Reads tokens depth input walk value noted unread) :
    Reads tokens depth input (liftM walk : Attempt α).run (.ok value) noted unread := by
  have lifts : (liftM walk : Attempt α).run = walk >>= fun value => pure (.ok value) := by
    rw [bind_pure_comp]
    rfl
  rw [lifts]
  exact reads.bind_pure rfl

theorem reads_lift_bind {walk : Walk α} (reads : Reads tokens depth input walk value earlier middle)
    (continued : Reads tokens depth middle (next value).run outcome later unread) :
    Reads tokens depth input (liftM walk >>= next).run outcome (earlier ++ later) unread :=
  reads_bind_ok (reads_lift reads) continued

theorem follows_done (value : α) :
    Follows tokens depth (pure value) (Reply.done value : Reply α 0 input) :=
  reads_pure _

/-- A fault that stops nothing is noted, and the attempt goes on. -/
theorem follows_note (error : SyntaxError) (value : α) :
    Follows tokens depth (do modify (Cursor.note error); return value)
      ((Reply.done value : Reply α 0 input).note error) := by
  have reads : Reads tokens depth input
      (do modify (Cursor.note error); return value : Attempt α).run (.ok value) ([error] ++ []) input :=
    reads_lift_bind (reads_note error) (reads_pure _)
  exact reads

variable {reply : Reply α least input}

theorem Follows.map (f : α → β) (follows : Follows tokens depth attempt reply) :
    Follows tokens depth (do return f (← attempt)) (reply.map f) := by
  cases reply with
  | parsed value noted rest => exact Reads.bind_pure follows rfl
  | failed error noted rest => exact reads_bind_error follows

theorem Follows.bind {reply : Reply α first input}
    {rule : α → (rest : Rest first input) → Reply β least rest.tokens}
    (follows : Follows tokens depth attempt reply)
    (continued : ∀ value rest, Follows tokens depth (next value) (rule value rest)) :
    Follows tokens depth (attempt >>= next) (reply.bind rule) := by
  cases reply with
  | failed error noted rest => exact reads_bind_error follows
  | parsed value noted rest =>
      have followsNext := continued value rest
      rw [Reply.bind]
      cases reached : rule value rest with
      | parsed result further last =>
          rw [reached] at followsNext
          exact reads_bind_ok follows followsNext
      | failed error further last =>
          rw [reached] at followsNext
          exact reads_bind_ok follows followsNext

/-! ## Reading one token -/

section

variable (finishes : ∃ token ∈ tokens, token.kind = .finish)
variable {token : Token} {after : List Token} {continued : Token → Attempt β}

include finishes

theorem follows_fail (fault : SyntaxFault) :
    Follows tokens depth (fail tokens fault)
      (Reply.fail (Program.ending tokens) input fault : Reply α least input) :=
  reads_lift_bind (reads_peek finishes) (reads_pure _)

theorem follows_peek {reply : Reply β least input}
    (follows : Follows tokens depth (continued (input.headD (Program.ending tokens))) reply) :
    Follows tokens depth (liftM (peek tokens) >>= continued) reply := by
  cases reply with
  | parsed value noted rest => exact reads_lift_bind (reads_peek finishes) follows
  | failed error noted rest => exact reads_lift_bind (reads_peek finishes) follows

theorem reads_advance_of_eq_cons {rest : Rest 1 input} (split : input = token :: rest.tokens) :
    Reads tokens depth input (advance tokens) token [] rest.tokens := by
  generalize rest.tokens = unread at split ⊢
  subst split
  exact reads_advance finishes

theorem follows_advance {rest : Rest 1 input} {reply : Reply β least rest.tokens}
    (split : input = token :: rest.tokens) (follows : Follows tokens depth (continued token) reply) :
    Follows tokens depth (liftM (advance tokens) >>= continued) (.within rest reply) := by
  have reads : Reads tokens depth input (advance tokens) token [] rest.tokens :=
    reads_advance_of_eq_cons finishes split
  cases reply with
  | parsed value noted last => exact reads_lift_bind reads follows
  | failed error noted last => exact reads_lift_bind reads follows

theorem follows_advance_past {reply : Reply β least after}
    (follows : Follows tokens depth (continued token) reply) :
    Follows tokens depth (liftM (advance tokens) >>= continued) (.past token reply) := by
  cases reply with
  | parsed value noted rest => exact reads_lift_bind (reads_advance finishes) follows
  | failed error noted rest => exact reads_lift_bind (reads_advance finishes) follows

variable {wanted : Kind → Bool} {taken otherwise : Attempt β} {reply : Reply β least input}

/-- A token that the grammar takes is looked at with the same result. -/
theorem follows_take {rest : Rest 1 input} (found : next? wanted input = some (token, rest))
    (follows : Follows tokens depth taken reply) :
    Follows tokens depth (do if wanted (← peek tokens).kind then taken else otherwise) reply := by
  apply follows_peek finishes
  obtain ⟨isWanted, split⟩ := next?_eq_some.mp found
  have isNext : input.headD (Program.ending tokens) = token := by
    generalize rest.tokens = unread at split
    rw [split, List.headD_cons]
  simp only [isNext, isWanted, if_true]
  exact follows

theorem follows_take_advance {rest : Rest 1 input} {reply : Reply β least rest.tokens}
    (found : next? wanted input = some (token, rest))
    (follows : Follows tokens depth (continued token) reply) :
    Follows tokens depth
      (do if wanted (← peek tokens).kind then continued (← advance tokens) else otherwise)
      (.within rest reply) :=
  follows_take finishes found (follows_advance finishes (next?_eq_some.mp found).2 follows)

/-- A token that the grammar does not take is not read, and neither is the end token. -/
theorem follows_leave (absent : next? wanted input = none) (unwanted : wanted .finish = false)
    (follows : Follows tokens depth otherwise reply) :
    Follows tokens depth (do if wanted (← peek tokens).kind then taken else otherwise) reply := by
  apply follows_peek finishes
  have notWanted : wanted (input.headD (Program.ending tokens)).kind = false := by
    cases input with
    | nil => rw [List.headD_nil, (Program.eq_ahead_append finishes).1, unwanted]
    | cons head tail => exact next?_eq_none.mp absent head rfl
  simp only [notWanted, Bool.false_eq_true, if_false]
  exact follows

theorem follows_consume (expected : Expected) :
    Follows tokens depth (consume tokens expected)
      (expect (Program.ending tokens) expected input) := by
  rw [expect]
  cases found : next? (· == expected.kind) input with
  | none =>
      apply follows_leave finishes found (by cases expected <;> rfl)
      exact follows_fail finishes _
  | some pair =>
      obtain ⟨token, rest⟩ := pair
      apply follows_take finishes found
      exact reads_lift (reads_advance_of_eq_cons finishes (next?_eq_some.mp found).2)

/-! ## Expressions

A level needs more fuel than the levels that bind tighter, and much less than what one more token
gives. -/

theorem expression_follows (level : Level) (input : List Token) {fuel : Nat}
    (enough : 11 * input.length + level.rank + 2 ≤ fuel) :
    Follows tokens depth (expression tokens fuel level)
      (Grammar.expression (Program.ending tokens) level input) := by
  -- By the recursion of the grammar. Each call of it reads a token or goes on with a level that binds
  -- tighter, so that one unit of fuel less is still enough.
  refine Grammar.expression.induct
    (fun level input => ∀ fuel, 11 * input.length + level.rank + 2 ≤ fuel →
      Follows tokens depth (expression tokens fuel level)
        (Grammar.expression (Program.ending tokens) level input))
    (fun chain left input => ∀ fuel, 11 * input.length + 1 ≤ fuel →
      Follows tokens depth (joined tokens fuel chain left)
        (Grammar.joined (Program.ending tokens) chain left input))
    ?assignment ?chain ?ternary ?noOperator ?operator ?nothing ?leaf ?grouping ?other ?finished
    ?continued level input fuel enough
  case assignment =>
    intro input orIH valueIH fuel enough
    obtain ⟨fuel, rfl, spare⟩ := exists_fuel enough
    rw [Walk.expression, Grammar.expression]
    apply (orIH fuel (by grind [Level.rank])).bind
    intro target rest
    cases found : next? (· == .mark .equal) rest.tokens with
    | none => exact follows_leave finishes found rfl (follows_done target)
    | some pair =>
        obtain ⟨equals, after⟩ := pair
        apply follows_take_advance finishes found
        apply (valueIH rest after fuel (by grind [Level.rank])).bind
        intro value last
        cases target with
        | «variable» name => exact follows_done _
        | _ => exact follows_note _ _
  case chain =>
    intro input chain operandIH joinedIH fuel enough
    obtain ⟨fuel, rfl, spare⟩ := exists_fuel enough
    rw [Walk.expression, Grammar.expression]
    apply (operandIH fuel (by grind [chain.rank_operand_lt])).bind
    intro left rest
    exact joinedIH left rest fuel (by grind)
  case ternary =>
    intro input equalityIH trueIH falseIH fuel enough
    obtain ⟨fuel, rfl, spare⟩ := exists_fuel enough
    rw [Walk.expression, Grammar.expression]
    apply (equalityIH fuel (by grind [Level.rank])).bind
    intro condition rest
    cases found : next? (· == .mark .question) rest.tokens with
    | none => exact follows_leave finishes found rfl (follows_done condition)
    | some pair =>
        obtain ⟨question, after⟩ := pair
        apply follows_take_advance finishes found
        apply (trueIH rest after fuel (by grind [Level.rank])).bind
        intro whenTrue branchRest
        apply (follows_consume finishes _).bind
        intro colon colonRest
        apply (falseIH rest after branchRest colonRest fuel (by grind [Level.rank])).bind
        intro whenFalse last
        exact follows_done _
  case noOperator =>
    intro input absent primaryIH fuel enough
    obtain ⟨fuel, rfl, spare⟩ := exists_fuel enough
    rw [Walk.expression, Grammar.expression, absent]
    exact follows_leave finishes absent rfl (primaryIH fuel (by grind [Level.rank]))
  case operator =>
    intro input operator after found operandIH fuel enough
    obtain ⟨fuel, rfl, spare⟩ := exists_fuel enough
    rw [Walk.expression, Grammar.expression, found]
    apply follows_take_advance finishes found
    apply (operandIH fuel (by grind)).bind
    intro operand rest
    exact follows_done _
  case nothing =>
    intro fuel enough
    obtain ⟨fuel, rfl, spare⟩ := exists_fuel enough
    rw [Walk.expression, Grammar.expression]
    apply follows_peek finishes
    have isEnd := (Program.eq_ahead_append finishes).1
    have noLeaf : Expr.ofToken? (Program.ending tokens) = none := by simp [Expr.ofToken?, isEnd]
    simp only [List.headD_nil, noLeaf, isEnd]
    exact follows_fail finishes _
  case leaf =>
    intro token after leaf found fuel enough
    obtain ⟨fuel, rfl, spare⟩ := exists_fuel enough
    rw [Walk.expression, Grammar.expression, found]
    apply follows_peek finishes
    simp only [List.headD_cons, found]
    exact follows_advance finishes rfl (follows_done leaf)
  case grouping =>
    intro token after noLeaf isOpening innerIH fuel enough
    obtain ⟨fuel, rfl, spare⟩ := exists_fuel enough
    rw [Walk.expression, Grammar.expression, noLeaf]
    apply follows_peek finishes
    simp only [List.headD_cons, noLeaf, isOpening, beq_self_eq_true, if_true]
    apply follows_advance finishes rfl
    apply (innerIH fuel (by grind [Level.rank])).bind
    intro inner rest
    apply (follows_consume finishes _).bind
    intro closing last
    exact follows_done _
  case other =>
    intro token after noLeaf noParen fuel enough
    obtain ⟨fuel, rfl, spare⟩ := exists_fuel enough
    rw [Walk.expression, Grammar.expression, noLeaf]
    apply follows_peek finishes
    simp only [List.headD_cons, noLeaf, noParen, beq_iff_eq, if_false]
    exact follows_fail finishes _
  case finished =>
    intro chain left input absent fuel enough
    obtain ⟨fuel, rfl, spare⟩ := exists_fuel enough
    rw [Walk.joined, Grammar.joined, absent]
    exact follows_leave finishes absent (by cases chain <;> rfl) (follows_done left)
  case continued =>
    intro chain left input operator after found operandIH joinedIH fuel enough
    obtain ⟨fuel, rfl, spare⟩ := exists_fuel enough
    rw [Walk.joined, Grammar.joined, found]
    apply follows_take_advance finishes found
    apply (operandIH fuel (by grind [chain.rank_operand_lt, Level.rank_le])).bind
    intro right rest
    exact joinedIH right rest fuel (by grind)

/-! ## Parts of statements -/

section Parts

variable {fuel : Nat} (enough : 11 * input.length + 11 ≤ fuel)

include enough

theorem terminated_follows (semicolon : Expected) :
    Follows tokens depth (terminated tokens fuel semicolon)
      (Grammar.terminated (Program.ending tokens) semicolon input) := by
  apply (expression_follows finishes .assignment input enough).bind
  intro value rest
  exact (follows_consume finishes _).map _

theorem expressionStatement_follows :
    Follows tokens depth (expressionStatement tokens fuel)
      (Grammar.expressionStatement (Program.ending tokens) input) :=
  (terminated_follows finishes enough _).map _

theorem declarationTail_follows :
    Follows tokens depth (declarationTail tokens fuel)
      (Grammar.declarationTail (Program.ending tokens) input) := by
  apply (follows_consume finishes _).bind
  intro name rest
  cases found : next? (· == .mark .equal) rest.tokens with
  | none => exact follows_leave finishes found rfl ((follows_consume finishes _).map _)
  | some pair =>
      obtain ⟨equals, after⟩ := pair
      apply follows_take_advance finishes found
      exact (terminated_follows finishes (by grind) _).map _

theorem condition_follows (opening closing : Expected) :
    Follows tokens depth (condition tokens fuel opening closing)
      (Grammar.condition (Program.ending tokens) opening closing input) := by
  apply (follows_consume finishes _).bind
  intro _ rest
  apply (expression_follows finishes .assignment rest.tokens (by grind [Level.rank])).bind
  intro value last
  exact (follows_consume finishes _).map _

theorem initialClause_follows :
    Follows tokens depth (initialClause tokens fuel)
      (Grammar.initialClause (Program.ending tokens) input) := by
  rw [Grammar.initialClause]
  cases found : next? (· == .mark .semicolon) input with
  | some pair =>
      obtain ⟨semicolon, after⟩ := pair
      have reads : Reads tokens depth input (advance tokens) semicolon [] after.tokens :=
        reads_advance_of_eq_cons finishes (next?_eq_some.mp found).2
      exact follows_take finishes found (reads_lift_bind reads (reads_pure _))
  | none =>
      apply follows_leave finishes found rfl
      cases found : next? (· == .keyword .varWord) input with
      | some pair =>
          obtain ⟨keyword, after⟩ := pair
          apply follows_take_advance finishes found
          exact (declarationTail_follows finishes (by grind)).map _
      | none =>
          apply follows_leave finishes found rfl
          exact (expressionStatement_follows finishes enough).map _

theorem optionalClause_follows (closing : Expected) :
    Follows tokens depth (optionalClause tokens fuel closing)
      (Grammar.optionalClause (Program.ending tokens) closing input) := by
  rw [Grammar.optionalClause]
  cases found : next? (· == closing.kind) input with
  | some pair =>
      obtain ⟨token, after⟩ := pair
      apply follows_take finishes found
      rw [pure_bind]
      have follows : Follows tokens depth (consume tokens closing)
          (expect (Program.ending tokens) closing input) := follows_consume finishes closing
      rw [expect, found] at follows
      exact follows.map _
  | none =>
      apply follows_leave finishes found (by cases closing <;> rfl)
      rw [bind_map_left]
      apply (expression_follows finishes .assignment input enough).bind
      intro value rest
      exact (follows_consume finishes _).map _

theorem clauses_follows :
    Follows tokens depth (clauses tokens fuel)
      (Grammar.clauses (Program.ending tokens) input) := by
  apply (follows_consume finishes _).bind
  intro _ rest
  apply (initialClause_follows finishes (by grind)).bind
  intro initial rest
  apply (optionalClause_follows finishes (by grind) _).bind
  intro condition rest
  exact (optionalClause_follows finishes (by grind) _).map _

end Parts

end

end Attempt
end BlockScript
