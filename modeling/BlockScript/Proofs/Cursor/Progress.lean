import BlockScript.Proofs.Cursor.Statement
import BlockScript.Proofs.Grammar.Acceptance

/-!
# Readings end

A cursor reader of tokens with an end token among them makes of them what the grammar makes of them,
and ends in front of the first end token, which it never passes. Each declaration on the way there
moves the cursor on, even if nothing of it can be read, and this is why reading ends.
-/

namespace BlockScript

section

variable {tokens : List Token} (finishes : ∃ token ∈ tokens, token.kind = .finish)

include finishes

namespace Program

/-- Cut off after the first end token, a list consists of the tokens ahead of it and that token. -/
theorem take_finish : tokens.take (tokens.findIdx (·.kind == .finish) + 1) =
    ahead tokens ++ [ending tokens] := by
  obtain ⟨-, beyond, split⟩ := eq_ahead_append finishes
  rw [← length_ahead]
  generalize ahead tokens = before, ending tokens = finish at split ⊢
  subst split
  exact List.take_length_add_append 1

theorem ahead_take :
    ahead (tokens.take (tokens.findIdx (·.kind == .finish) + 1)) = ahead tokens := by
  rw [take_finish finishes, ahead_append_finish (eq_ahead_append finishes).1 fun _ member =>
    kind_ne_finish_of_mem_ahead member]

theorem ending_take :
    ending (tokens.take (tokens.findIdx (·.kind == .finish) + 1)) = ending tokens := by
  rw [take_finish finishes, ending_append_finish (eq_ahead_append finishes).1 fun _ member =>
    kind_ne_finish_of_mem_ahead member]

/-- What comes after the first end token does not belong to the program. -/
theorem ofTokens_take :
    ofTokens (tokens.take (tokens.findIdx (·.kind == .finish) + 1)) = ofTokens tokens := by
  rw [ofTokens, ahead_take finishes, ending_take finishes, ofTokens]

end Program

namespace Walk

/-- A program is read as the grammar reads it, and all of it is read. -/
theorem ends_parse {fuel : Nat} (enough : 11 * (Program.ahead tokens).length + 14 ≤ fuel) :
    ∃ after, (parse tokens fuel).Ends .start (Program.ofTokens tokens).statements after ∧
      after.At tokens 0 [] ∧ after.errors = (Program.ofTokens tokens).errors := by
  have stands : Cursor.start.At tokens 0 (Program.ahead tokens) :=
    ⟨List.suffix_refl _, Nat.zero_add _, Nat.zero_le _, rfl⟩
  have reads := (Attempt.statements_follow finishes).2.1 false false (Program.ahead tokens) 0 fuel
    rfl enough
  obtain ⟨after, ends, standsThere, errors⟩ := reads .start stands
  rw [Grammar.tokens_rest_items] at standsThere
  exact ⟨after, ends, standsThere, errors⟩

/-- A declaration moves the cursor on, with or without a fault in it. -/
theorem ends_declaration {fuel depth : Nat} {token : Token} {after : List Token} {before : Cursor}
    (enough : 11 * (token :: after).length + 13 ≤ fuel)
    (stands : before.At tokens depth (token :: after)) :
    ∃ outcome reached unread, (declaration tokens fuel).Ends before outcome reached ∧
      reached.At tokens depth unread ∧ before.current < reached.current := by
  have reads := (Attempt.statements_follow finishes).2.2 (decide (0 < depth)) token after depth fuel
    rfl enough
  obtain ⟨reached, ends, standsThere, -⟩ := reads before stands
  have started := stands.position
  have position := standsThere.position
  have shorter :=
    (Grammar.declaration (Program.ending tokens) (decide (0 < depth)) token after).rest.shorter
  exact ⟨_, reached, _, ends, standsThere, by omega⟩

/-- Reading tokens with an end token among them comes to an end, without an index outside of the
tokens and without leaving a loop too often. Calls are not nested deeper than the number of tokens
allows. The cursor ends in front of the first end token and is never beyond it. Each declaration
that is read in front of that token moves the cursor on and leaves the depth of loops as it is. What
is read is what the grammar reads, so it is the same without the tokens after the first end token. -/
theorem parse_progress :
    let finish := tokens.findIdx (·.kind == .finish)
    ∀ fuel, 11 * finish + 14 ≤ fuel →
    (∃ after, (parse tokens fuel).Ends .start (Program.ofTokens tokens).statements after ∧
      after.errors = (Program.ofTokens tokens).errors ∧ after.current = finish ∧
      after.farthest ≤ finish ∧ after.loopDepth = 0) ∧
    (∀ before : Cursor, before.current < finish → before.farthest ≤ finish →
      ∃ outcome after, (declaration tokens fuel).Ends before outcome after ∧
        before.current < after.current ∧ after.current ≤ finish ∧ after.farthest ≤ finish ∧
        after.loopDepth = before.loopDepth) ∧
    ∃ after, (parse (tokens.take (finish + 1)) fuel).Ends .start
      (Program.ofTokens tokens).statements after ∧ after.errors = (Program.ofTokens tokens).errors := by
  intro finish fuel enough
  have finish_eq : (Program.ahead tokens).length = finish := Program.length_ahead tokens
  have enoughAhead : 11 * (Program.ahead tokens).length + 14 ≤ fuel := by omega
  refine ⟨?parses, ?moves, ?cut⟩
  case parses =>
    obtain ⟨after, ends, stands, errors⟩ := ends_parse finishes enoughAhead
    have position : after.current = (Program.ahead tokens).length := stands.position
    exact ⟨after, ends, errors, position.trans finish_eq, finish_eq ▸ stands.farthest_le,
      stands.depth_eq⟩
  case moves =>
    intro before inFront farthest_le
    rw [← finish_eq] at inFront farthest_le
    have stands := Cursor.At.drop (Nat.le_of_lt inFront) farthest_le
    rw [List.drop_eq_getElem_cons inFront] at stands
    have enoughLeft : 11 * ((Program.ahead tokens)[before.current] ::
        (Program.ahead tokens).drop (before.current + 1)).length + 13 ≤ fuel := by
      have position := stands.position
      omega
    obtain ⟨outcome, after, unread, ends, standsThere, moved⟩ :=
      ends_declaration finishes enoughLeft stands
    have position := standsThere.position
    exact ⟨outcome, after, ends, moved, by omega, finish_eq ▸ standsThere.farthest_le,
      standsThere.depth_eq⟩
  case cut =>
    have cutFinishes : ∃ token ∈ tokens.take (finish + 1), token.kind = .finish := by
      rw [Program.take_finish finishes]
      exact ⟨_, List.mem_append_right _ List.mem_cons_self, (Program.eq_ahead_append finishes).1⟩
    have cutEnough : 11 * (Program.ahead (tokens.take (finish + 1))).length + 14 ≤ fuel := by
      rw [Program.ahead_take finishes]
      exact enoughAhead
    obtain ⟨after, ends, -, errors⟩ := ends_parse cutFinishes cutEnough
    rw [Program.ofTokens_take finishes] at ends errors
    exact ⟨after, ends, errors⟩

end Walk

end

/-- A keyword at which no declaration can start, and at which recovery would stop if it did not give
up a token first. -/
def strayKeyword : List Token :=
  [plainToken (.keyword .classWord) "class", plainToken (.mark .semicolon) ";", .finish 1,
    plainToken .identifier "a"]

/-- Both tokens in front of the end are given up, and the keyword is blamed. -/
theorem Walk.parse_strayKeyword :
    (∃ token ∈ strayKeyword, token.kind = .finish) ∧
      11 * strayKeyword.findIdx (·.kind == .finish) + 14 ≤ 36 ∧
      (∃ after, (parse strayKeyword 36).Ends .start [] after ∧
        after.errors = [⟨plainToken (.keyword .classWord) "class", .missingExpression⟩] ∧
        after.current = 2) ∧
      ∃ outcome after, (declaration strayKeyword 36).Ends .start outcome after ∧
        0 < after.current ∧ after.current ≤ 2 := by
  have finishes : ∃ token ∈ strayKeyword, token.kind = .finish := by decide
  have read : Program.ofTokens strayKeyword =
      ⟨[], [⟨plainToken (.keyword .classWord) "class", .missingExpression⟩]⟩ := by
    cbv
  have finish : strayKeyword.findIdx (·.kind == .finish) = 2 := by decide
  have enough : 11 * strayKeyword.findIdx (·.kind == .finish) + 14 ≤ 36 := by rw [finish]
  obtain ⟨⟨after, ends, errors, current, -⟩, moves, -⟩ := parse_progress finishes 36 enough
  obtain ⟨outcome, further, endsDeclaration, moved, bounded, -⟩ :=
    moves .start (by rw [finish]; decide) (Nat.zero_le _)
  rw [finish] at current bounded
  rw [read] at ends errors
  exact ⟨finishes, enough, ⟨after, ends, errors, current⟩, outcome, further, endsDeclaration, moved,
    bounded⟩

end BlockScript
