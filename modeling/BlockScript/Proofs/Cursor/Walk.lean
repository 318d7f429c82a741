import BlockScript.Proofs.Cursor.Reader
import Mathlib.Data.List.TakeWhile

/-!
# Where walks end

`Walk.Reads` says what a walk does wherever the cursor stands in front of some tokens: it ends
without a crash, with a value, with some faults noted, in front of the tokens that are unread then.
The walks that read one token do so, and what follows one walk by another does so if both do.
-/

namespace BlockScript

variable {α β : Type} {tokens input middle unread : List Token} {depth : Nat}

namespace Program

/-- A list with an end token splits there. -/
theorem eq_ahead_append (finishes : ∃ token ∈ tokens, token.kind = .finish) :
    (ending tokens).kind = .finish ∧
      ∃ beyond, tokens = ahead tokens ++ ending tokens :: beyond := by
  cases found : tokens.find? (·.kind == .finish) with
  | none =>
      obtain ⟨token, member, isFinish⟩ := finishes
      have differs := List.find?_eq_none.mp found token member
      simp [isFinish] at differs
  | some finish =>
      obtain ⟨isFinish, before, beyond, rfl, notFinish⟩ := List.find?_eq_some_iff_append.mp found
      have aheadIs : ahead (before ++ finish :: beyond) = before := by
        rw [ahead, List.takeWhile_append_of_pos (by simpa [bne] using notFinish)]
        simp [bne, isFinish]
      simp only [ending, found]
      exact ⟨by simpa using isFinish, beyond, by rw [aheadIs]⟩

theorem kind_ne_finish_of_mem_ahead {token : Token} (member : token ∈ ahead tokens) :
    token.kind ≠ .finish := by
  simpa using List.mem_takeWhile_imp member

/-- The tokens ahead are those with a lower index than the first end token. -/
theorem ahead_eq_take (tokens : List Token) :
    ahead tokens = tokens.take (tokens.findIdx (·.kind == .finish)) := by
  rw [ahead, List.takeWhile_eq_take_findIdx_not]
  simp only [bne, Bool.not_not]

theorem length_ahead (tokens : List Token) :
    (ahead tokens).length = tokens.findIdx (·.kind == .finish) := by
  rw [ahead_eq_take, List.length_take, Nat.min_eq_left List.findIdx_le_length]

/-- In front of a suffix of the tokens ahead stands its first token, or the end token if it is
empty. -/
theorem getElem?_of_suffix (finishes : ∃ token ∈ tokens, token.kind = .finish)
    (isSuffix : input <:+ ahead tokens) {index : Nat}
    (position : index + input.length = (ahead tokens).length) :
    tokens[index]? = some (input.headD (ending tokens)) := by
  obtain ⟨-, beyond, split⟩ := eq_ahead_append finishes
  obtain ⟨read, whole⟩ := isSuffix
  rw [← whole, List.length_append] at position
  have index_eq : index = read.length := by omega
  generalize ahead tokens = before, ending tokens = finish at split whole ⊢
  subst split whole index_eq
  rw [List.append_assoc, List.getElem?_append_right (Nat.le_refl _)]
  cases input with
  | nil => simp
  | cons token after => simp

end Program

/-- The cursor stands in front of some of the tokens ahead of the first end token, and has never
been beyond that token. -/
structure Cursor.At (tokens : List Token) (depth : Nat) (input : List Token) (cursor : Cursor) :
    Prop where
  isSuffix : input <:+ Program.ahead tokens
  position : cursor.current + input.length = (Program.ahead tokens).length
  farthest_le : cursor.farthest ≤ (Program.ahead tokens).length
  depth_eq : cursor.loopDepth = depth

namespace Cursor.At

variable {cursor : Cursor} {token : Token}

/-- Where the cursor stands tells the tokens in front of it. -/
theorem drop (current_le : cursor.current ≤ (Program.ahead tokens).length)
    (farthest_le : cursor.farthest ≤ (Program.ahead tokens).length) :
    cursor.At tokens cursor.loopDepth ((Program.ahead tokens).drop cursor.current) :=
  { isSuffix := List.drop_suffix _ _
    position := by rw [List.length_drop]; omega
    farthest_le := farthest_le
    depth_eq := rfl }

theorem step (stands : cursor.At tokens depth (token :: input)) :
    cursor.step.At tokens depth input := by
  have position := stands.position
  have farthest_le := stands.farthest_le
  simp only [List.length_cons] at position
  exact
    { isSuffix := (List.suffix_cons token input).trans stands.isSuffix
      position := by simp only [Cursor.step]; omega
      farthest_le := by simp only [Cursor.step]; omega
      depth_eq := stands.depth_eq }

theorem note (stands : cursor.At tokens depth input) (error : SyntaxError) :
    (cursor.note error).At tokens depth input :=
  ⟨stands.isSuffix, stands.position, stands.farthest_le, stands.depth_eq⟩

theorem kind_ne_finish (stands : cursor.At tokens depth (token :: input)) : token.kind ≠ .finish :=
  Program.kind_ne_finish_of_mem_ahead (stands.isSuffix.subset List.mem_cons_self)

end Cursor.At

namespace Walk

variable {before middleCursor after : Cursor} {value : α} {result : β}

theorem ends_pure (value : α) (cursor : Cursor) : (pure value : Walk α).Ends cursor value cursor :=
  rfl

theorem ends_modify (change : Cursor → Cursor) (cursor : Cursor) :
    (modify change : Walk Unit).Ends cursor () (change cursor) :=
  rfl

theorem ends_get (cursor : Cursor) : (get : Walk Cursor).Ends cursor cursor cursor :=
  rfl

theorem ends_loopDepth (cursor : Cursor) : loopDepth.Ends cursor cursor.loopDepth cursor :=
  rfl

theorem Ends.bind {walk : Walk α} {next : α → Walk β} (ends : walk.Ends before value middleCursor)
    (continued : (next value).Ends middleCursor result after) :
    (walk >>= next).Ends before result after := by
  rw [Ends, StateT.run_bind, ends]
  exact continued

theorem ends_leaveLoop {cursor : Cursor} (inLoop : cursor.loopDepth = depth + 1) :
    leaveLoop.Ends cursor () { cursor with loopDepth := depth } := by
  apply (ends_loopDepth cursor).bind
  rw [inLoop]
  exact ends_modify _ cursor

/-- Wherever the cursor stands in front of the input, the walk ends without a crash in front of the
unread tokens. -/
def Reads (tokens : List Token) (depth : Nat) (input : List Token) (walk : Walk α) (value : α)
    (noted : List SyntaxError) (unread : List Token) : Prop :=
  ∀ cursor : Cursor, cursor.At tokens depth input →
    ∃ after : Cursor, walk.Ends cursor value after ∧ after.At tokens depth unread ∧
      after.errors = cursor.errors ++ noted

variable {noted earlier later : List SyntaxError}

theorem reads_pure (value : α) : Reads tokens depth input (pure value) value [] input :=
  fun cursor stands => ⟨cursor, ends_pure value cursor, stands, by simp⟩

theorem reads_note (error : SyntaxError) :
    Reads tokens depth input (modify (Cursor.note error)) () [error] input :=
  fun cursor stands => ⟨cursor.note error, ends_modify _ cursor, stands.note error, rfl⟩

theorem reads_loopDepth : Reads tokens depth input loopDepth depth [] input := by
  intro cursor stands
  have ends := ends_loopDepth cursor
  rw [stands.depth_eq] at ends
  exact ⟨cursor, ends, stands, by simp⟩

theorem Reads.bind {walk : Walk α} {next : α → Walk β}
    (reads : Reads tokens depth input walk value earlier middle)
    (continued : Reads tokens depth middle (next value) result later unread) :
    Reads tokens depth input (walk >>= next) result (earlier ++ later) unread := by
  intro cursor stands
  obtain ⟨reached, ends, standsThere, errors⟩ := reads cursor stands
  obtain ⟨last, endsLast, standsLast, errorsLast⟩ := continued reached standsThere
  exact ⟨last, ends.bind endsLast, standsLast, by rw [errorsLast, errors, List.append_assoc]⟩

/-- A walk whose second part only returns something ends where its first part ends. -/
theorem Reads.bind_pure {walk : Walk α} {next : α → Walk β}
    (reads : Reads tokens depth input walk value noted unread) (returns : next value = pure result) :
    Reads tokens depth input (walk >>= next) result noted unread := by
  rw [← List.append_nil noted]
  apply reads.bind
  rw [returns]
  exact reads_pure result

/-- A walk may be told by where the cursor stands. -/
theorem reads_of_forall {walk : Walk α}
    (reads : ∀ cursor : Cursor, cursor.At tokens depth input →
      Reads tokens depth input walk value noted unread) :
    Reads tokens depth input walk value noted unread :=
  fun cursor stands => reads cursor stands cursor stands

/-! ## Reading one token -/

section

variable (finishes : ∃ token ∈ tokens, token.kind = .finish)

theorem ends_tokenAt {index : Nat} {token : Token} (isToken : tokens[index]? = some token)
    (cursor : Cursor) : (tokenAt tokens index).Ends cursor token cursor := by
  rw [tokenAt, isToken]
  exact ends_pure token cursor

include finishes

theorem reads_peek :
    Reads tokens depth input (peek tokens) (input.headD (Program.ending tokens)) [] input := by
  intro cursor stands
  have isNext := Program.getElem?_of_suffix finishes stands.isSuffix stands.position
  exact ⟨cursor, (ends_get cursor).bind (ends_tokenAt isNext cursor), stands, by simp⟩

theorem reads_previous {last : Token} (precedes : last :: input <:+ Program.ahead tokens) :
    Reads tokens depth input (previous tokens) last [] input := by
  intro cursor stands
  have position := stands.position
  have enough := precedes.length_le
  simp only [List.length_cons] at enough
  have isLast : tokens[cursor.current - 1]? = some last :=
    Program.getElem?_of_suffix finishes precedes (by simp only [List.length_cons]; omega)
  exact ⟨cursor, (ends_get cursor).bind (ends_tokenAt isLast cursor), stands, by simp⟩

theorem reads_atEnd : Reads tokens depth input (atEnd tokens) input.isEmpty [] input := by
  apply reads_of_forall
  intro cursor stands
  have isEnd : ((input.headD (Program.ending tokens)).kind == .finish) = input.isEmpty := by
    cases input with
    | nil => simpa using (Program.eq_ahead_append finishes).1
    | cons token after => simpa using stands.kind_ne_finish
  rw [← isEnd]
  exact (reads_peek finishes).bind_pure rfl

theorem reads_advance {token : Token} {after : List Token} :
    Reads tokens depth (token :: after) (advance tokens) token [] after := by
  apply reads_of_forall
  intro cursor stands
  have steps : Reads tokens depth (token :: after) (modify Cursor.step) () [] after :=
    fun cursor stands => ⟨cursor.step, ends_modify _ cursor, stands.step, by simp [Cursor.step]⟩
  exact (reads_atEnd finishes).bind (steps.bind (reads_previous finishes stands.isSuffix))

/-- The end token stays the next one. What has been read last is a token even if nothing has. -/
theorem reads_advance_nil : ∃ last, Reads tokens depth [] (advance tokens) last [] [] := by
  obtain ⟨-, beyond, split⟩ := Program.eq_ahead_append finishes
  have shorter : (Program.ahead tokens).length < tokens.length := by
    have whole := congrArg List.length split
    simp only [List.length_append, List.length_cons] at whole
    omega
  have inRange : (Program.ahead tokens).length - 1 < tokens.length := by omega
  obtain ⟨last, isLast⟩ : ∃ last, tokens[(Program.ahead tokens).length - 1]? = some last :=
    ⟨_, List.getElem?_eq_getElem inRange⟩
  refine ⟨last, (reads_atEnd finishes).bind ?_⟩
  intro cursor stands
  have position : cursor.current = (Program.ahead tokens).length := stands.position
  rw [← position] at isLast
  exact ⟨cursor, (ends_get cursor).bind (ends_tokenAt isLast cursor), stands, by simp⟩

end

end Walk
end BlockScript
