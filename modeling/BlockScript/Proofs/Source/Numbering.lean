import BlockScript.Proofs.Source.Spelling
import Mathlib.Data.List.Forall2

/-!
# Line numbers

The line of a token is told by its place in the source text: one more than the number of line breaks
before the end of its lexeme. Only a string can contain a line break, so every other token is on the
line on which it starts, and a string is on the line of its closing quote. An error is on the line on
which the piece at fault starts, which for a string that is never closed is the line of its opening
quote. Places only move forward in a text, and therefore so do lines.
-/

namespace BlockScript

/-- A longer part of a text does not end on an earlier line. -/
theorem line_le_of_prefix {shorter longer : List Char} (goesOn : shorter <+: longer) :
    1 + shorter.count '\n' ≤ 1 + longer.count '\n' :=
  Nat.add_le_add_left (goesOn.sublist.count_le '\n') 1

/-- What is read off some items is related to these items, one by one. -/
theorem forall₂_filterMap {α β : Type} {related : α → β → Prop} {keep : α → Bool}
    {read : α → Option β} {items : List α}
    (kept : ∀ item ∈ items, (read item).isSome = keep item)
    (holds : ∀ item ∈ items, ∀ image, read item = some image → related item image) :
    List.Forall₂ related (items.filter keep) (items.filterMap read) := by
  have same : List.Forall₂ (fun item other => item = other ∧ item ∈ items) items items :=
    List.forall₂_same.mpr fun item member => ⟨rfl, member⟩
  rw [← List.filterMap_eq_filter]
  refine List.rel_filterMap ?_ same
  rintro item _ ⟨rfl, member⟩
  have isKept := kept item member
  cases found : read item with
  | none =>
      have notKept : keep item = false := by rw [← isKept, found]; rfl
      simp [Option.guard, notKept]
  | some image =>
      have isKept : keep item = true := by rw [← isKept, found]; rfl
      simpa [Option.guard, isKept] using Option.Rel.some (holds item member image found)

namespace Piece

/-! ## Places -/

/-- The pieces of a text, each with the text before it, if `before` stands before the first one. -/
def placed (before : List Char) : List Piece → List (List Char × Piece)
  | [] => []
  | piece :: rest => (before, piece) :: placed (before ++ piece.text) rest

theorem numbered_eq_map_placed (before : List Char) (pieces : List Piece) :
    numbered (1 + before.count '\n') pieces =
      (placed before pieces).map fun place => (1 + place.1.count '\n', place.2) := by
  induction pieces generalizing before with
  | nil => rfl
  | cons piece rest inductionHypothesis =>
      have others := inductionHypothesis (before ++ piece.text)
      rw [List.count_append, ← Nat.add_assoc] at others
      rw [numbered, lineBreaks, others, placed, List.map_cons]

theorem prefix_of_mem_placed {before : List Char} {pieces : List Piece}
    {place : List Char × Piece} (member : place ∈ placed before pieces) :
    before <+: place.1 ∧ place.1 ++ place.2.text <+: before ++ pieces.flatMap text ∧
      place.2 ∈ pieces := by
  induction pieces generalizing before with
  | nil => cases member
  | cons piece rest inductionHypothesis =>
      rw [List.flatMap_cons, ← List.append_assoc]
      cases member with
      | head => exact ⟨List.prefix_refl _, List.prefix_append _ _, List.mem_cons_self⟩
      | tail _ later =>
          have ⟨starts, ends, isPiece⟩ := inductionHypothesis later
          exact ⟨(List.prefix_append _ _).trans starts, ends, List.mem_cons_of_mem _ isPiece⟩

/-- A piece has ended before the next one starts. -/
theorem pairwise_placed (before : List Char) (pieces : List Piece) :
    (placed before pieces).Pairwise fun first second => first.1 ++ first.2.text <+: second.1 := by
  induction pieces generalizing before with
  | nil => exact .nil
  | cons piece rest inductionHypothesis =>
      exact .cons (fun _ later => (prefix_of_mem_placed later).1) (inductionHypothesis _)

end Piece

/-- The token has the text of the piece as its lexeme and is on the line on which this text ends. -/
structure Token.StandsAt (place : List Char × Piece) (token : Token) : Prop where
  lexeme : token.lexeme.toList = place.2.text
  line : token.line = 1 + (place.1 ++ place.2.text).count '\n'
  /-- Unless the token is a string, its text ends on the line on which it starts. -/
  starts : token.kind ≠ .text → token.line = 1 + place.1.count '\n'

/-- The error is about the piece and on the line on which the piece starts. -/
structure LexicalError.StandsAt (place : List Char × Piece) (error : LexicalError) : Prop where
  line : error.line = 1 + place.1.count '\n'
  message : (∃ char, place.2 = .stray char ∧ error.fault.message = "Unexpected character.") ∨
    ∃ contents, place.2 = .openString contents ∧ error.fault.message = "Unterminated string."

namespace Piece

variable {before : List Char} {piece : Piece} {line : Nat} {token : Token} {error : LexicalError}

theorem isSome_token? (line : Nat) (piece : Piece) :
    (piece.token? line).isSome = piece.isToken := by
  cases piece <;> rfl

theorem isSome_error? (line : Nat) (piece : Piece) :
    (piece.error? line).isSome = piece.isFault := by
  cases piece <;> rfl

/-- Of the pieces that become tokens only strings contain line breaks. -/
theorem Spelled.lineBreaks_eq_zero (spelled : piece.Spelled) (isToken : piece.isToken = true)
    (notQuoted : ∀ contents, piece ≠ .quoted contents) : piece.lineBreaks = 0 := by
  have noDigit : isDigit '\n' = false := rfl
  have noLetter : continuesWord '\n' = false := rfl
  apply List.count_eq_zero.mpr
  cases spelled with
  | mark sign => cases sign <;> decide
  | @word letter others starts continues =>
      intro member
      cases member with
      | head => cases starts
      | tail _ later => cases noLetter.symm.trans (continues _ later)
  | @numeral digit whole fraction digits places =>
      cases fraction with
      | nil =>
          intro member
          cases noDigit.symm.trans (digits _ member)
      | cons place fraction =>
          intro member
          rcases List.mem_append.mp member with inWhole | inFraction
          · cases noDigit.symm.trans (digits _ inWhole)
          · cases inFraction with
            | tail _ inPlaces => cases noDigit.symm.trans (places _ inPlaces)
  | quoted unquoted => exact absurd rfl (notQuoted _)
  | blank | comment | openString | stray => cases isToken

/-- A piece with the text before it gives a token on the line on which it ends. -/
theorem Spelled.standsAt (spelled : piece.Spelled)
    (read : piece.token? (1 + before.count '\n') = some token) :
    token.StandsAt (before, piece) := by
  have isToken : piece.isToken = true := by rw [← isSome_token? (1 + before.count '\n'), read]; rfl
  have ends : 1 + (before ++ piece.text).count '\n' = 1 + before.count '\n' + piece.lineBreaks := by
    rw [List.count_append, lineBreaks, Nat.add_assoc]
  cases piece with
  | quoted contents =>
      cases read
      exact ⟨by simp [lexeme], ends.symm, fun notText => absurd rfl notText⟩
  | mark | word | numeral =>
      have sameLine := spelled.lineBreaks_eq_zero isToken fun contents same => by cases same
      rw [sameLine, Nat.add_zero] at ends
      cases read
      exact ⟨by simp [lexeme], ends.symm, fun _ => rfl⟩
  | blank | comment | openString | stray => cases isToken

theorem standsAt_of_error? (read : piece.error? (1 + before.count '\n') = some error) :
    error.StandsAt (before, piece) := by
  cases piece with
  | stray char =>
      cases read
      exact ⟨rfl, .inl ⟨char, rfl, rfl⟩⟩
  | openString contents =>
      cases read
      exact ⟨rfl, .inr ⟨contents, rfl, rfl⟩⟩
  | mark | word | numeral | quoted | blank | comment => cases read

end Piece

namespace Lexed

/-- The source text consists of the pieces, and each token and each error is on the line that the
place of its piece tells. -/
structure LinesExact (source : List Char) (pieces : List Piece) (lexed : Lexed) : Prop where
  splits : Piece.Splits source pieces
  tokens : List.Forall₂ Token.StandsAt
    ((Piece.placed [] pieces).filter (·.2.isToken)) lexed.tokens.dropLast
  finish : lexed.tokens.getLast? = some (.finish (1 + source.count '\n'))
  errors : List.Forall₂ LexicalError.StandsAt
    ((Piece.placed [] pieces).filter (·.2.isFault)) lexed.errors
  tokensAscend : lexed.tokens.Pairwise fun first second => first.line ≤ second.line
  errorsAscend : lexed.errors.Pairwise fun first second => first.line ≤ second.line
  tokensFromOne : ∀ token ∈ lexed.tokens, 1 ≤ token.line
  errorsFromOne : ∀ error ∈ lexed.errors, 1 ≤ error.line

variable {source : String} {place : List Char × Piece}

/-- The pieces of a source text in their places. -/
def places (source : String) : List (List Char × Piece) :=
  Piece.placed [] (Piece.ofText source.toList)

theorem ofText_eq_of_places (source : String) :
    ofText source =
      ⟨(places source).filterMap (fun place => place.2.token? (1 + place.1.count '\n')) ++
          [.finish (1 + source.toList.count '\n')],
        (places source).filterMap fun place => place.2.error? (1 + place.1.count '\n')⟩ := by
  have fromOne : Piece.numbered 1 (Piece.ofText source.toList) = _ :=
    Piece.numbered_eq_map_placed [] (Piece.ofText source.toList)
  rw [ofText, fromOne, List.filterMap_map, List.filterMap_map]
  rfl

theorem prefix_of_mem_places (member : place ∈ places source) :
    place.1 ++ place.2.text <+: source.toList := by
  have inText := (Piece.prefix_of_mem_placed member).2.1
  rwa [List.nil_append, Piece.text_ofText] at inText

theorem standsAt_of_mem_places (member : place ∈ places source) {token : Token}
    (read : place.2.token? (1 + place.1.count '\n') = some token) : token.StandsAt place :=
  (Piece.spelled_of_mem_ofText (Piece.prefix_of_mem_placed member).2.2).standsAt read

theorem standsAt_of_mem_tokens {token : Token} (member : token ∈ (ofText source).tokens) :
    token = .finish (1 + source.toList.count '\n') ∨ ∃ place ∈ places source, token.StandsAt place := by
  rw [ofText_eq_of_places] at member
  rcases List.mem_append.mp member with isRead | isFinish
  · obtain ⟨place, isPlace, read⟩ := List.mem_filterMap.mp isRead
    exact .inr ⟨place, isPlace, standsAt_of_mem_places isPlace read⟩
  · exact .inl (List.mem_singleton.mp isFinish)

theorem one_le_line_of_mem_tokens {token : Token} (member : token ∈ (ofText source).tokens) :
    1 ≤ token.line := by
  rcases standsAt_of_mem_tokens member with rfl | ⟨place, _, stands⟩
  · exact Nat.le_add_right 1 _
  · rw [stands.line]
    exact Nat.le_add_right 1 _

theorem one_le_line_of_mem_errors {error : LexicalError} (member : error ∈ (ofText source).errors) :
    1 ≤ error.line := by
  rw [ofText_eq_of_places] at member
  obtain ⟨place, _, read⟩ := List.mem_filterMap.mp member
  rw [(Piece.standsAt_of_error? read).line]
  exact Nat.le_add_right 1 _

/-- Tokens are in the order of their lines, because each ends before the next one does. -/
theorem pairwise_line_tokens (source : String) :
    (ofText source).tokens.Pairwise fun first second => first.line ≤ second.line := by
  rw [ofText_eq_of_places]
  refine List.pairwise_append.mpr
    ⟨List.pairwise_filterMap.mpr ?_, List.pairwise_singleton _ _, ?_⟩
  · apply (Piece.pairwise_placed [] _).imp_of_mem
    intro first second isFirst isSecond inFront token read other otherRead
    rw [(standsAt_of_mem_places isFirst read).line, (standsAt_of_mem_places isSecond otherRead).line]
    exact line_le_of_prefix (inFront.trans (List.prefix_append _ _))
  · intro token member finish isFinish
    obtain ⟨place, isPlace, read⟩ := List.mem_filterMap.mp member
    rw [(standsAt_of_mem_places isPlace read).line, List.mem_singleton.mp isFinish]
    exact line_le_of_prefix (prefix_of_mem_places isPlace)

/-- Errors are in the order of their lines, because each starts before the next one does. -/
theorem pairwise_line_errors (source : String) :
    (ofText source).errors.Pairwise fun first second => first.line ≤ second.line := by
  rw [ofText_eq_of_places]
  apply List.pairwise_filterMap.mpr
  apply (Piece.pairwise_placed [] _).imp
  intro first second inFront error read other otherRead
  rw [(Piece.standsAt_of_error? read).line, (Piece.standsAt_of_error? otherRead).line]
  exact line_le_of_prefix ((List.prefix_append _ _).trans inFront)

/-- The lines of a source text are numbered from one, and every token and every error of it is on the
line that its place in the text tells. So lines never descend, neither from token to token nor from
error to error. -/
theorem linesExact_ofText (source : String) :
    ∃ pieces, (ofText source).LinesExact source.toList pieces := by
  refine ⟨Piece.ofText source.toList, Piece.splits_iff.mpr rfl, ?tokens, ?finish, ?errors,
    pairwise_line_tokens source, pairwise_line_errors source,
    fun _ => one_le_line_of_mem_tokens, fun _ => one_le_line_of_mem_errors⟩
  all_goals rw [ofText_eq_of_places]
  case tokens =>
    rw [List.dropLast_concat]
    exact forall₂_filterMap (fun place _ => place.2.isSome_token? _) fun place member token =>
      standsAt_of_mem_places member
  case finish => exact List.getLast?_concat
  case errors =>
    exact forall₂_filterMap (fun place _ => place.2.isSome_error? _) fun place _ error =>
      Piece.standsAt_of_error?

/-- A string is on its last line, and a stray character after it is too. -/
example : (ofText "a\n\"b\nc\" @\n").tokens.map (·.line) = [1, 3, 4] ∧
    (ofText "a\n\"b\nc\" @\n").errors.map (·.line) = [3] := by
  decide +kernel

end Lexed
end BlockScript
