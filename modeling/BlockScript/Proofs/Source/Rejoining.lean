import BlockScript.Proofs.Source.Spelling

/-!
# Lexemes joined with spaces

The lexemes of a text, joined with spaces, are a text with the same tokens. Whatever stood between
the tokens is gone, be it blanks, comments, characters at fault or nothing at all, and each lexeme is
read to its end again, because a space goes on with none of them. That a string may contain spaces
and slashes makes no difference, since it is closed before the space comes.
-/

namespace BlockScript

namespace Piece

variable {piece : Piece}

theorem delimits_space : Delimits ' ' :=
  ⟨rfl, by decide, by decide, by decide⟩

theorem endsAt_of_isToken (isToken : piece.isToken = true) (stop : Char) : piece.EndsAt stop := by
  cases piece with
  | mark | word | numeral | quoted => trivial
  | blank | comment | openString | stray => cases isToken

theorem error?_of_isToken (isToken : piece.isToken = true) (line : Nat) :
    piece.error? line = none := by
  cases piece with
  | mark | word | numeral | quoted => rfl
  | blank | comment | openString | stray => cases isToken

/-- A token has the text of its piece as its lexeme, on whatever line the piece starts. -/
theorem map_lexeme_token? (line : Nat) (piece : Piece) :
    (piece.token? line).map Token.lexeme = if piece.isToken then some piece.lexeme else none := by
  cases piece <;> rfl

/-- What is read off pieces without their lines does not depend on where the pieces start. -/
theorem filterMap_numbered {α : Type} {read : Nat × Piece → Option α} {plain : Piece → Option α}
    (same : ∀ line piece, read (line, piece) = plain piece) (line : Nat) (pieces : List Piece) :
    (numbered line pieces).filterMap read = pieces.filterMap plain := by
  induction pieces generalizing line with
  | nil => rfl
  | cons piece rest inductionHypothesis =>
      rw [numbered, List.filterMap_cons, List.filterMap_cons, same, inductionHypothesis]

/-- The text of pieces with a space after each of them. -/
def spaced (pieces : List Piece) : List Char :=
  pieces.flatMap fun piece => piece.text ++ [' ']

/-- Pieces that become tokens are read again if there is a space after each of them. -/
theorem ofText_spaced {pieces : List Piece}
    (tokens : ∀ piece ∈ pieces, piece.Spelled ∧ piece.isToken = true) :
    ofText (spaced pieces) = pieces.flatMap fun piece => [piece, blank ' '] := by
  have space (rest : List Char) : ofText (' ' :: rest) = blank ' ' :: ofText rest := ofText_cons rfl
  induction pieces with
  | nil => rw [spaced, List.flatMap_nil, ofText, List.flatMap_nil]
  | cons piece rest inductionHypothesis =>
      obtain ⟨⟨spelled, isToken⟩, restTokens⟩ := List.forall_mem_cons.mp tokens
      have text : spaced (piece :: rest) = piece.text ++ ' ' :: spaced rest := by simp [spaced]
      rw [text, spelled.ofText_append delimits_space (endsAt_of_isToken isToken ' '), space,
        inductionHypothesis restTokens]
      rfl

/-- The space after each piece becomes no token. -/
theorem filter_spaced {pieces : List Piece} (tokens : ∀ piece ∈ pieces, piece.isToken = true) :
    (pieces.flatMap fun piece => [piece, blank ' ']).filter isToken = pieces := by
  have noToken : (blank ' ').isToken = false := rfl
  induction pieces with
  | nil => rfl
  | cons piece rest inductionHypothesis =>
      obtain ⟨isToken, restTokens⟩ := List.forall_mem_cons.mp tokens
      simp [isToken, noToken, inductionHypothesis restTokens]

end Piece

namespace Lexed

/-- The lexemes of all tokens, the last of which is empty, joined with spaces. -/
def joined (lexed : Lexed) : String :=
  " ".intercalate (lexed.tokens.map Token.lexeme)

/-- The pieces of a text that become its tokens. -/
def tokenPieces (source : String) : List Piece :=
  (Piece.ofText source.toList).filter Piece.isToken

theorem lexemes_eq (source : String) :
    (ofText source).tokens.map Token.lexeme = (tokenPieces source).map Piece.lexeme ++ [""] := by
  have lexemes : ((Piece.numbered 1 (Piece.ofText source.toList)).filterMap fun place =>
      (place.2.token? place.1).map Token.lexeme) = (tokenPieces source).map Piece.lexeme := by
    rw [Piece.filterMap_numbered Piece.map_lexeme_token?, tokenPieces, ← List.filterMap_eq_map,
      List.filterMap_filter]
    rfl
  rw [ofText, List.map_append, List.map_filterMap, lexemes]
  rfl

/-- Joined with spaces, the lexemes are the texts of the pieces with a space after each of them. -/
theorem toList_joined (source : String) :
    (ofText source).joined.toList = Piece.spaced (tokenPieces source) := by
  rw [joined, lexemes_eq]
  induction tokenPieces source with
  | nil => rfl
  | cons piece rest inductionHypothesis =>
      have nonempty : rest.map Piece.lexeme ++ [""] ≠ [] := by simp
      rw [List.map_cons, List.cons_append, String.intercalate_cons_of_ne_nil nonempty,
        String.toList_append, inductionHypothesis]
      simp [Piece.spaced, Piece.lexeme]

/-- The pieces of a text that become its tokens are those of its joined lexemes too, and nothing but
spaces stands between them there. -/
theorem ofText_joined (source : String) :
    Piece.ofText (ofText source).joined.toList =
      (tokenPieces source).flatMap fun piece => [piece, .blank ' '] := by
  rw [toList_joined]
  apply Piece.ofText_spaced
  intro piece member
  obtain ⟨inText, isToken⟩ := List.mem_filter.mp member
  exact ⟨Piece.spelled_of_mem_ofText inText, isToken⟩

theorem tokenPieces_joined (source : String) :
    tokenPieces (ofText source).joined = tokenPieces source := by
  rw [tokenPieces, ofText_joined]
  exact Piece.filter_spaced fun piece member => (List.mem_filter.mp member).2

theorem errors_joined (source : String) : (ofText (ofText source).joined).errors = [] := by
  have noError : ∀ piece ∈ Piece.ofText (ofText source).joined.toList,
      ∀ line, piece.error? line = none := by
    rw [ofText_joined]
    intro piece member line
    obtain ⟨token, isTokenPiece, isHere⟩ := List.mem_flatMap.mp member
    have isToken := (List.mem_filter.mp isTokenPiece).2
    rcases List.mem_cons.mp isHere with rfl | isSpace
    · exact Piece.error?_of_isToken isToken line
    · cases List.mem_singleton.mp isSpace
      rfl
  rw [ofText]
  apply List.filterMap_eq_nil_iff.mpr
  intro place member
  exact noError _ (Piece.mem_of_mem_numbered member) _

/-- The lexemes of a text joined with spaces are read without an error, as tokens of the same kinds
with the same lexemes and literals, in the same order. So joining the lexemes of what has been joined
already changes nothing. -/
theorem ofText_rejoined (source : String) :
    (ofText (ofText source).joined).errors = [] ∧
      (ofText (ofText source).joined).tokens.map
          (fun token => (token.kind, token.lexeme, token.literal)) =
        (ofText source).tokens.map (fun token => (token.kind, token.lexeme, token.literal)) ∧
      (ofText (ofText source).joined).joined = (ofText source).joined := by
  have sameLexemes : (ofText (ofText source).joined).tokens.map Token.lexeme =
      (ofText source).tokens.map Token.lexeme := by
    rw [lexemes_eq, lexemes_eq, tokenPieces_joined]
  refine ⟨errors_joined source, ?_, congrArg (" ".intercalate ·) sameLexemes⟩
  -- The lexemes determine the tokens, but for their lines.
  have sameTokens := map_relocate_eq_of_lexemes sameLexemes
  simpa [Function.comp_def, Token.relocate] using
    congrArg (List.map fun token => (token.kind, token.lexeme, token.literal)) sameTokens

/-- Comments, line breaks and stray characters go, and what touched is kept apart. -/
example : (ofText "a+\"b  c\"// d\n@!= e").joined = "a + \"b  c\" != e " := by decide +kernel

end Lexed
end BlockScript
