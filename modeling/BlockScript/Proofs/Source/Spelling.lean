import BlockScript.Proofs.Source.LineBreak
import BlockScript.Proofs.Source.LongestMatch

/-!
# How tokens are spelled

A text is spelled by one piece at most, and a token of a source text says no more than the piece that
it was read from. Tokens that are spelled alike are therefore the same token, on whatever lines they
stand: `Token.Spelled.unique` says so of single tokens and `Lexed.map_relocate_eq_of_lexemes` of the
tokens of whole texts.
-/

namespace BlockScript

/-- Where lines go that are not to count. -/
def nowhere (_ : Nat) : Nat :=
  0

/-! ## Pieces -/

namespace Piece

def isToken : Piece → Bool
  | mark _ | word _ | numeral _ _ | quoted _ => true
  | blank _ | comment _ | openString _ | stray _ => false

def isFault : Piece → Bool
  | openString _ | stray _ => true
  | mark _ | word _ | numeral _ _ | quoted _ | blank _ | comment _ => false

/-- A text that is spelled as a piece has this piece as its first one. That piece is not shorter, and
the text is not longer. -/
theorem Spelled.first_eq {piece : Piece} (spelled : piece.Spelled) {char : Char} {rest : List Char}
    (isText : piece.text = char :: rest) : first char rest = (piece, []) := by
  have begins : piece.Begins (char :: rest) [] :=
    ⟨spelled, by rw [List.append_nil, isText], fun _ _ => rfl⟩
  rcases begins.outdone with longer | isFirst
  · have whole := congrArg List.length (text_first char rest)
    rw [← isText, List.length_append] at whole
    omega
  · exact isFirst

theorem Spelled.unique {left right : Piece} (leftSpelled : left.Spelled)
    (rightSpelled : right.Spelled) (same : left.text = right.text) : left = right := by
  obtain ⟨char, rest, isText⟩ := List.exists_cons_of_ne_nil rightSpelled.text_ne_nil
  exact congrArg Prod.fst
    ((leftSpelled.first_eq (same.trans isText)).symm.trans (rightSpelled.first_eq isText))

theorem ofText_cons {piece : Piece} {char : Char} {rest after : List Char}
    (same : first char rest = (piece, after)) : ofText (char :: rest) = piece :: ofText after := by
  rw [ofText, same]

/-- A piece is read to its end if a delimiting character follows that ends it. -/
theorem Spelled.ofText_append {piece : Piece} (spelled : piece.Spelled) {stop : Char}
    (delimits : Delimits stop) (ends : piece.EndsAt stop) (next : List Char) :
    ofText (piece.text ++ stop :: next) = piece :: ofText (stop :: next) := by
  obtain ⟨char, rest, isText⟩ := List.exists_cons_of_ne_nil spelled.text_ne_nil
  have isFirst := spelled.first_eq isText
  have endsFirst : (first char rest).1.EndsAt stop := by rwa [isFirst]
  have delimited := first_append next delimits char rest endsFirst
  rw [isFirst] at delimited
  rw [isText, List.cons_append]
  exact ofText_cons delimited

/-- The pieces that a text splits into are pieces that there are. -/
theorem spelled_of_mem_ofText {source : List Char} {piece : Piece}
    (member : piece ∈ ofText source) : piece.Spelled := by
  have splits : Splits source (ofText source) := splits_iff.mpr rfl
  generalize ofText source = pieces at splits member
  induction splits with
  | nil => cases member
  | cons first _ inductionHypothesis =>
      cases member with
      | head => exact first.begins.spelled
      | tail _ later => exact inductionHypothesis later

theorem mem_of_mem_numbered {line place : Nat} {piece : Piece} {pieces : List Piece}
    (member : (place, piece) ∈ numbered line pieces) : piece ∈ pieces := by
  induction pieces generalizing line with
  | nil => cases member
  | cons other rest inductionHypothesis =>
      cases member with
      | head => exact List.mem_cons_self
      | tail _ later => exact List.mem_cons_of_mem _ (inductionHypothesis later)

end Piece

/-! ## Tokens -/

/-- The tokens that source texts consist of. -/
inductive Token.Spelled : Token → Prop where
  | mark (sign : Mark) (line : Nat) : Spelled ⟨.mark sign, .ofList sign.spelling, none, line⟩
  | keyword (reserved : Keyword) (line : Nat) :
      Spelled ⟨.keyword reserved, reserved.spelling, none, line⟩
  | name {letters : List Char} (spelled : (Piece.word letters).Spelled)
      (free : Kind.ofWord (.ofList letters) = .identifier) (line : Nat) :
      Spelled ⟨.identifier, .ofList letters, none, line⟩
  | number {whole fraction : List Char} (spelled : (Piece.numeral whole fraction).Spelled)
      (line : Nat) :
      Spelled ⟨.number, (Piece.numeral whole fraction).lexeme,
        some (.number (Number.ofDigits whole fraction)), line⟩
  | text {contents : List Char} (spelled : (Piece.quoted contents).Spelled) (line : Nat) :
      Spelled ⟨.text, (Piece.quoted contents).lexeme, some (.text (.ofList contents)), line⟩
  | finish (line : Nat) : Spelled (.finish line)

/-- The token of a piece has one of the forms of tokens. -/
theorem Piece.Spelled.token {piece : Piece} (spelled : piece.Spelled) {line : Nat} {token : Token}
    (read : piece.token? line = some token) : token.Spelled := by
  cases piece <;> cases read
  case mark sign => exact .mark sign line
  case word letters =>
    cases found : Keyword.ofSpelling? (Piece.word letters).lexeme with
    | some reserved =>
        simp only [Kind.ofWord, found]
        rw [← Keyword.spelling_of_ofSpelling? found]
        exact .keyword reserved line
    | none =>
        have free : Kind.ofWord (Piece.word letters).lexeme = .identifier := by
          rw [Kind.ofWord, found]
        rw [free]
        exact .name spelled free line
  case numeral => exact .number spelled line
  case quoted => exact .text spelled _

theorem Keyword.spelled_word (reserved : Keyword) :
    (Piece.word reserved.spelling.toList).Spelled := by
  cases reserved <;> exact .word rfl (List.all_eq_true.mp rfl)

theorem Kind.ofWord_spelling (reserved : Keyword) :
    ofWord reserved.spelling = .keyword reserved := by
  cases reserved <;> rfl

namespace Token.Spelled

variable {token left right : Token}

/-- A token is that of a piece, but for its line, or it is the end of a text. -/
theorem exists_piece (spelled : token.Spelled) :
    (∃ piece : Piece, piece.Spelled ∧ token.lexeme = piece.lexeme ∧
        (piece.token? 0).map (·.relocate nowhere) = some (token.relocate nowhere)) ∨
      ∃ line, token = .finish line := by
  cases spelled with
  | mark sign line => exact .inl ⟨.mark sign, .mark sign, rfl, rfl⟩
  | keyword reserved line =>
      refine .inl ⟨.word reserved.spelling.toList, reserved.spelled_word, ?_, ?_⟩ <;>
        simp [Piece.token?, Piece.lexeme, Piece.text, Kind.ofWord_spelling, relocate, nowhere]
  | @name letters spelled free line =>
      refine .inl ⟨.word letters, spelled, rfl, ?_⟩
      simp [Piece.token?, Piece.lexeme, Piece.text, free, relocate, nowhere]
  | number spelled line | text spelled line => exact .inl ⟨_, spelled, rfl, rfl⟩
  | finish line => exact .inr ⟨line, rfl⟩

/-- A token is determined by its lexeme, but for its line. -/
theorem unique (leftSpelled : left.Spelled) (rightSpelled : right.Spelled)
    (same : left.lexeme = right.lexeme) : left.relocate nowhere = right.relocate nowhere := by
  have notEmpty {piece : Piece} (spelled : piece.Spelled) : piece.lexeme ≠ "" := by
    intro empty
    exact spelled.text_ne_nil (String.ofList_injective empty)
  -- The end of a text is the only token that is spelled with nothing.
  obtain ⟨piece, spelled, isLexeme, isLeft⟩ | ⟨line, rfl⟩ := leftSpelled.exists_piece <;>
    obtain ⟨other, otherSpelled, isOtherLexeme, isRight⟩ | ⟨otherLine, rfl⟩ :=
      rightSpelled.exists_piece
  · have sameText : piece.text = other.text := by
      apply String.ofList_injective
      exact isLexeme.symm.trans (same.trans isOtherLexeme)
    obtain rfl := spelled.unique otherSpelled sameText
    exact Option.some.inj (isLeft.symm.trans isRight)
  · exact absurd (isLexeme.symm.trans same) (notEmpty spelled)
  · exact absurd (isOtherLexeme.symm.trans same.symm) (notEmpty otherSpelled)
  · rfl

end Token.Spelled

namespace Lexed

theorem spelled_of_mem {source : String} {token : Token}
    (member : token ∈ (ofText source).tokens) : token.Spelled := by
  rw [ofText] at member
  rcases List.mem_append.mp member with isRead | isEnd
  · obtain ⟨⟨line, piece⟩, placed, read⟩ := List.mem_filterMap.mp isRead
    have inText := Piece.mem_of_mem_numbered placed
    exact (Piece.spelled_of_mem_ofText inText).token read
  · cases List.mem_singleton.mp isEnd
    exact .finish _

/-- Texts whose tokens are spelled alike have the same tokens, but for the lines of these. -/
theorem map_relocate_eq_of_lexemes {first second : String}
    (alike : (ofText first).tokens.map Token.lexeme = (ofText second).tokens.map Token.lexeme) :
    (ofText first).tokens.map (·.relocate nowhere) =
      (ofText second).tokens.map (·.relocate nowhere) := by
  have firstSpelled : ∀ token ∈ (ofText first).tokens, token.Spelled := fun _ => spelled_of_mem
  have secondSpelled : ∀ token ∈ (ofText second).tokens, token.Spelled := fun _ => spelled_of_mem
  generalize (ofText first).tokens = left, (ofText second).tokens = right at *
  induction left generalizing right with
  | nil =>
      cases right with
      | nil => rfl
      | cons => cases alike
  | cons token rest inductionHypothesis =>
      cases right with
      | nil => cases alike
      | cons other others =>
          obtain ⟨sameLexeme, restAlike⟩ := List.cons.inj alike
          rw [List.forall_mem_cons] at firstSpelled secondSpelled
          rw [List.map_cons, List.map_cons, firstSpelled.1.unique secondSpelled.1 sameLexeme,
            inductionHypothesis _ restAlike firstSpelled.2 secondSpelled.2]

end Lexed

end BlockScript
