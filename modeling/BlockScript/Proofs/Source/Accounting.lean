import BlockScript.Source.Tokens
import BlockScript.Proofs.Source.LongestMatch
import BlockScript.Proofs.Number.Nearest

/-!
# What becomes of each piece of a text

A source text is read as tokens and errors piece by piece: each piece becomes one token or one error
or is skipped, and the token at the end comes on top. Here that is a relation between pieces on one
side and tokens and errors on the other, with lines counted in the text that comes before.
`lexed_longestPieces` says that a source text is read so, from the only pieces that it splits into.
-/

namespace BlockScript

/-- The line on which a text ends that starts on the first line. -/
def lineAfter (text : List Char) : Nat :=
  1 + text.count '\n'

theorem lineAfter_append (before text : List Char) :
    lineAfter (before ++ text) = lineAfter before + text.count '\n' := by
  simp [lineAfter, Nat.add_assoc]

namespace Piece

/-- The token that a piece becomes, if `before` stands before it in the source. -/
inductive TokenOf (before : List Char) : Piece → Token → Prop where
  | mark (sign : Mark) :
      TokenOf before (.mark sign) ⟨.mark sign, .ofList sign.spelling, none, lineAfter before⟩
  | keyword {letters : List Char} (reserved : Keyword)
      (spelled : reserved.spelling.toList = letters) :
      TokenOf before (.word letters) ⟨.keyword reserved, .ofList letters, none, lineAfter before⟩
  | name {letters : List Char} (free : ∀ reserved : Keyword, reserved.spelling.toList ≠ letters) :
      TokenOf before (.word letters) ⟨.identifier, .ofList letters, none, lineAfter before⟩
  | number {whole fraction : List Char} {value : Float}
      (nearest : Binary64.NearestTo (Number.decimalValue whole fraction) value.toBits.toNat)
      (isNumber : value.isNaN = false) :
      TokenOf before (.numeral whole fraction)
        ⟨.number, .ofList (numeral whole fraction).text, some (.number value), lineAfter before⟩
  /-- The value of a string lacks its quotes, and its line is that of the closing one. -/
  | text (contents : List Char) :
      TokenOf before (.quoted contents)
        ⟨.text, .ofList ('"' :: (contents ++ ['"'])), some (.text (.ofList contents)),
          lineAfter (before ++ contents)⟩

/-- The error that a piece is, if `before` stands before it in the source. -/
inductive ErrorOf (before : List Char) : Piece → LexicalError → Prop where
  | unexpected {char : Char} {error : LexicalError} (line : error.line = lineAfter before)
      (message : error.fault.message = "Unexpected character.") :
      ErrorOf before (.stray char) error
  | unterminated {contents : List Char} {error : LexicalError}
      (line : error.line = lineAfter before)
      (message : error.fault.message = "Unterminated string.") :
      ErrorOf before (.openString contents) error

inductive Skipped : Piece → Prop where
  | blank (char : Char) : Skipped (.blank char)
  | comment (contents : List Char) : Skipped (.comment contents)

/-- The tokens and errors that pieces become, in order, if `before` stands before the first one. -/
inductive ReadAs : List Char → List Piece → List Token → List LexicalError → Prop where
  | finish (before : List Char) : ReadAs before [] [⟨.finish, "", none, lineAfter before⟩] []
  | token {before : List Char} {piece : Piece} {pieces : List Piece} {token : Token}
      {tokens : List Token} {errors : List LexicalError} (becomes : TokenOf before piece token)
      (others : ReadAs (before ++ piece.text) pieces tokens errors) :
      ReadAs before (piece :: pieces) (token :: tokens) errors
  | error {before : List Char} {piece : Piece} {pieces : List Piece} {tokens : List Token}
      {error : LexicalError} {errors : List LexicalError} (becomes : ErrorOf before piece error)
      (others : ReadAs (before ++ piece.text) pieces tokens errors) :
      ReadAs before (piece :: pieces) tokens (error :: errors)
  | skip {before : List Char} {piece : Piece} {pieces : List Piece} {tokens : List Token}
      {errors : List LexicalError} (skipped : Skipped piece)
      (others : ReadAs (before ++ piece.text) pieces tokens errors) :
      ReadAs before (piece :: pieces) tokens errors

theorem tokenOf_word (before letters : List Char) :
    TokenOf before (.word letters)
      ⟨.ofWord (.ofList letters), .ofList letters, none, lineAfter before⟩ := by
  unfold Kind.ofWord
  cases found : Keyword.ofSpelling? (.ofList letters) with
  | some reserved =>
      have spelled := Keyword.spelling_of_ofSpelling? found
      exact .keyword reserved (by simp [spelled])
  | none =>
      refine .name fun reserved spelled => ?_
      have differs := List.find?_eq_none.mp found reserved reserved.mem_all
      exact differs (by simp [← spelled])

/-- A piece that starts on the right line becomes its token or its error or nothing. -/
theorem readAs_cons {before : List Char} {pieces : List Piece} {tokens : List Token}
    {errors : List LexicalError} (piece : Piece)
    (others : ReadAs (before ++ piece.text) pieces tokens errors) :
    ReadAs before (piece :: pieces) ((piece.token? (lineAfter before)).toList ++ tokens)
      ((piece.error? (lineAfter before)).toList ++ errors) := by
  cases piece with
  | mark sign => exact .token (.mark sign) others
  | word letters => exact .token (tokenOf_word before letters) others
  | numeral whole fraction =>
      have ⟨nearest, isNumber⟩ := Number.nearestTo_ofDigits whole fraction
      exact .token (.number nearest isNumber) others
  | quoted contents =>
      have becomes : TokenOf before (quoted contents) _ := .text contents
      have sameLine : (quoted contents).lineBreaks = contents.count '\n' := by
        simp [lineBreaks, text]
      rw [lineAfter_append, ← sameLine] at becomes
      exact .token becomes others
  | blank char => exact .skip (.blank char) others
  | comment contents => exact .skip (.comment contents) others
  | openString contents => exact .error (.unterminated rfl rfl) others
  | stray char => exact .error (.unexpected rfl rfl) others

/-- Numbering the pieces with lines counts the line breaks before each of them. -/
theorem readAs_numbered (before : List Char) (pieces : List Piece) :
    ReadAs before pieces
      ((numbered (lineAfter before) pieces).filterMap (fun (line, piece) => piece.token? line)
        ++ [.finish (lineAfter (before ++ pieces.flatMap text))])
      ((numbered (lineAfter before) pieces).filterMap (fun (line, piece) => piece.error? line)) := by
  induction pieces generalizing before with
  | nil =>
      rw [List.flatMap_nil, List.append_nil]
      exact .finish before
  | cons piece pieces inductionHypothesis =>
      have others := inductionHypothesis (before ++ piece.text)
      rw [lineAfter_append, List.append_assoc, ← List.flatMap_cons] at others
      simp only [numbered, List.filterMap_cons]
      have all := readAs_cons piece others
      cases piece <;> exact all

/-- Lines are counted from one, and no token stands on a line beyond the last one. -/
theorem ReadAs.line_bounds {before : List Char} {pieces : List Piece} {tokens : List Token}
    {errors : List LexicalError} (reads : ReadAs before pieces tokens errors) :
    ∀ token ∈ tokens, 1 ≤ token.line ∧ token.line ≤ lineAfter (before ++ pieces.flatMap text) := by
  induction reads with
  | finish before => simp [lineAfter]
  | @token before piece pieces token tokens errors becomes others inductionHypothesis =>
      rw [List.append_assoc, ← List.flatMap_cons] at inductionHypothesis
      refine List.forall_mem_cons.mpr ⟨?_, inductionHypothesis⟩
      cases becomes <;> simp [lineAfter, Piece.text]
  | error _ _ inductionHypothesis | skip _ _ inductionHypothesis =>
      rwa [List.append_assoc, ← List.flatMap_cons] at inductionHypothesis

end Piece

/-- The lines of a source text are numbered from one, and its tokens stand on these lines. -/
theorem Lexed.line_bounds {source : String} {token : Token}
    (member : token ∈ (ofText source).tokens) :
    1 ≤ token.line ∧ token.line ≤ 1 + source.toList.count '\n' := by
  have reads := Piece.readAs_numbered [] (Piece.ofText source.toList)
  have bounds := reads.line_bounds
  rw [List.nil_append, Piece.text_ofText] at bounds
  exact bounds token member

open Piece in
/-- A source text splits in only one way into pieces that are each the longest where they begin. The
pieces account for every character, and each of them becomes its token or error or is skipped. -/
theorem lexed_longestPieces (source : String) :
    ∃ pieces, Splits source.toList pieces ∧
      (∀ others, Splits source.toList others → others = pieces) ∧
      pieces.flatMap Piece.text = source.toList ∧
      ReadAs [] pieces (Lexed.ofText source).tokens (Lexed.ofText source).errors := by
  refine ⟨ofText source.toList, splits_iff.mpr rfl, fun _ => splits_iff.mp, text_ofText _, ?_⟩
  have all := readAs_numbered [] (ofText source.toList)
  rw [List.nil_append, text_ofText] at all
  exact all

end BlockScript
