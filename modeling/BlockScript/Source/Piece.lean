import BlockScript.Token.Kind

/-!
# Pieces of source text

Source text falls into pieces: marks, words, numerals, strings, blanks, comments, and the two kinds
of fault, a string that is never closed and a character that begins nothing. Each piece is the
longest that can start where it starts. `Piece.ofText` splits a text, and
`Piece.text_ofText` says that the split accounts for every character.
-/

namespace BlockScript

/-- A digit. Only the ten ASCII digits count. -/
def isDigit (char : Char) : Bool :=
  '0' ≤ char && char ≤ '9'

/-- A character that can begin a word: an ASCII letter or an underscore. -/
def startsWord (char : Char) : Bool :=
  ('a' ≤ char && char ≤ 'z') || ('A' ≤ char && char ≤ 'Z') || char == '_'

def continuesWord (char : Char) : Bool :=
  startsWord char || isDigit char

/-- A character that separates pieces and has no other meaning. -/
def isBlank (char : Char) : Bool :=
  char == ' ' || char == '\r' || char == '\t' || char == '\n'

inductive Piece where
  | mark (mark : Mark)
  | word (letters : List Char)
  /-- A numeral. An empty fraction stands for a numeral without a point. -/
  | numeral (whole fraction : List Char)
  | quoted (contents : List Char)
  | blank (char : Char)
  /-- A comment, without the two slashes that open it. -/
  | comment (contents : List Char)
  /-- A string that the text ends in, without its opening quote. -/
  | openString (contents : List Char)
  | stray (char : Char)
  deriving DecidableEq, Repr

namespace Piece

/-- The characters of a piece, as they stand in the source. -/
def text : Piece → List Char
  | mark sign => sign.spelling
  | word letters => letters
  | numeral whole [] => whole
  | numeral whole fraction => whole ++ '.' :: fraction
  | quoted contents => '"' :: (contents ++ ['"'])
  | blank char => [char]
  | comment contents => '/' :: '/' :: contents
  | openString contents => '"' :: contents
  | stray char => [char]

/-- The string opened by a quote, given what follows the quote. It runs to the next quote, or to the
end of the text if there is none. -/
def ofQuote (rest : List Char) : Piece × List Char :=
  let contents := rest.takeWhile (· != '"')
  match rest.dropWhile (· != '"') with
  | [] => (openString contents, [])
  | _ :: after => (quoted contents, after)

/-- The numeral that starts with a digit. A point belongs to it only if another digit follows. -/
def ofDigit (leading : Char) (rest : List Char) : Piece × List Char :=
  let whole := leading :: rest.takeWhile isDigit
  match rest.dropWhile isDigit with
  | '.' :: digit :: after =>
      if isDigit digit then
        (numeral whole (digit :: after.takeWhile isDigit), after.dropWhile isDigit)
      else
        (numeral whole [], '.' :: digit :: after)
  | after => (numeral whole [], after)

/-- The piece opened by a character that is no blank, quote, digit or letter. Two slashes open a
comment, which runs up to the end of the line. -/
def ofSign (char : Char) (rest : List Char) : Piece × List Char :=
  match Mark.ofChar? char with
  | none => (stray char, rest)
  | some short =>
      match short, rest with
      | .slash, '/' :: after => (comment (after.takeWhile (· != '\n')), after.dropWhile (· != '\n'))
      | _, _ => (mark (short.extend rest).1, (short.extend rest).2)

/-- The longest piece that starts with a character, and what follows the piece. -/
def first (char : Char) (rest : List Char) : Piece × List Char :=
  if isBlank char then
    (blank char, rest)
  else if char = '"' then
    ofQuote rest
  else if isDigit char then
    ofDigit char rest
  else if startsWord char then
    (word (char :: rest.takeWhile continuesWord), rest.dropWhile continuesWord)
  else
    ofSign char rest

theorem text_ofQuote (rest : List Char) :
    (ofQuote rest).1.text ++ (ofQuote rest).2 = '"' :: rest := by
  have parts := List.takeWhile_append_dropWhile (p := (· != '"')) (l := rest)
  unfold ofQuote
  split
  · next noQuote => simpa [text, noQuote] using parts
  · next quote after found =>
      have isQuote : quote = '"' := by
        have := List.head?_dropWhile_not (· != '"') rest
        simpa [found] using this
      rw [found, isQuote] at parts
      simpa [text] using parts

theorem text_ofDigit (leading : Char) (rest : List Char) :
    (ofDigit leading rest).1.text ++ (ofDigit leading rest).2 = leading :: rest := by
  have parts := List.takeWhile_append_dropWhile (p := isDigit) (l := rest)
  unfold ofDigit
  dsimp only
  split
  · next digit after point =>
      rw [point] at parts
      split <;> simpa [text] using parts
  · simp [text, parts]

theorem text_ofSign (char : Char) (rest : List Char) :
    (ofSign char rest).1.text ++ (ofSign char rest).2 = char :: rest := by
  unfold ofSign
  split
  · rfl
  · next short found =>
      have spelled := Mark.spelling_of_ofChar? found
      split
      · next after =>
          have isSlash : '/' = char := by simpa [Mark.spelling] using spelled
          simp [text, ← isSlash]
      · simpa [text, spelled] using Mark.spelling_append_extend short rest

/-- The first piece and what follows it are the whole text. -/
theorem text_first (char : Char) (rest : List Char) :
    (first char rest).1.text ++ (first char rest).2 = char :: rest := by
  unfold first
  split
  · rfl
  split
  · next isQuote => rw [isQuote]; exact text_ofQuote rest
  split
  · exact text_ofDigit char rest
  split
  · simp [text]
  · exact text_ofSign char rest

theorem length_ofSign_le (char : Char) (rest : List Char) :
    (ofSign char rest).2.length ≤ rest.length := by
  unfold ofSign
  split
  · exact Nat.le_refl _
  split
  · next after _ =>
      have := (List.dropWhile_suffix (l := after) (· != '\n')).length_le
      simp only [List.length_cons]
      omega
  · unfold Mark.extend
    split
    · exact Nat.le_succ _
    · exact Nat.le_refl _

/-- What follows the first piece is shorter than the text, so a text has finitely many pieces. -/
theorem length_first_le (char : Char) (rest : List Char) :
    (first char rest).2.length ≤ rest.length := by
  unfold first
  split
  · exact Nat.le_refl _
  split
  · have shorter := (List.dropWhile_suffix (l := rest) (· != '"')).length_le
    unfold ofQuote
    split
    · exact Nat.zero_le _
    · next found =>
        rw [found] at shorter
        exact Nat.le_of_succ_le shorter
  split
  · have shorter := (List.dropWhile_suffix (l := rest) isDigit).length_le
    unfold ofDigit
    dsimp only
    split
    · next after found =>
        rw [found] at shorter
        have shorterStill := (List.dropWhile_suffix (l := after) isDigit).length_le
        simp only [List.length_cons] at shorter
        split
        · dsimp only; omega
        · simpa using shorter
    · exact shorter
  split
  · exact (List.dropWhile_suffix _).length_le
  · exact length_ofSign_le char rest

def ofText : List Char → List Piece
  | [] => []
  | char :: rest => (first char rest).1 :: ofText (first char rest).2
termination_by text => text.length
decreasing_by exact Nat.lt_succ_of_le (length_first_le char rest)

/-- The pieces of a text account for every character of it, in order. -/
theorem text_ofText (source : List Char) : (ofText source).flatMap text = source := by
  fun_induction ofText source with
  | case1 => rfl
  | case2 char rest inductionHypothesis =>
      rw [List.flatMap_cons, inductionHypothesis]
      exact text_first char rest

end Piece
end BlockScript
