import BlockScript.Proofs.Layout.Relocation

/-!
# Texts joined at a line break

A line break ends whatever piece is open before it, except for a string. So a text that leaves no
string open splits into its pieces on its own, whatever follows it on the next line, and what
follows splits as if it stood alone. Only its lines are other ones.
-/

namespace BlockScript

/-! ## Characters -/

section Runs

variable {α : Type} {wanted : α → Bool} {stop : α} (stops : wanted stop = false)

include stops

/-- A run of wanted elements goes no further than an unwanted one. -/
theorem takeWhile_append_stop (run rest : List α) :
    (run ++ stop :: rest).takeWhile wanted = run.takeWhile wanted := by
  induction run with
  | nil => simp [stops]
  | cons element others inductionHypothesis =>
      simp only [List.cons_append, List.takeWhile_cons, inductionHypothesis]

theorem dropWhile_append_stop (run rest : List α) :
    (run ++ stop :: rest).dropWhile wanted = run.dropWhile wanted ++ stop :: rest := by
  induction run with
  | nil => simp [stops]
  | cons element others inductionHypothesis =>
      simp only [List.cons_append, List.dropWhile_cons, inductionHypothesis]
      split <;> rfl

end Runs

namespace Piece

/-- The character goes on with no word, no numeral and no mark, and opens no comment after a
slash. -/
structure Delimits (stop : Char) : Prop where
  notWord : continuesWord stop = false
  notPoint : stop ≠ '.'
  notEqual : stop ≠ '='
  notSlash : stop ≠ '/'

theorem Delimits.notDigit {stop : Char} (delimits : Delimits stop) : isDigit stop = false :=
  (Bool.or_eq_false_iff.mp delimits.notWord).2

theorem delimits_lineBreak : Delimits '\n' :=
  ⟨rfl, by decide, by decide, by decide⟩

/-- A delimiting character ends the piece. Of all of them only a line break ends a comment, and a
string that is still open is ended by none. -/
def EndsAt (stop : Char) : Piece → Prop
  | comment _ => stop = '\n'
  | openString _ => False
  | _ => True

theorem endsAt_lineBreak {piece : Piece} (closed : ∀ contents, piece ≠ openString contents) :
    piece.EndsAt '\n' := by
  cases piece with
  | comment contents => rfl
  | openString contents => exact absurd rfl (closed contents)
  | _ => trivial

variable (next : List Char)

/-- A string that is closed does not depend on what follows it. -/
theorem ofQuote_append {rest : List Char}
    (closed : ∀ contents, (ofQuote rest).1 ≠ openString contents) :
    ofQuote (rest ++ next) = ((ofQuote rest).1, (ofQuote rest).2 ++ next) := by
  cases found : rest.dropWhile (· != '"') with
  | nil =>
      simp only [ofQuote, found] at closed
      exact absurd rfl (closed _)
  | cons quote after =>
      have parts := List.takeWhile_append_dropWhile (p := (· != '"')) (l := rest)
      have shorter : (rest.takeWhile (· != '"')).length ≠ rest.length := by
        have lengths := congrArg List.length parts
        simp only [found, List.length_append, List.length_cons] at lengths
        omega
      simp [ofQuote, found, List.takeWhile_append, List.dropWhile_append, shorter]

section Delimited

variable {stop : Char} (delimits : Delimits stop)

include delimits

/-- A numeral goes no further than a delimiting character. -/
theorem ofDigit_append (leading : Char) (rest : List Char) :
    ofDigit leading (rest ++ stop :: next) =
      ((ofDigit leading rest).1, (ofDigit leading rest).2 ++ stop :: next) := by
  have noDigit := delimits.notDigit
  simp only [ofDigit, takeWhile_append_stop noDigit, dropWhile_append_stop noDigit]
  -- A point counts by what comes after it, and that may be the delimiting character.
  match rest.dropWhile isDigit with
  | [] => simp [delimits.notPoint]
  | [point] =>
      simp only [List.cons_append, List.nil_append]
      split
      · next digit after same =>
          cases same
          simp [noDigit]
      · rfl
  | point :: digit :: after =>
      by_cases isPoint : point = '.'
      · subst isPoint
        cases counts : isDigit digit with
        | true =>
            simp [counts, takeWhile_append_stop noDigit, dropWhile_append_stop noDigit]
        | false => simp [counts]
      · simp [isPoint]

theorem extend_append (short : Mark) (rest : List Char) :
    short.extend (rest ++ stop :: next) =
      ((short.extend rest).1, (short.extend rest).2 ++ stop :: next) := by
  unfold Mark.extend
  cases short.extended? with
  | none => rfl
  | some long =>
      match rest with
      | [] => simp [delimits.notEqual]
      | char :: after => by_cases isEqual : char = '=' <;> simp [isEqual]

/-- An operator goes no further than a delimiting character, and a comment no further than a line
break. -/
theorem ofSign_append (char : Char) (rest : List Char) (ends : (ofSign char rest).1.EndsAt stop) :
    ofSign char (rest ++ stop :: next) =
      ((ofSign char rest).1, (ofSign char rest).2 ++ stop :: next) := by
  unfold ofSign at ends ⊢
  cases found : Mark.ofChar? char with
  | none => rfl
  | some short =>
      simp only [found] at ends
      by_cases isSlash : short = .slash
      · subst isSlash
        match rest with
        | [] => simp [delimits.notSlash, Mark.extend, Mark.extended?]
        | other :: after =>
            by_cases isComment : other = '/'
            · subst isComment
              have isBreak : stop = '\n' := ends
              have contents : (after ++ stop :: next).takeWhile (· != '\n') =
                  after.takeWhile (· != '\n') := takeWhile_append_stop (by simp [isBreak]) after next
              have others : (after ++ stop :: next).dropWhile (· != '\n') =
                  after.dropWhile (· != '\n') ++ stop :: next :=
                dropWhile_append_stop (by simp [isBreak]) after next
              simp [contents, others]
            · have extended := extend_append next delimits .slash (other :: after)
              rw [List.cons_append] at extended
              simp [isComment, extended]
      · simp [isSlash, extend_append next delimits]

/-- The first piece of a text does not depend on what follows a delimiting character that ends it. -/
theorem first_append (char : Char) (rest : List Char) (ends : (first char rest).1.EndsAt stop) :
    first char (rest ++ stop :: next) =
      ((first char rest).1, (first char rest).2 ++ stop :: next) := by
  unfold first at ends ⊢
  split
  · rfl
  split
  · next notBlank isQuote =>
      rw [if_neg notBlank, if_pos isQuote] at ends
      apply ofQuote_append
      intro contents isOpen
      rw [isOpen] at ends
      exact ends
  split
  · exact ofDigit_append next delimits char rest
  split
  · rw [takeWhile_append_stop delimits.notWord, dropWhile_append_stop delimits.notWord]
  · next notBlank notQuote notDigit notLetter =>
      rw [if_neg notBlank, if_neg notQuote, if_neg notDigit, if_neg notLetter] at ends
      exact ofSign_append next delimits char rest ends

end Delimited

/-- A text that leaves no string open splits at the end of its last line. -/
theorem ofText_append {source : List Char}
    (closed : ∀ contents, openString contents ∉ ofText source) :
    ofText (source ++ '\n' :: next) = ofText source ++ blank '\n' :: ofText next := by
  fun_induction ofText source with
  | case1 =>
      rw [List.nil_append, ofText]
      rfl
  | case2 char rest inductionHypothesis =>
      have firstClosed : ∀ contents, (first char rest).1 ≠ openString contents :=
        fun contents isOpen => closed contents (isOpen ▸ List.mem_cons_self)
      have restClosed : ∀ contents, openString contents ∉ ofText (first char rest).2 :=
        fun contents member => closed contents (List.mem_cons_of_mem _ member)
      rw [List.cons_append, ofText,
        first_append next delimits_lineBreak char rest (endsAt_lineBreak firstClosed),
        List.cons_append, inductionHypothesis restClosed]

/-! ## Lines -/

/-- Further pieces start as many lines later as there are line breaks in the text before them. -/
theorem numbered_append (line : Nat) (pieces more : List Piece) :
    numbered line (pieces ++ more) =
      numbered line pieces ++ numbered (line + (pieces.flatMap text).count '\n') more := by
  induction pieces generalizing line with
  | nil => rfl
  | cons piece rest inductionHypothesis =>
      simp only [List.cons_append, numbered, inductionHypothesis, List.flatMap_cons,
        List.count_append, lineBreaks, Nat.add_assoc]

theorem numbered_add (line shift : Nat) (pieces : List Piece) :
    numbered (line + shift) pieces =
      (numbered line pieces).map fun (line, piece) => (line + shift, piece) := by
  induction pieces generalizing line with
  | nil => rfl
  | cons piece rest inductionHypothesis =>
      rw [numbered, numbered, List.map_cons, ← inductionHypothesis, Nat.add_right_comm]

theorem token?_add (line shift : Nat) (piece : Piece) :
    piece.token? (line + shift) = (piece.token? line).map (·.relocate (· + shift)) := by
  cases piece with
  | quoted contents =>
      simp only [token?, Option.map_some, Token.relocate, Nat.add_right_comm]
  | _ => rfl

theorem error?_add (line shift : Nat) (piece : Piece) :
    piece.error? (line + shift) = (piece.error? line).map (·.relocate (· + shift)) := by
  cases piece <;> rfl

/-- Whatever is read off the pieces of two texts joined at a line break is read off the first one
and then off the second one, moved to its lines. -/
theorem filterMap_numbered_append {α : Type} {source : List Char}
    (closed : ∀ contents, openString contents ∉ ofText source) (next : List Char)
    (read : Nat × Piece → Option α) (move : α → α)
    (unread : ∀ line, read (line, blank '\n') = none)
    (moves : ∀ line piece,
      read (line + (1 + source.count '\n'), piece) = (read (line, piece)).map move) :
    (numbered 1 (ofText (source ++ '\n' :: next))).filterMap read =
      (numbered 1 (ofText source)).filterMap read ++
        ((numbered 1 (ofText next)).filterMap read).map move := by
  have breaksLine : (blank '\n').lineBreaks = 1 := rfl
  rw [ofText_append next closed, numbered_append, text_ofText, numbered, breaksLine,
    Nat.add_comm _ 1, numbered_add, List.filterMap_append, List.filterMap_cons_none (unread _),
    List.filterMap_map, List.map_filterMap]
  congr 2
  funext place
  exact moves place.1 place.2

theorem exists_numbered {piece : Piece} {pieces : List Piece} (member : piece ∈ pieces)
    (line : Nat) : ∃ place, (place, piece) ∈ numbered line pieces := by
  induction pieces generalizing line with
  | nil => cases member
  | cons other rest inductionHypothesis =>
      cases member with
      | head => exact ⟨line, List.mem_cons_self⟩
      | tail _ later =>
          obtain ⟨place, placed⟩ := inductionHypothesis later (line + other.lineBreaks)
          exact ⟨place, List.mem_cons_of_mem _ placed⟩

theorem kind_token?_ne_finish {line : Nat} {piece : Piece} {token : Token}
    (read : piece.token? line = some token) : token.kind ≠ .finish := by
  cases piece <;> cases read
  case word letters =>
    simp only [Kind.ofWord]
    split <;> nofun
  all_goals nofun

end Piece

namespace Lexed

theorem tokens_eq_append_finish (source : String) :
    (ofText source).tokens =
      (ofText source).tokens.dropLast ++ [.finish (1 + source.toList.count '\n')] := by
  simp [ofText]

theorem kind_ne_finish_of_mem_dropLast {source : String} {token : Token}
    (member : token ∈ (ofText source).tokens.dropLast) : token.kind ≠ .finish := by
  simp only [ofText, List.dropLast_concat, List.mem_filterMap] at member
  obtain ⟨place, _, read⟩ := member
  exact Piece.kind_token?_ne_finish read

/-- The line that a line of a text becomes when the text follows another one on its next line. -/
def lineBelow (first : String) (line : Nat) : Nat :=
  line + (1 + first.toList.count '\n')

/-- A text that no string is left open in is read on its own, and what follows it on the next line
is read as if it stood alone, but for its lines. -/
theorem ofText_append_line {first : String}
    (closed : ∀ error ∈ (ofText first).errors, error.fault ≠ .unterminatedString)
    (second : String) :
    ofText (first ++ "\n" ++ second) =
      ⟨(ofText first).tokens.dropLast ++
          (ofText second).tokens.map (·.relocate (lineBelow first)),
        (ofText first).errors ++ (ofText second).errors.map (·.relocate (lineBelow first))⟩ := by
  have noneOpen : ∀ contents, Piece.openString contents ∉ Piece.ofText first.toList := by
    intro contents member
    obtain ⟨line, placed⟩ := Piece.exists_numbered member 1
    have isError : ⟨line, .unterminatedString⟩ ∈ (ofText first).errors :=
      List.mem_filterMap.mpr ⟨_, placed, rfl⟩
    exact closed _ isError rfl
  have characters : (first ++ "\n" ++ second).toList = first.toList ++ '\n' :: second.toList := by
    simp
  have tokens := Piece.filterMap_numbered_append noneOpen second.toList
    (fun (line, piece) => piece.token? line) (·.relocate (lineBelow first))
    (fun _ => rfl) fun line piece => piece.token?_add line _
  have errors := Piece.filterMap_numbered_append noneOpen second.toList
    (fun (line, piece) => piece.error? line) (·.relocate (lineBelow first))
    (fun _ => rfl) fun line piece => piece.error?_add line _
  have lastLine : 1 + (first.toList ++ '\n' :: second.toList).count '\n' =
      1 + second.toList.count '\n' + (1 + first.toList.count '\n') := by
    rw [List.count_append, List.count_cons_self]
    omega
  rw [ofText, characters]
  simp only [tokens, errors, ofText, List.dropLast_concat, List.map_append, List.append_assoc,
    lastLine]
  rfl

end Lexed

end BlockScript
