import BlockScript.Proofs.Source.Spelling

/-!
# Texts that can be read line by line

A text that leaves no string open is read on its own, whatever stands on the next line, and so is
what stands there. This fails for every other text: a string that is left open goes on over the line
break, and a quote on the next line closes it. `Lexed.ofText_line_iff` puts both together.
-/

namespace BlockScript

theorem LexicalFault.message_eq_unterminated {fault : LexicalFault} :
    fault.message = "Unterminated string." ↔ fault = .unterminatedString := by
  cases fault <;> simp [message]

namespace Piece

theorem eq_of_first_openString {char : Char} {rest contents : List Char}
    (isOpen : (first char rest).1 = openString contents) :
    char :: rest = '"' :: contents ∧ (first char rest).2 = [] := by
  have begins := begins_first char rest
  have nothingAfter := begins.toEnd contents isOpen
  refine ⟨?_, nothingAfter⟩
  rw [← begins.split, nothingAfter, isOpen, List.append_nil, text]

/-- If a string is left open, a further line belongs to it, and the pieces before it stay as they
are. -/
theorem ofText_append_of_open {source contents : List Char} (next : List Char)
    (isOpen : openString contents ∈ ofText source) :
    ∃ closed, ofText source = closed ++ [openString contents] ∧
      ofText (source ++ '\n' :: next) = closed ++ ofText ('"' :: (contents ++ '\n' :: next)) := by
  fun_induction ofText source with
  | case1 => cases isOpen
  | case2 char rest inductionHypothesis =>
      by_cases firstClosed : ∀ contents, (first char rest).1 ≠ openString contents
      · have later : openString contents ∈ ofText (first char rest).2 :=
          (List.mem_cons.mp isOpen).resolve_left fun same => firstClosed contents same.symm
        obtain ⟨closed, whole, joined⟩ := inductionHypothesis later
        have unchanged := first_append next delimits_lineBreak char rest (endsAt_lineBreak firstClosed)
        refine ⟨(first char rest).1 :: closed, ?_, ?_⟩
        · rw [whole, List.cons_append]
        · rw [List.cons_append, ofText_cons unchanged, joined, List.cons_append]
      · obtain ⟨inside, isFirst⟩ := not_forall_not.mp firstClosed
        obtain ⟨isText, nothingAfter⟩ := eq_of_first_openString isFirst
        rw [isFirst, nothingAfter, ofText, List.mem_singleton] at isOpen
        cases isOpen
        refine ⟨[], ?_, ?_⟩
        · rw [isFirst, nothingAfter, ofText, List.nil_append]
        · rw [isText, List.nil_append, List.cons_append]

/-- A quote on the next line closes a string that is left open. -/
theorem ofText_append_quote {source contents : List Char}
    (isOpen : openString contents ∈ ofText source) :
    ∃ closed, ofText source = closed ++ [openString contents] ∧
      ofText (source ++ '\n' :: ['"']) = closed ++ [quoted (contents ++ ['\n'])] := by
  obtain ⟨closed, whole, joined⟩ := ofText_append_of_open ['"'] isOpen
  have unquoted : '"' ∉ contents ++ ['\n'] := by
    cases spelled_of_mem_ofText isOpen with
    | openString unquoted => simpa using unquoted
  have closes : ofText ('"' :: ((contents ++ ['\n']) ++ ['"'])) = [quoted (contents ++ ['\n'])] := by
    rw [ofText_cons ((Spelled.quoted unquoted).first_eq rfl), ofText]
  rw [List.append_assoc] at closes
  exact ⟨closed, whole, joined.trans (congrArg (closed ++ ·) closes)⟩

end Piece

namespace Lexed

variable {source : String}

/-- Only a string that is left open is reported as one. -/
theorem exists_openString {error : LexicalError} (member : error ∈ (ofText source).errors)
    (unterminated : error.fault = .unterminatedString) :
    ∃ contents, Piece.openString contents ∈ Piece.ofText source.toList := by
  obtain ⟨⟨line, piece⟩, placed, read⟩ := List.mem_filterMap.mp member
  cases piece with
  | openString contents => exact ⟨contents, Piece.mem_of_mem_numbered placed⟩
  | stray char =>
      cases read
      cases unterminated
  | mark | word | numeral | quoted | blank | comment => cases read

/-- A quote on the next line takes back the error about a string that is left open. -/
theorem length_errors_append_quote {contents : List Char}
    (isOpen : Piece.openString contents ∈ Piece.ofText source.toList) :
    (ofText (source ++ "\n" ++ "\"")).errors.length < (ofText source).errors.length := by
  obtain ⟨closed, whole, joined⟩ := Piece.ofText_append_quote isOpen
  have characters : (source ++ "\n" ++ "\"").toList = source.toList ++ '\n' :: ['"'] := by simp
  simp [ofText, characters, whole, joined, Piece.numbered_append, Piece.numbered, Piece.error?]

/-- The tokens and errors of a text and of what stands on the next line are those of both texts read
alone, but for the lines of the second one, if and only if the first text leaves no string open. -/
theorem ofText_line_iff (first : String) :
    (∀ error ∈ (ofText first).errors, error.fault.message ≠ "Unterminated string.") ↔
      ∀ second, ofText (first ++ "\n" ++ second) =
        ⟨(ofText first).tokens.dropLast ++
            (ofText second).tokens.map (·.relocate (lineBelow first)),
          (ofText first).errors ++ (ofText second).errors.map (·.relocate (lineBelow first))⟩ := by
  constructor
  · intro closed second
    apply ofText_append_line
    intro error member isOpen
    exact closed error member (LexicalFault.message_eq_unterminated.mpr isOpen)
  · intro separates error member unterminated
    have isOpen := LexicalFault.message_eq_unterminated.mp unterminated
    obtain ⟨contents, inText⟩ := exists_openString member isOpen
    have fewer := length_errors_append_quote inText
    have noFewer := congrArg (fun lexed => lexed.errors.length) (separates "\"")
    simp only [List.length_append] at noFewer
    omega

/-- Two quotes are an error each, and a string if they stand on two lines of one text. -/
example : (ofText "\"").errors = [⟨1, .unterminatedString⟩] ∧
    (ofText ("\"" ++ "\n" ++ "\"")).errors = [] := by
  decide +kernel

end Lexed

end BlockScript
