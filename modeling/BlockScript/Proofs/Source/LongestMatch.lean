import BlockScript.Source.Piece
import Mathlib.Data.List.TakeWhile

/-!
# Pieces are the longest ones

Which texts are pieces is said here one sort of piece at a time, without a word about how a text is
split. A text may begin with several pieces, such as a slash and a comment, and one of them is
longer than all others. Taking the longest piece at each place splits a text in exactly one way, and
`Piece.splits_iff` says that it is the way in which texts are split.
-/

namespace BlockScript

/-! ## Runs of characters -/

/-- A run of wanted elements at the start of a list is shorter than the longest such run, unless it
is the longest one itself. -/
theorem length_lt_or_eq_takeWhile {α : Type} {wanted : α → Bool} {run : List α} (after : List α)
    (inside : ∀ element ∈ run, wanted element = true) :
    run.length < ((run ++ after).takeWhile wanted).length ∨
      ((run ++ after).takeWhile wanted = run ∧ (run ++ after).dropWhile wanted = after) := by
  rw [List.takeWhile_append_of_pos inside, List.dropWhile_append_of_pos inside]
  cases after with
  | nil => simp
  | cons element others => cases isWanted : wanted element <;> simp [isWanted]

namespace Piece

/-! ## The sorts of pieces -/

/-- A character that begins no piece of any other sort. -/
structure Unexpected (char : Char) : Prop where
  notBlank : isBlank char = false
  notQuote : char ≠ '"'
  notDigit : isDigit char = false
  notLetter : startsWord char = false
  notSign : ∀ sign : Mark, sign.spelling.head? ≠ some char

/-- The pieces that there are. -/
inductive Spelled : Piece → Prop where
  | mark (sign : Mark) : Spelled (.mark sign)
  | word {letter : Char} {others : List Char} (starts : startsWord letter = true)
      (continues : ∀ char ∈ others, continuesWord char = true) : Spelled (.word (letter :: others))
  | numeral {digit : Char} {whole fraction : List Char}
      (digits : ∀ char ∈ digit :: whole, isDigit char = true)
      (places : ∀ char ∈ fraction, isDigit char = true) :
      Spelled (.numeral (digit :: whole) fraction)
  | quoted {contents : List Char} (unquoted : '"' ∉ contents) : Spelled (.quoted contents)
  | blank {char : Char} (isBlank : isBlank char = true) : Spelled (.blank char)
  | comment {contents : List Char} (oneLine : '\n' ∉ contents) : Spelled (.comment contents)
  | openString {contents : List Char} (unquoted : '"' ∉ contents) : Spelled (.openString contents)
  | stray {char : Char} (unexpected : Unexpected char) : Spelled (.stray char)

/-- A text begins with a piece, and this is what comes after it. After a string that is never closed
nothing comes. -/
structure Begins (piece : Piece) (text after : List Char) : Prop where
  spelled : piece.Spelled
  split : piece.text ++ after = text
  toEnd : ∀ contents, piece = openString contents → after = []

/-- A text begins with a piece, and with no longer one. -/
structure Longest (piece : Piece) (text after : List Char) : Prop where
  begins : piece.Begins text after
  longest : ∀ (other : Piece) (rest : List Char), other.Begins text rest →
    other.text.length ≤ piece.text.length

/-- A text split from its start to its end, each piece the longest that begins where it begins. -/
inductive Splits : List Char → List Piece → Prop where
  | nil : Splits [] []
  | cons {piece : Piece} {text after : List Char} {others : List Piece}
      (first : piece.Longest text after) (rest : Splits after others) :
      Splits text (piece :: others)

/-! ## Characters that begin pieces -/

section Classes

variable {char : Char}

theorem eq_of_isBlank (blank : isBlank char = true) :
    char = ' ' ∨ char = '\r' ∨ char = '\t' ∨ char = '\n' := by
  simpa [isBlank, or_assoc] using blank

theorem isBlank_of_isDigit (digit : isDigit char = true) : isBlank char = false := by
  rw [← Bool.not_eq_true]
  intro blank
  rcases eq_of_isBlank blank with rfl | rfl | rfl | rfl <;> cases digit

theorem isBlank_of_startsWord (starts : startsWord char = true) : isBlank char = false := by
  rw [← Bool.not_eq_true]
  intro blank
  rcases eq_of_isBlank blank with rfl | rfl | rfl | rfl <;> cases starts

theorem isDigit_of_startsWord (starts : startsWord char = true) : isDigit char = false := by
  rw [← Bool.not_eq_true]
  intro digit
  simp only [startsWord, isDigit, Bool.and_eq_true, Bool.or_eq_true, decide_eq_true_eq,
    beq_iff_eq, Char.le_def, UInt32.le_iff_toNat_le] at starts digit
  rcases starts with (⟨above, _⟩ | ⟨above, _⟩) | rfl
  · exact absurd (Nat.le_trans above digit.2) (by decide)
  · exact absurd (Nat.le_trans above digit.2) (by decide)
  · exact absurd digit.2 (by decide)

theorem first_of_isBlank (blank : isBlank char = true) (rest : List Char) :
    first char rest = (.blank char, rest) :=
  if_pos blank

theorem first_of_isDigit (digit : isDigit char = true) (rest : List Char) :
    first char rest = ofDigit char rest := by
  have notQuote : char ≠ '"' := by
    rintro rfl
    cases digit
  simp [first, isBlank_of_isDigit digit, notQuote, digit]

theorem first_of_startsWord (starts : startsWord char = true) (rest : List Char) :
    first char rest = (word (char :: rest.takeWhile continuesWord), rest.dropWhile continuesWord) := by
  have notQuote : char ≠ '"' := by
    rintro rfl
    cases starts
  simp [first, isBlank_of_startsWord starts, notQuote, isDigit_of_startsWord starts, starts]

theorem first_of_ofChar? {short : Mark} (found : Mark.ofChar? char = some short)
    (rest : List Char) : first char rest = ofSign char rest := by
  unfold Mark.ofChar? at found
  split at found <;> first | rfl | cases found

/-- A character that begins no piece of another sort spells no mark. -/
theorem ofChar?_of_unexpected (unexpected : Unexpected char) : Mark.ofChar? char = none := by
  cases found : Mark.ofChar? char with
  | none => rfl
  | some short =>
      have spelled := Mark.spelling_of_ofChar? found
      exact absurd (by rw [spelled]; rfl) (unexpected.notSign short)

theorem first_of_unexpected (unexpected : Unexpected char) (rest : List Char) :
    first char rest = (.stray char, rest) := by
  have ⟨notBlank, notQuote, notDigit, notLetter, _⟩ := unexpected
  simp [first, notBlank, notQuote, notDigit, notLetter, ofSign, ofChar?_of_unexpected unexpected]

end Classes

/-! ## No other piece is as long -/

/-- A mark is spelled by one character, or by one and an equals sign. -/
theorem spelling_cases (sign : Mark) :
    (∃ char, sign.spelling = [char] ∧ Mark.ofChar? char = some sign) ∨
      ∃ char short, sign.spelling = [char, '='] ∧ Mark.ofChar? char = some short ∧
        short.extended? = some sign := by
  cases sign
  case bangEqual => exact .inr ⟨'!', .bang, rfl, rfl, rfl⟩
  case equalEqual => exact .inr ⟨'=', .equal, rfl, rfl, rfl⟩
  case greaterEqual => exact .inr ⟨'>', .greater, rfl, rfl, rfl⟩
  case lessEqual => exact .inr ⟨'<', .less, rfl, rfl, rfl⟩
  all_goals exact .inl ⟨_, rfl, rfl⟩

/-- The first piece of a text, if it is not the given one, is longer. -/
def Outdone (piece : Piece) (after : List Char) (first : Piece × List Char) : Prop :=
  piece.text.length < first.1.text.length ∨ first = (piece, after)

/-- A mark of one character may be part of a longer mark, or open a comment. -/
theorem outdone_short {char : Char} {sign : Mark} (spelled : sign.spelling = [char])
    (found : Mark.ofChar? char = some sign) (after : List Char) :
    (mark sign).Outdone after (first char after) := by
  rw [first_of_ofChar? found, ofSign, found]
  dsimp only
  split
  · next others => exact .inl (by simp [text, Mark.spelling])
  · simp only [Mark.extend]
    split
    · next extended _ =>
        have longer := Mark.spelling_of_extended? extended
        exact .inl (by simp [text, longer])
    · exact .inr rfl

theorem outdone_mark {sign : Mark} {char : Char} {rest after : List Char}
    (split : (mark sign).text ++ after = char :: rest) :
    (mark sign).Outdone after (first char rest) := by
  rcases spelling_cases sign with ⟨single, spelled, found⟩ | ⟨single, short, spelled, found, extended⟩
  · rw [text, spelled] at split
    cases split
    exact outdone_short spelled found after
  · rw [text, spelled] at split
    cases split
    have notSlash : short ≠ .slash := by
      rintro rfl
      cases extended
    exact .inr (by simp [first_of_ofChar? found, ofSign, found, notSlash, Mark.extend, extended])

theorem outdone_word {letter : Char} {others after : List Char} (starts : startsWord letter = true)
    (continues : ∀ char ∈ others, continuesWord char = true) :
    (word (letter :: others)).Outdone after (first letter (others ++ after)) := by
  rw [first_of_startsWord starts]
  rcases length_lt_or_eq_takeWhile after continues with shorter | ⟨same, sameAfter⟩
  · exact .inl (by simpa [text] using shorter)
  · exact .inr (by rw [same, sameAfter])

/-- A numeral without a point may be the start of one with more digits, or of one with a point. -/
theorem outdone_integer {digit : Char} {whole after : List Char}
    (digits : ∀ char ∈ digit :: whole, isDigit char = true) :
    (numeral (digit :: whole) []).Outdone after (first digit (whole ++ after)) := by
  rw [List.forall_mem_cons] at digits
  rw [first_of_isDigit digits.1, ofDigit]
  rcases length_lt_or_eq_takeWhile after digits.2 with shorter | ⟨same, sameAfter⟩
  · left
    split
    · split
      · simp only [text, List.length_append, List.length_cons]
        omega
      · simpa [text] using shorter
    · simpa [text] using shorter
  · rw [same, sameAfter]
    split
    · split
      · exact .inl (by simp [text])
      · exact .inr rfl
    · exact .inr rfl

theorem outdone_decimal {digit tenth : Char} {whole fraction after : List Char}
    (digits : ∀ char ∈ digit :: whole, isDigit char = true)
    (places : ∀ char ∈ tenth :: fraction, isDigit char = true) :
    (numeral (digit :: whole) (tenth :: fraction)).Outdone after
      (first digit (whole ++ '.' :: tenth :: (fraction ++ after))) := by
  rw [List.forall_mem_cons] at digits places
  have noDigit : isDigit '.' = false := rfl
  rw [first_of_isDigit digits.1, ofDigit, List.takeWhile_append_of_pos digits.2,
    List.dropWhile_append_of_pos digits.2]
  simp only [List.takeWhile_cons, List.dropWhile_cons, noDigit, Bool.false_eq_true, if_false,
    List.append_nil, places.1, if_true]
  rcases length_lt_or_eq_takeWhile after places.2 with shorter | ⟨same, sameAfter⟩
  · exact .inl (by simpa [text] using shorter)
  · exact .inr (by rw [same, sameAfter])

theorem outdone_comment {contents after : List Char} (oneLine : '\n' ∉ contents) :
    (comment contents).Outdone after (first '/' ('/' :: (contents ++ after))) := by
  have inside : ∀ char ∈ contents, (char != '\n') = true := by
    intro char member
    rw [bne_iff_ne]
    exact ne_of_mem_of_not_mem member oneLine
  have isSlash : Mark.ofChar? '/' = some .slash := rfl
  rw [first_of_ofChar? isSlash]
  simp only [ofSign, Mark.ofChar?]
  rcases length_lt_or_eq_takeWhile after inside with shorter | ⟨same, sameAfter⟩
  · exact .inl (by simpa [text] using shorter)
  · exact .inr (by rw [same, sameAfter])

section Quotes

variable {contents : List Char} (unquoted : '"' ∉ contents)

include unquoted

theorem forall_mem_ne_quote : ∀ char ∈ contents, (char != '"') = true := by
  intro char member
  rw [bne_iff_ne]
  exact ne_of_mem_of_not_mem member unquoted

theorem ofQuote_closed (after : List Char) :
    ofQuote (contents ++ '"' :: after) = (quoted contents, after) := by
  have inside := forall_mem_ne_quote unquoted
  simp [ofQuote, List.takeWhile_append_of_pos inside, List.dropWhile_append_of_pos inside]

theorem ofQuote_open : ofQuote contents = (openString contents, []) := by
  have inside := forall_mem_ne_quote unquoted
  have none : contents.dropWhile (· != '"') = [] := List.dropWhile_eq_nil_iff.mpr inside
  simp only [ofQuote, none, List.takeWhile_eq_self_iff.mpr inside]

end Quotes

/-- Whatever a text begins with is its first piece or a shorter one. -/
theorem Begins.outdone {piece : Piece} {char : Char} {rest after : List Char}
    (begins : piece.Begins (char :: rest) after) : piece.Outdone after (first char rest) := by
  obtain ⟨spelled, split, toEnd⟩ := begins
  cases spelled with
  | mark sign => exact outdone_mark split
  | word starts continues =>
      cases split
      exact outdone_word starts continues
  | @numeral digit whole fraction digits places =>
      cases fraction with
      | nil =>
          cases split
          exact outdone_integer digits
      | cons tenth fraction =>
          simp only [text, List.append_assoc, List.cons_append, List.cons.injEq] at split
          obtain ⟨rfl, rfl⟩ := split
          exact outdone_decimal digits places
  | quoted unquoted =>
      simp only [text, List.append_assoc, List.cons_append, List.cons.injEq] at split
      obtain ⟨rfl, rfl⟩ := split
      exact .inr (ofQuote_closed unquoted after)
  | blank blank =>
      cases split
      exact .inr (first_of_isBlank blank _)
  | comment oneLine =>
      cases split
      exact outdone_comment oneLine
  | openString unquoted =>
      cases toEnd _ rfl
      simp only [text, List.append_nil, List.cons.injEq] at split
      obtain ⟨rfl, rfl⟩ := split
      exact .inr (ofQuote_open unquoted)
  | stray unexpected =>
      cases split
      exact .inr (first_of_unexpected unexpected _)

/-! ## The first piece is one that the text begins with -/

theorem begins_ofQuote (rest : List Char) :
    (ofQuote rest).1.Begins ('"' :: rest) (ofQuote rest).2 := by
  have unquoted : '"' ∉ rest.takeWhile (· != '"') := by
    intro member
    simpa using List.mem_takeWhile_imp member
  refine ⟨?spelled, text_ofQuote rest, ?toEnd⟩
  case spelled =>
    unfold ofQuote
    split
    · exact .openString unquoted
    · exact .quoted unquoted
  case toEnd =>
    intro contents isOpen
    unfold ofQuote at isOpen ⊢
    split
    · rfl
    · next found =>
        rw [found] at isOpen
        cases isOpen

theorem begins_ofDigit {digit : Char} (isFirst : isDigit digit = true) (rest : List Char) :
    (ofDigit digit rest).1.Begins (digit :: rest) (ofDigit digit rest).2 := by
  have inside (others : List Char) : ∀ char ∈ others.takeWhile isDigit, isDigit char = true :=
    fun _ => List.mem_takeWhile_imp
  have digits : ∀ char ∈ digit :: rest.takeWhile isDigit, isDigit char = true :=
    List.forall_mem_cons.mpr ⟨isFirst, inside rest⟩
  refine ⟨?spelled, text_ofDigit digit rest, ?toEnd⟩
  case spelled =>
    unfold ofDigit
    split
    · next tenth after _ =>
        split
        · next isTenth => exact .numeral digits (List.forall_mem_cons.mpr ⟨isTenth, inside after⟩)
        · exact .numeral digits nofun
    · exact .numeral digits nofun
  case toEnd =>
    unfold ofDigit
    split
    · split <;> nofun
    · nofun

/-- A character that spells no mark by itself begins no mark. -/
theorem notSign_of_ofChar? {char : Char} (none : Mark.ofChar? char = none) (sign : Mark) :
    sign.spelling.head? ≠ some char := by
  intro isFirst
  rcases spelling_cases sign with ⟨single, spelled, found⟩ | ⟨single, short, spelled, found, _⟩ <;>
  · rw [spelled] at isFirst
    cases isFirst
    cases none.symm.trans found

theorem begins_ofSign {char : Char} (notBlank : isBlank char = false) (notQuote : char ≠ '"')
    (notDigit : isDigit char = false) (notLetter : startsWord char = false) (rest : List Char) :
    (ofSign char rest).1.Begins (char :: rest) (ofSign char rest).2 := by
  refine ⟨?spelled, text_ofSign char rest, ?toEnd⟩
  case spelled =>
    unfold ofSign
    split
    · next none =>
        exact .stray ⟨notBlank, notQuote, notDigit, notLetter, notSign_of_ofChar? none⟩
    · split
      · next after _ =>
          have oneLine : '\n' ∉ after.takeWhile (· != '\n') := by
            intro member
            simpa using List.mem_takeWhile_imp member
          exact .comment oneLine
      · exact .mark _
  case toEnd =>
    unfold ofSign
    split
    · nofun
    · split <;> nofun

theorem begins_first (char : Char) (rest : List Char) :
    (first char rest).1.Begins (char :: rest) (first char rest).2 := by
  unfold first
  split
  · next blank => exact ⟨.blank blank, rfl, nofun⟩
  split
  · next isQuote => exact isQuote ▸ begins_ofQuote rest
  split
  · next digit => exact begins_ofDigit digit rest
  split
  · next starts =>
      have continues : ∀ other ∈ rest.takeWhile continuesWord, continuesWord other = true :=
        fun _ => List.mem_takeWhile_imp
      exact ⟨.word starts continues, by simp [text], nofun⟩
  · next notBlank notQuote notDigit notLetter =>
      exact begins_ofSign (by simpa using notBlank) notQuote (by simpa using notDigit)
        (by simpa using notLetter) rest

/-! ## The longest pieces -/

theorem longest_iff {piece : Piece} {char : Char} {rest after : List Char} :
    piece.Longest (char :: rest) after ↔ first char rest = (piece, after) := by
  constructor
  · intro longest
    have atMost := longest.longest _ _ (begins_first char rest)
    rcases longest.begins.outdone with shorter | same
    · exact absurd atMost (Nat.not_le.mpr shorter)
    · exact same
  · intro same
    have begins := begins_first char rest
    simp only [same] at begins
    refine ⟨begins, fun other otherAfter otherBegins => ?_⟩
    rcases otherBegins.outdone with shorter | sameToo
    · rw [same] at shorter
      exact Nat.le_of_lt shorter
    · cases sameToo.symm.trans same
      exact Nat.le_refl _

theorem Spelled.text_ne_nil {piece : Piece} (spelled : piece.Spelled) : piece.text ≠ [] := by
  cases spelled with
  | mark sign => cases sign <;> nofun
  | @numeral digit whole fraction _ _ => cases fraction <;> nofun
  | _ => nofun

/-- Taking the longest piece at each place splits a text in one way only. -/
theorem splits_iff {source : List Char} {pieces : List Piece} :
    Splits source pieces ↔ pieces = ofText source := by
  constructor
  · intro splits
    induction splits with
    | nil => rw [ofText]
    | @cons piece text after others longest _ inductionHypothesis =>
        cases text with
        | nil =>
            have isEmpty := (List.append_eq_nil_iff.mp longest.begins.split).1
            exact absurd isEmpty longest.begins.spelled.text_ne_nil
        | cons char rest =>
            rw [ofText, longest_iff.mp longest, inductionHypothesis]
  · rintro rfl
    fun_induction ofText source with
    | case1 => exact .nil
    | case2 char rest inductionHypothesis => exact .cons (longest_iff.mpr rfl) inductionHypothesis

end Piece
end BlockScript
