import BlockScript.Proofs.Number.RoundTrip
import BlockScript.Proofs.Session.Joining
import BlockScript.Proofs.Source.Spelling

/-!
# Values that are shown can be read back

The text that shows a value as a literal is a source text for the value: it falls into one piece, or
into a minus sign and a numeral, whatever they are followed by, and the expression that is read from
the pieces has the value. So a program that prints the literal runs without a report and prints the
value.
-/

namespace BlockScript

/-! ## Pieces that write values -/

/-- The piece is a literal of the value. -/
inductive Piece.Writes : Piece → Value → Prop where
  | nilWord : Writes (.word ['n', 'i', 'l']) .nil
  | trueWord : Writes (.word ['t', 'r', 'u', 'e']) (.boolean true)
  | falseWord : Writes (.word ['f', 'a', 'l', 's', 'e']) (.boolean false)
  | numeral {whole fraction : List Char} (spelled : (numeral whole fraction).Spelled) :
      Writes (.numeral whole fraction) (.number (Number.ofDigits whole fraction))
  | quoted {contents : List Char} (spelled : (quoted contents).Spelled) :
      Writes (.quoted contents) (.text (.ofList contents))

namespace Piece

variable {piece : Piece} {value : Value}

theorem ofText_minus (rest : List Char) : ofText ('-' :: rest) = mark .minus :: ofText rest :=
  ofText_cons rfl

namespace Writes

theorem spelled (writes : piece.Writes value) : piece.Spelled := by
  cases writes with
  | nilWord | trueWord | falseWord => exact .word rfl (List.all_eq_true.mp rfl)
  | numeral spelled | quoted spelled => exact spelled

/-- A literal is a piece of its own if a semicolon follows. -/
theorem ofText (writes : piece.Writes value) (rest : List Char) :
    Piece.ofText (piece.text ++ ';' :: rest) = piece :: Piece.ofText (';' :: rest) := by
  have delimits : Delimits ';' := ⟨rfl, by decide, by decide, by decide⟩
  have ends : piece.EndsAt ';' := by cases writes <;> trivial
  exact writes.spelled.ofText_append delimits ends rest

theorem error? (writes : piece.Writes value) (line : Nat) : piece.error? line = none := by
  cases writes <;> rfl

theorem token? (writes : piece.Writes value) (line : Nat) :
    ∃ token, piece.token? line = some token ∧ Phrase .primary [token] (.literal value) := by
  cases writes with
  | nilWord => exact ⟨_, rfl, .nilWord rfl⟩
  | trueWord => exact ⟨_, rfl, .trueWord rfl⟩
  | falseWord => exact ⟨_, rfl, .falseWord rfl⟩
  | numeral => exact ⟨_, rfl, .number rfl⟩
  | quoted => exact ⟨_, rfl, .text rfl⟩

end Writes
end Piece

/-- The pieces write the value: a literal, or a minus sign before the numeral of what the value
negates. -/
inductive Value.WrittenAs : Value → List Piece → Prop where
  | literal {value : Value} {piece : Piece} (writes : piece.Writes value) : WrittenAs value [piece]
  | negative {number : Float} {piece : Piece} (writes : piece.Writes (.number number)) :
      WrittenAs (.number (-number)) [.mark .minus, piece]

namespace Value.WrittenAs

variable {value : Value} {pieces : List Piece}

/-- The pieces are those of their text if a semicolon follows. -/
theorem ofText (written : value.WrittenAs pieces) (rest : List Char) :
    Piece.ofText (pieces.flatMap Piece.text ++ ';' :: rest) =
      pieces ++ Piece.ofText (';' :: rest) := by
  cases written with
  | literal writes => simpa using writes.ofText rest
  | negative writes =>
      have minus : (Piece.mark .minus).text = ['-'] := rfl
      simp [minus, Piece.ofText_minus, writes.ofText rest]

theorem errors_eq_nil (written : value.WrittenAs pieces) (line : Nat) :
    (Piece.numbered line pieces).filterMap (fun (line, piece) => piece.error? line) = [] := by
  cases written with
  | literal writes => simp [Piece.numbered, writes.error?]
  | negative writes =>
      have minus : (Piece.mark .minus).error? line = none := rfl
      simp [Piece.numbered, minus, writes.error?]

theorem phrase (written : value.WrittenAs pieces) (line : Nat) :
    ∃ tree, Phrase .unary
        ((Piece.numbered line pieces).filterMap fun (line, piece) => piece.token? line) tree ∧
      ∀ scopes, tree.eval scopes = .ok value scopes := by
  cases written with
  | literal writes =>
      obtain ⟨token, isToken, phrase⟩ := writes.token? line
      refine ⟨.literal value, ?_, fun _ => rfl⟩
      simpa [Piece.numbered, isToken] using Phrase.unaryPrimary phrase
  | @negative number piece writes =>
      let minus : Token := ⟨.mark .minus, (Piece.mark .minus).lexeme, none, line⟩
      have isMinus : (Piece.mark .minus).token? line = some minus := rfl
      obtain ⟨token, isToken, phrase⟩ := writes.token? (line + (Piece.mark .minus).lineBreaks)
      refine ⟨.unary minus (.literal (.number number)), ?_, fun _ => rfl⟩
      have negated : Phrase .unary [minus, token] (.unary minus (.literal (.number number))) :=
        .unary (.inr rfl) (.unaryPrimary phrase)
      simpa [Piece.numbered, isMinus, isToken] using negated

end Value.WrittenAs

/-- The value is written in source texts as it is shown: it is nil, a boolean, a finite number or a
string without quotes. -/
def Value.IsWritten : Value → Prop
  | .nil | .boolean _ => True
  | .number value => value.isFinite = true
  | .text value => '"' ∉ value.toList

instance (value : Value) : Decidable value.IsWritten :=
  match value with
  | .nil | .boolean _ => .isTrue True.intro
  | .number value => inferInstanceAs (Decidable (value.isFinite = true))
  | .text value => inferInstanceAs (Decidable ('"' ∉ value.toList))

/-- What shows a value is made up of pieces that write it. -/
theorem Value.IsWritten.writtenAs {value : Value} (isWritten : value.IsWritten) :
    ∃ pieces, value.WrittenAs pieces ∧
      value.toSExpression.render = .ofList (pieces.flatMap Piece.text) := by
  cases value with
  | nil => exact ⟨_, .literal .nilWord, rfl⟩
  | boolean value =>
      cases value with
      | true => exact ⟨_, .literal .trueWord, rfl⟩
      | false => exact ⟨_, .literal .falseWord, rfl⟩
  | number value =>
      rcases lt_or_ge value.toBits.toNat Binary64.signBit with positive | negative
      · obtain ⟨whole, fraction, spelled, isText, rfl⟩ := Number.text_eq_numeral isWritten positive
        refine ⟨_, .literal (.numeral spelled), ?_⟩
        simpa [Value.toSExpression, SExpression.render, Value.display] using isText
      · obtain ⟨whole, fraction, spelled, isText, rfl⟩ :=
          Number.text_eq_minus_numeral isWritten negative
        refine ⟨_, .negative (.numeral spelled), ?_⟩
        have sign : "-" = String.ofList (Piece.mark .minus).text := rfl
        rw [sign, ← String.ofList_append] at isText
        simpa [Value.toSExpression, SExpression.render, Value.display] using isText
  | text value =>
      have written : (Piece.quoted value.toList).Writes (.text value) := by
        simpa using Piece.Writes.quoted (.quoted isWritten)
      refine ⟨_, .literal written, ?_⟩
      apply String.toList_injective
      simp [Value.toSExpression, SExpression.render, Piece.text]

/-! ## Printing what is written -/

theorem Phrase.ofUnary {tokens : List Token} {tree : Expr} (phrase : Phrase .unary tokens tree) :
    Phrase .assignment tokens tree := by
  have product : Phrase (.chain .product) tokens tree := .ofOperand phrase
  have sum : Phrase (.chain .sum) tokens tree := .ofOperand product
  have comparison : Phrase (.chain .comparison) tokens tree := .ofOperand sum
  have equality : Phrase (.chain .equality) tokens tree := .ofOperand comparison
  exact .assignmentOr (.ofOperand (.ofOperand (.ternaryEquality equality)))

def Value.printing (value : Value) : String :=
  "print " ++ (Expr.literal value).toSExpression.render ++ ";"

section Printing

variable {value : Value} {pieces : List Piece}

/-- The pieces of the program that prints what the pieces write. -/
def printingPieces (pieces : List Piece) : List Piece :=
  .word ['p', 'r', 'i', 'n', 't'] :: .blank ' ' :: (pieces ++ [.mark .semicolon])

theorem ofText_printing (written : value.WrittenAs pieces)
    (shown : value.toSExpression.render = .ofList (pieces.flatMap Piece.text)) :
    Piece.ofText value.printing.toList = printingPieces pieces := by
  have characters : value.printing.toList =
      'p' :: 'r' :: 'i' :: 'n' :: 't' :: ' ' :: (pieces.flatMap Piece.text ++ [';']) := by
    simp [Value.printing, Expr.toSExpression, shown]
  have word (rest : List Char) : Piece.ofText ('p' :: 'r' :: 'i' :: 'n' :: 't' :: ' ' :: rest) =
      .word ['p', 'r', 'i', 'n', 't'] :: Piece.ofText (' ' :: rest) := Piece.ofText_cons rfl
  have blank (rest : List Char) : Piece.ofText (' ' :: rest) = .blank ' ' :: Piece.ofText rest :=
    Piece.ofText_cons rfl
  have semicolon : Piece.ofText [';'] = .mark .semicolon :: Piece.ofText [] :=
    Piece.ofText_cons rfl
  rw [characters, word, blank, written.ofText, semicolon, Piece.ofText, printingPieces]

theorem numbered_printing (pieces : List Piece) :
    Piece.numbered 1 (printingPieces pieces) =
      (1, .word ['p', 'r', 'i', 'n', 't']) :: (1, .blank ' ') ::
        (Piece.numbered 1 pieces ++
          [(1 + (pieces.flatMap Piece.text).count '\n', .mark .semicolon)]) := by
  rw [printingPieces, Piece.numbered, Piece.numbered, Piece.numbered_append]
  rfl

/-- The program is read as a print statement for an expression that has the value. -/
theorem read_printing (written : value.WrittenAs pieces)
    (shown : value.toSExpression.render = .ofList (pieces.flatMap Piece.text)) :
    (Lexed.ofText value.printing).errors = [] ∧
      ∃ tree, Program.ofText value.printing = ⟨[.print tree], []⟩ ∧
        ∀ scopes, tree.eval scopes = .ok value scopes := by
  have split := ofText_printing written shown
  obtain ⟨tree, phrase, evaluates⟩ := written.phrase 1
  refine ⟨?lexed, tree, ?read, evaluates⟩
  case lexed =>
    simp only [Lexed.ofText, split, numbered_printing, List.filterMap_cons, List.filterMap_append,
      written.errors_eq_nil]
    rfl
  case read =>
    let keyword : Token := ⟨.keyword .printWord, "print", none, 1⟩
    let semicolon : Token :=
      ⟨.mark .semicolon, ";", none, 1 + (pieces.flatMap Piece.text).count '\n'⟩
    have ahead : (Lexed.ofText value.printing).tokens.dropLast =
        keyword :: (((Piece.numbered 1 pieces).filterMap fun (line, piece) => piece.token? line) ++
          [semicolon]) := by
      simp only [Lexed.ofText, List.dropLast_concat, split, numbered_printing,
        List.filterMap_cons, List.filterMap_append]
      rfl
    have sentence : Sentence false false (Lexed.ofText value.printing).tokens.dropLast
        (.print tree) := by
      rw [ahead]
      exact .print rfl phrase.ofUnary rfl
    have program : ProgramPhrase (Lexed.ofText value.printing).tokens.dropLast [.print tree] := by
      have single := Sentences.statement sentence .nil
      rwa [List.append_nil] at single
    rw [Program.ofText, Lexed.tokens_eq_append_finish]
    exact Program.ofTokens_of_phrase rfl (fun _ => Lexed.kind_ne_finish_of_mem_dropLast) program

end Printing

/-- The program that prints the value is read without an error, its expression has the value, and in
a fresh session it prints the value as it is displayed, and nothing else happens. -/
structure Value.ReadsBack (value : Value) : Prop where
  lexed : (Lexed.ofText value.printing).errors = []
  read : ∃ tree, Program.ofText value.printing = ⟨[.print tree], []⟩ ∧
    ∀ scopes, tree.eval scopes = .ok value scopes
  run : ∀ fuel, ∃ session, (Session.fresh .empty).run fuel value.printing = some session ∧
    session.machine.output.text = value.display ++ "\n" ∧
      session.machine.scopes = .initial ∧ session.log = .empty

/-- Values that are written in source texts as they are shown read back. -/
theorem Value.IsWritten.readsBack {value : Value} (isWritten : value.IsWritten) :
    value.ReadsBack := by
  obtain ⟨pieces, written, shown⟩ := isWritten.writtenAs
  obtain ⟨lexed, tree, read, evaluates⟩ := read_printing written shown
  refine ⟨lexed, ⟨tree, read, evaluates⟩, fun fuel => ?_⟩
  have clean : History.isClean value.printing = true := isClean_iff.mpr ⟨lexed, by rw [read]⟩
  have ends : (interpret fuel (Program.ofText value.printing).statements).Ends (.initial .empty)
      (.ok ()) ⟨.initial, Sink.empty.writeLine value.display⟩ := by
    have evaluated : (Execution.eval tree).Ends (.initial .empty) (.ok value) (.initial .empty) :=
      ends_of_ok (by simp only [Execution.eval, Machine.initial, evaluates])
    have printed : (Stmt.exec fuel (.print tree)).Ends (.initial .empty) (.ok .normal)
        ⟨.initial, Sink.empty.writeLine value.display⟩ := by
      rw [Stmt.exec]
      exact evaluated.bind (ends_of_ok rfl)
    rw [read, interpret, interpret]
    exact printed.bind (ends_of_ok rfl)
  refine ⟨_, Session.run_eq_of_ends rfl rfl clean ends, ?_, rfl, rfl⟩
  exact congrArg (· ++ "\n") (String.empty_append)

/-- Negative zero is shown with its sign, and a string may hold what is a comment elsewhere. -/
theorem readsBack_negativeZero :
    (Value.IsWritten (.number (.ofBits 0x8000000000000000)) ∧
        Value.ReadsBack (.number (.ofBits 0x8000000000000000))) ∧
      Value.IsWritten (.text "// é\n") ∧ Value.ReadsBack (.text "// é\n") := by
  have zero : Value.IsWritten (.number (.ofBits 0x8000000000000000)) := by decide +kernel
  have comment : Value.IsWritten (.text "// é\n") := by decide +kernel
  exact ⟨⟨zero, zero.readsBack⟩, comment, comment.readsBack⟩

end BlockScript
