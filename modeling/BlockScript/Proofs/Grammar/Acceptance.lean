import BlockScript.Grammar.Program
import BlockScript.Proofs.Grammar.Completeness
import BlockScript.Proofs.Grammar.Soundness

/-!
# Programs without faults are the programs of the grammar

The reader finds no fault in a token sequence exactly if the grammar derives it, and then it replies
with the tree of the derivation. It follows that the grammar is not ambiguous.
-/

namespace BlockScript

variable {tokens : List Token} {ending : Token}

namespace Program

/-- What stands before an end token is ahead of it, if no other end token comes first. -/
theorem ahead_append_finish (isEnd : ending.kind = .finish)
    (only : ∀ token ∈ tokens, token.kind ≠ .finish) : ahead (tokens ++ [ending]) = tokens := by
  rw [ahead, List.takeWhile_append_of_pos (by simpa using only)]
  simp [isEnd]

theorem ending_append_finish (isEnd : ending.kind = .finish)
    (only : ∀ token ∈ tokens, token.kind ≠ .finish) :
    Program.ending (tokens ++ [ending]) = ending := by
  have noneBefore : tokens.find? (·.kind == .finish) = none := by
    simpa using only
  rw [Program.ending, List.find?_append, noneBefore]
  simp [isEnd]

end Program

/-- At the top level the reader takes exactly the programs of the grammar, with their trees. -/
theorem Grammar.accepts_items_iff (finish : Token) (trees : List Stmt) :
    (items finish false false tokens).Accepts trees [] ↔ ProgramPhrase tokens trees := by
  constructor
  · intro accepts
    rcases (follows finish).2.1 false false tokens accepts with ⟨read, split, sentences⟩
    rw [List.append_nil] at split
    rw [split]
    exact sentences
  · intro sentences
    exact readsItems_of_sentences finish sentences (.inl rfl) (List.append_nil tokens).symm

/-- A token sequence is the program of at most one tree. -/
theorem ProgramPhrase.unique {left right : List Stmt} (leftPhrase : ProgramPhrase tokens left)
    (rightPhrase : ProgramPhrase tokens right) : left = right := by
  have leftRead := (Grammar.accepts_items_iff (.finish 1) left).mpr leftPhrase
  have rightRead := (Grammar.accepts_items_iff (.finish 1) right).mpr rightPhrase
  exact leftRead.1.symm.trans rightRead.1

/-- A token sequence is read as a program, without any fault, exactly if the grammar derives the
tokens before its end token, and the statements are those of the derivation. -/
theorem ofTokens_eq_iff_programPhrase (isEnd : ending.kind = .finish)
    (only : ∀ token ∈ tokens, token.kind ≠ .finish) (trees : List Stmt) :
    Program.ofTokens (tokens ++ [ending]) = ⟨trees, []⟩ ↔ ProgramPhrase tokens trees := by
  have unread := Grammar.tokens_rest_items ending false tokens
  rw [← Grammar.accepts_items_iff ending trees, Program.ofTokens,
    Program.ahead_append_finish isEnd only, Program.ending_append_finish isEnd only]
  simp [Recovered.Accepts, unread]

/-- A token with nothing but its kind and its spelling, on the first line. -/
def plainToken (kind : Kind) (lexeme : String) : Token :=
  ⟨kind, lexeme, none, 1⟩

/-- The tokens of an if inside an if, followed by one else. The last statement is an empty block. -/
def danglingElse : List Token :=
  [plainToken (.keyword .ifWord) "if", plainToken (.mark .leftParen) "(",
    plainToken .identifier "a", plainToken (.mark .rightParen) ")",
    plainToken (.keyword .ifWord) "if", plainToken (.mark .leftParen) "(",
    plainToken .identifier "b", plainToken (.mark .rightParen) ")",
    plainToken .identifier "c", plainToken (.mark .equal) "=",
    plainToken .identifier "d", plainToken (.mark .semicolon) ";",
    plainToken (.keyword .elseWord) "else",
    plainToken (.mark .leftBrace) "", plainToken (.mark .rightBrace) ""]

/-- An else after two ifs belongs to the second one. -/
theorem programPhrase_danglingElse :
    (Token.finish 1).kind = .finish ∧ (∀ token ∈ danglingElse, token.kind ≠ .finish) ∧
      ProgramPhrase danglingElse
        [.ifThen (.variable (plainToken .identifier "a"))
          (.ifElse (.variable (plainToken .identifier "b"))
            (.expression (.assign (plainToken .identifier "c")
              (.variable (plainToken .identifier "d"))))
            (.block []))] := by
  have noEnd : ∀ token ∈ danglingElse, token.kind ≠ .finish := by
    simp [danglingElse, plainToken]
  have read : Program.ofTokens (danglingElse ++ [Token.finish 1]) =
      ⟨[.ifThen (.variable (plainToken .identifier "a"))
        (.ifElse (.variable (plainToken .identifier "b"))
          (.expression (.assign (plainToken .identifier "c")
            (.variable (plainToken .identifier "d"))))
          (.block []))], []⟩ := by
    cbv
  exact ⟨rfl, noEnd, (ofTokens_eq_iff_programPhrase rfl noEnd _).mp read⟩

end BlockScript
