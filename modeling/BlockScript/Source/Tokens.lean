import BlockScript.Source.Piece
import BlockScript.Token.Basic

/-!
# The tokens of a source text

The pieces of a text are numbered with the lines on which they start. Marks, words, numerals and
strings then become tokens, faults become lexical errors, and blanks and comments vanish. Faults
are collected and never stop the reading, and the token sequence always ends with the token that
marks the end of the input.
-/

namespace BlockScript

/-- What can be wrong with the characters of a source text. -/
inductive LexicalFault where
  | unexpectedCharacter
  | unterminatedString
  deriving DecidableEq, Repr

def LexicalFault.message : LexicalFault → String
  | unexpectedCharacter => "Unexpected character."
  | unterminatedString => "Unterminated string."

/-- A lexical fault and the line on which the piece at fault starts. -/
structure LexicalError where
  line : Nat
  fault : LexicalFault
  deriving DecidableEq, Repr

namespace Piece

def lineBreaks (piece : Piece) : Nat :=
  piece.text.count '\n'

def lexeme (piece : Piece) : String :=
  .ofList piece.text

/-- Pairs each piece with the line on which it starts, if the first one starts on `line`. -/
def numbered (line : Nat) : List Piece → List (Nat × Piece)
  | [] => []
  | piece :: rest => (line, piece) :: numbered (line + piece.lineBreaks) rest

/-- The token of a piece that starts on `line`. A string is placed on the line of its closing
quote; no other token contains a line break. -/
def token? (line : Nat) (piece : Piece) : Option Token :=
  match piece with
  | mark sign => some ⟨.mark sign, piece.lexeme, none, line⟩
  | word _ => some ⟨.ofWord piece.lexeme, piece.lexeme, none, line⟩
  | numeral whole fraction =>
      some ⟨.number, piece.lexeme, some (.number (Number.ofDigits whole fraction)), line⟩
  | quoted contents =>
      some ⟨.text, piece.lexeme, some (.text (.ofList contents)), line + piece.lineBreaks⟩
  | blank _ | comment _ | openString _ | stray _ => none

/-- The error of a piece that starts on `line`. -/
def error? (line : Nat) : Piece → Option LexicalError
  | stray _ => some ⟨line, .unexpectedCharacter⟩
  | openString _ => some ⟨line, .unterminatedString⟩
  | _ => none

end Piece

/-- A source text as tokens and lexical errors, each in the order of the text. -/
structure Lexed where
  tokens : List Token
  errors : List LexicalError
  deriving DecidableEq, Repr

def Lexed.ofText (source : String) : Lexed :=
  let characters := source.toList
  let pieces := Piece.numbered 1 (Piece.ofText characters)
  { tokens :=
      pieces.filterMap (fun (line, piece) => piece.token? line)
        ++ [.finish (1 + characters.count '\n')]
    errors := pieces.filterMap (fun (line, piece) => piece.error? line) }

end BlockScript
