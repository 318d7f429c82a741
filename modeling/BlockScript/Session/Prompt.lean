import BlockScript.Session.Basic

/-!
# The prompt

At the prompt, every line of input is a source text of its own in one session. Reports are written
as they arise and do not carry over to the next line, and so a line at fault keeps no later line
from running. A line includes the line break that ends it.
-/

namespace BlockScript

/-- What has been written to the two output channels. -/
structure Transcript where
  output : String
  errors : String
  deriving DecidableEq, Repr

/-- The text of lines, each with a line break at its end. -/
def unlines (lines : List String) : String :=
  lines.foldl (fun text line => text ++ line ++ "\n") ""

namespace Prompt

/-- What stands before each line that is read. -/
def mark : String := "> "

/-- Cuts input into lines. Each line break ends a line and belongs to it. -/
def lines : List UInt8 → List (List UInt8)
  | [] => []
  | byte :: rest =>
      if byte = 10 then
        [byte] :: lines rest
      else
        match lines rest with
        | [] => [[byte]]
        | line :: others => (byte :: line) :: others

/-- The text of a line, if its bytes are text. -/
def decode? (line : List UInt8) : Option String :=
  String.fromUTF8? ⟨line.toArray⟩

/-- Runs one line, and says what it writes. -/
def step (fuel : Nat) (line : List UInt8) (session : Session) : Option (Transcript × Session) :=
  match decode? line with
  | none =>
      some (⟨"", "Could not read line: stream did not contain valid UTF-8\n"⟩, session)
  | some source =>
      match session.run fuel source with
      | none => none
      | some session =>
          let (reports, session) := session.takeReports
          let (output, session) := session.takeOutput
          some (⟨output, unlines (reports.map Report.text)⟩, session.reset)

/-- Runs lines in order, and says all that is written. A line break follows the last mark. -/
def runLines (fuel : Nat) : List (List UInt8) → Session → Option (Transcript × Session)
  | [], session => some (⟨mark ++ "\n", ""⟩, session)
  | line :: others, session =>
      match step fuel line session with
      | none => none
      | some (first, session) =>
          match runLines fuel others session with
          | none => none
          | some (rest, session) =>
              some (⟨mark ++ first.output ++ rest.output, first.errors ++ rest.errors⟩, session)

end Prompt
end BlockScript
