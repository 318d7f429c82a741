/-!
# Output

Programs print lines to a sink. A sink may refuse a line, and which lines it refuses is not up to
the program. Of a refused line the sink keeps what had been written when the writing failed, which
may be nothing, and the program is not told. Programs can do nothing with a sink but write to it.
-/

namespace BlockScript

/-- A place that lines are written to. -/
structure Sink where
  /-- What has been written so far. -/
  text : String
  /-- How many lines have been offered, whether or not they were written. -/
  offered : Nat
  /-- Whether the sink takes the line offered after a number of others. -/
  accepts : Nat → Bool
  /-- What the sink keeps of the line offered after a number of others, if it does not take it. -/
  keeps : Nat → String → String

namespace Sink

/-- An empty sink that takes every line. -/
def empty : Sink :=
  ⟨"", 0, fun _ => true, fun _ _ => ""⟩

def writeLine (line : String) : Sink → Sink
  | ⟨text, offered, accepts, keeps⟩ =>
      let full := line ++ "\n"
      let written := if accepts offered then full else keeps offered full
      ⟨text ++ written, offered + 1, accepts, keeps⟩

end Sink
end BlockScript
