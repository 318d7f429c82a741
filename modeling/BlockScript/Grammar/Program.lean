import BlockScript.Grammar.Statement

/-!
# Programs

A token sequence is a program up to its first end token. What follows that token is never looked
at, and faults at the end of the input are blamed on it.
-/

namespace BlockScript

/-- What the grammar makes of a token sequence: the statements that are not at fault, and the
faults in the order in which they were found. -/
structure Program where
  statements : List Stmt
  errors : List SyntaxError

namespace Program

/-- The tokens ahead of the first end token. -/
def ahead (tokens : List Token) : List Token :=
  tokens.takeWhile (·.kind != .finish)

/-- The token that ends a sequence. A sequence without one is taken to end on its last line. -/
def ending (tokens : List Token) : Token :=
  match tokens.find? (·.kind == .finish) with
  | some token => token
  | none => .finish ((tokens.getLast?.map (·.line)).getD 1)

def ofTokens (tokens : List Token) : Program :=
  let all := Grammar.items (ending tokens) false false (ahead tokens)
  ⟨all.value, all.noted⟩

end Program
end BlockScript
