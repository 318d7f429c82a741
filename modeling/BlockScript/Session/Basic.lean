import BlockScript.Grammar.Program
import BlockScript.Run.Execution
import BlockScript.Session.Report
import BlockScript.Syntax.SExpression

/-!
# Sessions

A session runs source texts one after another on one machine, so that later texts see the variables
of earlier ones. A text with a static error is reported and not executed, and neither is any later
text until the log has been reset.
-/

namespace BlockScript

/-- Shows the statements of a program as s-expressions, one to a line. -/
def Execution.echo : List Stmt → Execution Unit
  | [] => pure ()
  | statement :: rest => do
      Execution.writeLine statement.render
      Execution.echo rest

/-- A machine, the log of what went wrong on it, and whether programs are shown before they run. -/
structure Session where
  machine : Machine
  log : Log
  echoing : Bool

namespace Session

def initial (echoing : Bool) : Session :=
  ⟨.initial .empty, .empty, echoing⟩

/-- Executes a program, after showing it if the session does so. -/
def launch (fuel : Nat) (echoing : Bool) (statements : List Stmt) : Execution Unit := do
  if echoing then
    Execution.echo statements
  interpret fuel statements

/-- Runs a source text. There is no session afterwards if the text runs out of fuel. -/
def run (fuel : Nat) (source : String) : Session → Option Session
  | ⟨machine, log, echoing⟩ =>
      let lexed := Lexed.ofText source
      let program := Program.ofTokens lexed.tokens
      let log :=
        log.add (lexed.errors.map (·.report) ++ program.errors.map (·.report))
      if log.hadError then
        some ⟨machine, log, echoing⟩
      else
        match launch fuel echoing program.statements machine with
        | .ok _ machine => some ⟨machine, log, echoing⟩
        | .error (.error error) machine => some ⟨machine, log.add [error.report], echoing⟩
        | .error .outOfFuel _ => none

/-- Forgets which sorts of error there were. -/
def reset (session : Session) : Session :=
  { session with log := session.log.reset }

def takeReports (session : Session) : List Report × Session :=
  (session.log.reports, { session with log := session.log.collected })

/-- Takes the text that has been written out of the sink. -/
def takeOutput : Session → String × Session
  | ⟨⟨scopes, text, offered, accepts, keeps⟩, log, echoing⟩ =>
      (text, ⟨⟨scopes, "", offered, accepts, keeps⟩, log, echoing⟩)

end Session
end BlockScript
