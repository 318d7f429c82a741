import BlockScript.Grammar.Fault
import BlockScript.Run.Fault
import BlockScript.Source.Tokens

/-!
# Reports

Errors reach the user as reports, one line each. A log keeps the reports that have not been
collected yet, and remembers separately whether there was a static error and whether there was a
runtime error.
-/

namespace BlockScript

/-- An error as it is told to the user. -/
inductive Report where
  /-- An error found before anything ran. The location says more than the line, or nothing. -/
  | static (line : Nat) (location message : String)
  | runtime (line : Nat) (message : String)
  deriving DecidableEq, Repr

namespace Report

def atToken (token : Token) (message : String) : Report :=
  static token.line token.location message

def inRun (token : Token) (message : String) : Report :=
  runtime token.line message

/-- The line that a report is told in. -/
def text : Report → String
  | static line location message =>
      "[line " ++ toString line ++ "] Error" ++ location ++ ": " ++ message
  | runtime line message => "[line " ++ toString line ++ "] " ++ message

def isStatic : Report → Bool
  | static .. => true
  | runtime .. => false

end Report

/-- A lexical error is located by its line alone. -/
def LexicalError.report (error : LexicalError) : Report :=
  .static error.line "" error.fault.message

/-- A syntax error is located by its token. -/
def SyntaxError.report (error : SyntaxError) : Report :=
  .atToken error.token error.fault.message

/-- A runtime error is located by the line of its token. -/
def RuntimeError.report (error : RuntimeError) : Report :=
  .inRun error.token error.message

/-- The reports that have not been collected, and which sorts of error there were since the last
reset. -/
structure Log where
  reports : List Report
  hadError : Bool
  hadRuntimeError : Bool
  deriving DecidableEq, Repr

namespace Log

def empty : Log :=
  ⟨[], false, false⟩

def add (reports : List Report) (log : Log) : Log :=
  { reports := log.reports ++ reports
    hadError := log.hadError || reports.any (·.isStatic)
    hadRuntimeError := log.hadRuntimeError || reports.any (!·.isStatic) }

/-- Forgets which sorts of error there were, and keeps the reports. -/
def reset (log : Log) : Log :=
  ⟨log.reports, false, false⟩

/-- Drops the reports, and keeps which sorts of error there were. -/
def collected (log : Log) : Log :=
  ⟨[], log.hadError, log.hadRuntimeError⟩

def lines (log : Log) : List String :=
  log.reports.map Report.text

@[simp] theorem add_nil (log : Log) : log.add [] = log := by
  simp [add]

theorem add_append (first second : List Report) (log : Log) :
    log.add (first ++ second) = (log.add first).add second := by
  simp [add, Bool.or_assoc]

end Log
end BlockScript
