import BlockScript.CommandLine.Arguments
import BlockScript.Session.Prompt

/-!
# Launching from the command line

What the program writes and how it exits, given its arguments, the files it can read and its input.
Nothing here performs any input or output, so the whole behaviour of the program is a function.
-/

namespace BlockScript.CommandLine

/-- Why a script cannot be read. -/
inductive ReadFault where
  /-- The system refused, with a description and a number of its own. -/
  | system (description : String) (code : Nat)
  | notText
  deriving DecidableEq, Repr

namespace ReadFault

def missing : ReadFault :=
  system "No such file or directory" 2

/-- The name is that of a directory. -/
def directory : ReadFault :=
  system "Is a directory" 21

def message : ReadFault → String
  | system description code => description ++ " (os error " ++ toString code ++ ")"
  | notText => "stream did not contain valid UTF-8"

end ReadFault

/-- The exit status of the program. -/
inductive Status where
  | success
  | usageError
  | staticError
  | unreadable
  | runtimeError
  deriving DecidableEq, Repr

/-- The number by which the system knows an exit status. -/
def Status.code : Status → Nat
  | success => 0
  | usageError => 64
  | staticError => 65
  | unreadable => 66
  | runtimeError => 70

/-- What a launch of the program writes and how it exits. -/
structure Ending where
  transcript : Transcript
  status : Status
  deriving DecidableEq, Repr

/-- The contents of a script, if they are text. -/
def decode (contents : Except ReadFault ByteArray) : Except ReadFault String :=
  match contents with
  | .error fault => .error fault
  | .ok bytes =>
      match String.fromUTF8? bytes with
      | some source => .ok source
      | none => .error .notText

/-- How a session that has run a script exits. A static error goes before a runtime error. -/
def statusOf (log : Log) : Status :=
  if log.hadError then .staticError
  else if log.hadRuntimeError then .runtimeError
  else .success

/-- Runs a script that was read under a name. -/
def runScript (fuel : Nat) (echoing : Bool) (name : String)
    (contents : Except ReadFault ByteArray) : Option Ending :=
  match decode contents with
  | .error fault =>
      some ⟨⟨"", "Could not read '" ++ name ++ "': " ++ fault.message ++ "\n"⟩, .unreadable⟩
  | .ok source =>
      match (Session.initial echoing).run fuel source with
      | none => none
      | some session =>
          some ⟨⟨session.machine.output.text, unlines session.log.lines⟩, statusOf session.log⟩

/-- Runs the prompt on the whole of its input. -/
def runPrompt (fuel : Nat) (echoing : Bool) (input : ByteArray) : Option Ending :=
  match Prompt.runLines fuel (Prompt.lines input.toList) (.initial echoing) with
  | none => none
  | some (transcript, _) => some ⟨transcript, .success⟩

/-- Launches the program. There is no ending if it runs out of fuel. -/
def launch (fuel : Nat) (arguments : List String)
    (readFile : String → Except ReadFault ByteArray) (input : ByteArray) : Option Ending :=
  match Invocation.ofArguments arguments with
  | .error error => some ⟨⟨"", error.message ++ "\n"⟩, .usageError⟩
  | .ok .help => some ⟨⟨helpText, ""⟩, .success⟩
  | .ok .version => some ⟨⟨versionText, ""⟩, .success⟩
  | .ok (.start echoing none) => runPrompt fuel echoing input
  | .ok (.start echoing (some script)) => runScript fuel echoing script (readFile script)

end BlockScript.CommandLine
