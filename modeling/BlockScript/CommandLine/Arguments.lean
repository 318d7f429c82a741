/-!
# Command line arguments

The command line has one flag and at most one script. Two further flags ask for the help text and
the version. Arguments are read from left to right, and the first request for a text, or the first
argument that is not understood, decides; a flag given twice is found out only at the end.
-/

namespace BlockScript.CommandLine

/-- What the command line asks for. -/
inductive Invocation where
  | help
  | version
  /-- Run a script, or the prompt if there is no script. -/
  | start (echoing : Bool) (script : Option String)
  deriving DecidableEq, Repr

/-- What can be wrong with a command line. -/
inductive UsageError where
  | unexpectedArgument (argument : String)
  | repeatedFlag
  deriving DecidableEq, Repr

def UsageError.message : UsageError → String
  | unexpectedArgument argument =>
      "error: Found argument '" ++ argument
        ++ "' which wasn't expected, or isn't valid in this context"
  | repeatedFlag =>
      "error: The argument '--print-ast' was provided more than once, "
        ++ "but cannot be used multiple times"

def versionText : String :=
  "treelox 0.1.0\n"

def helpText : String :=
  versionText
    ++ "Tree-walking interpreter for a small Lox-style scripting language\n"
    ++ "\nUSAGE:\n    treelox [FLAGS] [script]\n"
    ++ "\nFLAGS:\n"
    ++ "    -h, --help         Prints help information\n"
    ++ "        --print-ast    Print each parsed statement as an s-expression before running it\n"
    ++ "    -V, --version      Prints version information\n"
    ++ "\nARGS:\n"
    ++ "    <script>    Script to run; starts an interactive prompt when omitted\n"

/-- What has been read of a command line that can still be understood. -/
structure Seen where
  /-- How often the flag was given. -/
  echoFlags : Nat
  script : Option String

/-- What a command line comes to, or what is wrong with it. -/
abbrev Outcome := Except UsageError Invocation

/-- Reads an argument that is no flag. There can be only one. -/
def Seen.positional (seen : Seen) (argument : String) : Except UsageError Seen :=
  match seen.script with
  | none => .ok { seen with script := some argument }
  | some _ => .error (.unexpectedArgument argument)

/-- What a long flag asks for. The name stands after any number of dashes and ends at an equals
sign, after which nothing is looked at. -/
def Seen.longFlag (seen : Seen) (argument : String) : Except Outcome Seen :=
  let name := (argument.toList.dropWhile (· == '-')).takeWhile (· != '=')
  if name = "print-ast".toList then
    .ok { seen with echoFlags := seen.echoFlags + 1 }
  else if name = "help".toList then
    .error (.ok .help)
  else if name = "version".toList then
    .error (.ok .version)
  else
    .error (.error (.unexpectedArgument (.ofList ('-' :: '-' :: name))))

/-- What the first of several short flags asks for. Every short flag ends the reading. -/
def shortFlag (flag : Char) : Outcome :=
  match flag with
  | 'h' => .ok .help
  | 'V' => .ok .version
  | _ => .error (.unexpectedArgument (.ofList ['-', flag]))

/-- Reads the arguments after the one that ends the flags. -/
def Seen.afterFlags (seen : Seen) : List String → Except UsageError Seen
  | [] => .ok seen
  | argument :: others =>
      match seen.positional argument with
      | .ok seen => seen.afterFlags others
      | .error error => .error error

/-- What a command line comes to once all of it has been read. -/
def Seen.finish (seen : Seen) : Outcome :=
  if 1 < seen.echoFlags then
    .error .repeatedFlag
  else
    .ok (.start (seen.echoFlags = 1) seen.script)

/-- Reads arguments from left to right. -/
def Seen.read (seen : Seen) : List String → Outcome
  | [] => seen.finish
  | argument :: others =>
      match argument.toList with
      | ['-', '-'] =>
          match seen.afterFlags others with
          | .ok seen => seen.finish
          | .error error => .error error
      | '-' :: '-' :: _ =>
          match seen.longFlag argument with
          | .ok seen => seen.read others
          | .error outcome => outcome
      | '-' :: flag :: _ => shortFlag flag
      | _ =>
          match seen.positional argument with
          | .ok seen => seen.read others
          | .error error => .error error

/-- What a command line asks for, or what is wrong with it. -/
def Invocation.ofArguments (arguments : List String) : Outcome :=
  Seen.read ⟨0, none⟩ arguments

end BlockScript.CommandLine
