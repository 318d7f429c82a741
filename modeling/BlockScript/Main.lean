import BlockScript.CommandLine.Launch

/-!
# The program

Reads files and input, and writes what `BlockScript.CommandLine` says. The prompt is run line by
line, so that its answers appear as soon as a line has been read.
-/

namespace BlockScript.CommandLine

/-- What the number of a system error stands for. Some platforms count errors downward from zero. -/
def systemFault (code : UInt32) (details : String) : ReadFault :=
  let number := min code.toNat (-code).toNat
  match number with
  | 2 => .missing
  | 13 => .system "Permission denied" 13
  | 20 => .system "Not a directory" 20
  | 21 => .directory
  | _ => .system details number

/-- What a failed attempt to read a file comes to. -/
def faultOf (error : IO.Error) : ReadFault :=
  match error with
  | .noFileOrDirectory _ code details
  | .inappropriateType _ code details
  | .permissionDenied _ code details
  | .invalidArgument _ code details => systemFault code details
  | other => .system (toString other) 0

def readScript (name : String) : IO (Except ReadFault ByteArray) := do
  try
    return .ok (← IO.FS.readBinFile name)
  catch error =>
    return .error (faultOf error)

def write (transcript : Transcript) : IO Unit := do
  let output ← IO.getStdout
  output.putStr transcript.output
  output.flush
  let errors ← IO.getStderr
  errors.putStr transcript.errors
  errors.flush

/-- Reads the bytes of a line, up to and including its line break. -/
partial def readLine (input : IO.FS.Stream) (line : List UInt8) : IO (List UInt8) := do
  match (← input.read 1).toList with
  | [] => return line.reverse
  | byte :: _ =>
      if byte = 10 then
        return (byte :: line).reverse
      else
        readLine input (byte :: line)

/-- Runs the prompt until the input ends. -/
partial def converse (input : IO.FS.Stream) (session : Session) : IO Unit := do
  write ⟨Prompt.mark, ""⟩
  let line ← readLine input []
  if line.isEmpty then
    write ⟨"\n", ""⟩
  else
    match Prompt.step Execution.ampleFuel line session with
    | none => return
    | some (transcript, session) =>
        write transcript
        converse input session

/-- Runs the program and says how it exits. -/
def perform (arguments : List String) : IO Status := do
  match Invocation.ofArguments arguments with
  | .ok (.start echoing none) =>
      converse (← IO.getStdin) (.initial echoing)
      return .success
  | invocation =>
      let contents ← match invocation with
        | .ok (.start _ (some script)) => readScript script
        | _ => pure (.error .missing)
      match launch Execution.ampleFuel arguments (fun _ => contents) ByteArray.empty with
      | none => return .runtimeError
      | some ending =>
          write ending.transcript
          return ending.status

end BlockScript.CommandLine

def main (arguments : List String) : IO UInt32 := do
  return UInt32.ofNat (← BlockScript.CommandLine.perform arguments).code
