import BlockScript.Proofs.Effect.Correspondence
import BlockScript.Proofs.Session.Finishing
import BlockScript.Proofs.Session.Lines

/-!
# Rejected lines have no effect

A line that is no text or has a static error is rejected. Between the lines a session is idle: it
holds no reports, no flag is set and only the global scope is open. From an idle session a line
takes the machine where its program takes it, if it is not rejected, and nowhere otherwise. So the
prompt comes to what the programs of the lines that are not rejected come to in a row.

The prompt takes the output out of the session after each line. A program cannot see the output and
so does the same whether or not it still is there, which is how the output of the lines adds up to
that of the programs.
-/

namespace BlockScript

/-! ## Output that is there already -/

/-- The sink with a text written to it before all that has been written. -/
def Sink.prepend (text : String) (sink : Sink) : Sink :=
  { sink with text := text ++ sink.text }

theorem Sink.writeLine_prepend (text line : String) (sink : Sink) :
    (sink.prepend text).writeLine line = (sink.writeLine line).prepend text := by
  obtain ⟨written, offered, accepts, keeps⟩ := sink
  exact congrArg (Sink.mk · (offered + 1) accepts keeps) (String.append_assoc ..)

/-- The machine with a text written to its output before all that has been written. -/
def Machine.prepend (text : String) (machine : Machine) : Machine :=
  { machine with output := machine.output.prepend text }

theorem Machine.prepend_empty (machine : Machine) : machine.prepend "" = machine := by
  simp [prepend, Sink.prepend]

theorem Machine.prepend_prepend (first second : String) (machine : Machine) :
    (machine.prepend second).prepend first = machine.prepend (first ++ second) := by
  simp [prepend, Sink.prepend, String.append_assoc]

/-- Programs cannot see what has been written before. -/
theorem correspondence_prepend (text : String) :
    Correspondence (fun _ => Eq) fun left right => right = left.prepend text :=
  correspondence_ofOutput fun same line => by rw [same, Sink.writeLine_prepend]

theorem machines_prepend_iff {text : String} {inside : Nat} {left right : Machine} :
    Correspondence.Machines (fun _ => Eq) (fun left right => right = left.prepend text) inside left
      right ↔ right = left.prepend text := by
  constructor
  · intro machines
    obtain ⟨scopes, output⟩ := right
    obtain ⟨rfl, rfl⟩ := machines
    rfl
  · intro isRight
    subst isRight
    exact ⟨rfl, rfl⟩

/-- Programs write after what has been written before. -/
theorem interpretEach_prepend (fuel : Nat) (text : String) (programs : List (List Stmt))
    (machine : Machine) :
    interpretEach fuel programs (machine.prepend text) =
      (interpretEach fuel programs machine).map (·.prepend text) := by
  induction programs generalizing machine with
  | nil => rfl
  | cons program rest inductionHypothesis =>
      have replies := respects_interpret (correspondence_prepend text) fuel 0 program machine
        (machine.prepend text) (machines_prepend_iff.mpr rfl)
      rw [interpretEach, interpretEach]
      generalize interpret fuel program machine = reply,
        interpret fuel program (machine.prepend text) = replyPrepended at replies ⊢
      cases replies with
      | ok value machines =>
          cases machines_prepend_iff.mp machines
          exact inductionHypothesis _
      | error stop machines =>
          cases machines_prepend_iff.mp machines
          cases stop with
          | error error => exact inductionHypothesis _
          | outOfFuel => rfl

namespace Prompt

/-! ## Lines that are rejected -/

/-- A line is rejected if it is no text or a text with a static error. -/
inductive Rejected (line : List UInt8) : Prop where
  | notText (undecoded : decode? line = none)
  | faulty {source : String} (decoded : decode? line = some source)
      (unclean : History.isClean source = false)

/-- The program of a line that is not rejected. -/
def program? (line : List UInt8) : Option (List Stmt) :=
  match decode? line with
  | none => none
  | some source =>
      if History.isClean source then some (Program.ofText source).statements else none

def programs (lines : List (List UInt8)) : List (List Stmt) :=
  lines.filterMap program?

theorem program?_of_rejected {line : List UInt8} (rejected : Rejected line) :
    program? line = none := by
  cases rejected with
  | notText undecoded => rw [program?, undecoded]
  | faulty decoded unclean =>
      rw [program?, decoded]
      simp [unclean]

theorem programs_append (first second : List (List UInt8)) :
    programs (first ++ second) = programs first ++ programs second :=
  List.filterMap_append

theorem programs_cons (line : List UInt8) (others : List (List UInt8)) :
    programs (line :: others) = (program? line).toList ++ programs others := by
  rw [programs, programs, List.filterMap_cons]
  cases program? line with
  | none => rfl
  | some program => rfl

/-- The lines that are deleted had no programs. -/
theorem programs_eq_of_deletes {all kept : List (List UInt8)}
    (deletes : Deletes Rejected all kept) : programs kept = programs all := by
  induction deletes with
  | nil => rfl
  | keep line rest inductionHypothesis =>
      rw [programs_cons, programs_cons, inductionHypothesis]
  | delete rejected rest inductionHypothesis =>
      rw [programs_cons, program?_of_rejected rejected, inductionHypothesis]
      rfl

/-! ## One line -/

/-- A session that is between two lines. -/
structure Idle (session : Session) : Prop where
  log : session.log = .empty
  silent : session.echoing = false

/-- The machine of a session, as it is if the output that was taken out of it is put back. -/
def restored (written : List Transcript) (session : Session) : Machine :=
  session.machine.prepend (String.join (written.map (·.output)))

theorem restored_nil (session : Session) : restored [] session = session.machine :=
  session.machine.prepend_empty

theorem restored_cons (first : Transcript) (rest : List Transcript) (session : Session) :
    restored (first :: rest) session = (restored rest session).prepend first.output := by
  rw [restored, restored, Machine.prepend_prepend, List.map_cons, String.join_cons]

variable {fuel : Nat} {line : List UInt8} {session next : Session} {written : Transcript}

/-- Reports and output are taken out of the session that a text has been run in. -/
theorem step_of_run {source : String} {scopes : Scopes} {sink : Sink} {log : Log} {echoing : Bool}
    (decoded : decode? line = some source)
    (run : session.run fuel source = some ⟨⟨scopes, sink⟩, log, echoing⟩) :
    step fuel line session =
      some (⟨sink.text, unlines (log.reports.map Report.text)⟩,
        ⟨⟨scopes, { sink with text := "" }⟩, .empty, echoing⟩) := by
  rw [step, decoded]
  simp only [run]
  rfl

theorem step_of_run_eq_none {source : String} (decoded : decode? line = some source)
    (run : session.run fuel source = none) : step fuel line session = none := by
  rw [step, decoded]
  simp only [run]

/-- The output that is taken out of a session can be put back. -/
theorem restored_emptied (scopes : Scopes) (sink : Sink) (errors : String) (log : Log)
    (echoing : Bool) :
    restored [⟨sink.text, errors⟩] ⟨⟨scopes, { sink with text := "" }⟩, log, echoing⟩ =
      ⟨scopes, sink⟩ := by
  simp [restored, Machine.prepend, Sink.prepend]

theorem Idle.hadError_add (idle : Idle session) (source : String) :
    (session.log.add (staticReports source)).hadError = !History.isClean source := by
  rw [idle.log, Log.add, any_isStatic_staticReports]
  rfl

/-- What an idle session has run comes to what the program of the text comes to, and that is nothing
if the text is not clean. -/
theorem Idle.run_eq_some (idle : Idle session) {source : String}
    (run : session.run fuel source = some next) :
    next.echoing = false ∧
      interpretEach fuel
        (if History.isClean source then [(Program.ofText source).statements] else [])
        session.machine = some next.machine := by
  have hadError := idle.hadError_add source
  obtain ⟨failed, rfl⟩ | ⟨clean, machine, reply, rfl⟩ | ⟨clean, error, machine, reply, rfl⟩ :=
    Session.run_cases idle.silent run
  · refine ⟨rfl, ?_⟩
    have unclean : History.isClean source = false := by simpa [hadError] using failed
    simp [unclean, interpretEach]
  all_goals
    refine ⟨rfl, ?_⟩
    have isClean : History.isClean source = true := by simpa [hadError] using clean
    simp [isClean, interpretEach, reply]

theorem Idle.run_eq_none (idle : Idle session) {source : String}
    (unended : session.run fuel source = none) :
    interpretEach fuel
      (if History.isClean source then [(Program.ofText source).statements] else [])
      session.machine = none := by
  obtain ⟨noError, left, reply⟩ := Session.run_eq_none idle.silent unended
  have isClean : History.isClean source = true := by
    simpa [idle.hadError_add source] using noError
  simp [isClean, interpretEach, reply]

theorem program?_toList {source : String} (decoded : decode? line = some source) :
    (program? line).toList =
      if History.isClean source then [(Program.ofText source).statements] else [] := by
  rw [program?, decoded]
  cases isClean : History.isClean source <;> simp [isClean]

/-- A line leaves an idle session idle. -/
theorem Idle.step (idle : Idle session) (took : step fuel line session = some (written, next)) :
    Idle next := by
  cases decoded : decode? line with
  | none =>
      rw [Prompt.step, decoded] at took
      cases took
      exact idle
  | some source =>
      cases run : session.run fuel source with
      | none =>
          rw [step_of_run_eq_none decoded run] at took
          cases took
      | some after =>
          have silent := (idle.run_eq_some run).1
          rw [step_of_run decoded run] at took
          cases took
          exact ⟨rfl, silent⟩

/-- A line takes the machine of an idle session where its program takes it, if it is not rejected,
and otherwise nowhere. -/
theorem Idle.interpretEach_step (idle : Idle session) (fuel : Nat) (line : List UInt8) :
    interpretEach fuel (program? line).toList session.machine =
      (Prompt.step fuel line session).map fun (written, next) => restored [written] next := by
  cases decoded : decode? line with
  | none =>
      rw [program?, Prompt.step, decoded]
      exact congrArg some session.machine.prepend_empty.symm
  | some source =>
      rw [program?_toList decoded]
      cases run : session.run fuel source with
      | none => rw [step_of_run_eq_none decoded run, idle.run_eq_none run, Option.map_none]
      | some after =>
          rw [step_of_run decoded run, (idle.run_eq_some run).2]
          exact congrArg some (restored_emptied _ _ _ _ _).symm

/-! ## All the lines -/

/-- Runs lines in order, and says what each of them writes. -/
def runEach (fuel : Nat) :
    List (List UInt8) → Session → Option (List Transcript × Session)
  | [], session => some ([], session)
  | line :: others, session =>
      match step fuel line session with
      | none => none
      | some (first, session) =>
          (runEach fuel others session).map fun (rest, session) => (first :: rest, session)

/-- What is on the screen when the lines have been run that write this. -/
def screen (written : List Transcript) : Transcript where
  output := String.join (written.map fun transcript => mark ++ transcript.output) ++ (mark ++ "\n")
  errors := String.join (written.map (·.errors))

/-- The prompt runs each line and shows all that they write. -/
theorem runLines_eq (fuel : Nat) (lines : List (List UInt8)) (session : Session) :
    runLines fuel lines session =
      (runEach fuel lines session).map fun (written, final) => (screen written, final) := by
  induction lines generalizing session with
  | nil => rfl
  | cons line others inductionHypothesis =>
      rw [runLines, runEach]
      cases step fuel line session with
      | none => rfl
      | some taken =>
          obtain ⟨first, next⟩ := taken
          simp only [inductionHypothesis]
          cases runEach fuel others next with
          | none => rfl
          | some run => simp [screen, String.append_assoc]

theorem runEach_append (fuel : Nat) (first second : List (List UInt8)) (session : Session) :
    runEach fuel (first ++ second) session =
      (runEach fuel first session).bind fun (written, between) =>
        (runEach fuel second between).map fun (others, final) => (written ++ others, final) := by
  induction first generalizing session with
  | nil => simp [runEach]
  | cons line others inductionHypothesis =>
      rw [List.cons_append, runEach, runEach]
      cases step fuel line session with
      | none => rfl
      | some taken =>
          obtain ⟨before, next⟩ := taken
          simp only [inductionHypothesis]
          cases runEach fuel others next with
          | none => rfl
          | some run => simp [Function.comp_def]

theorem Idle.runEach {lines : List (List UInt8)} {transcripts : List Transcript}
    (idle : Idle session) (ran : runEach fuel lines session = some (transcripts, next)) :
    Idle next := by
  induction lines generalizing session transcripts with
  | nil =>
      cases ran
      exact idle
  | cons line others inductionHypothesis =>
      rw [Prompt.runEach] at ran
      cases took : Prompt.step fuel line session with
      | none =>
          rw [took] at ran
          cases ran
      | some taken =>
          obtain ⟨first, between⟩ := taken
          simp only [took, Option.map_eq_some_iff] at ran
          obtain ⟨⟨rest, final⟩, restRan, same⟩ := ran
          cases same
          exact inductionHypothesis (idle.step took) restRan

/-- The machine after lines have been run, with all their output. -/
def machineAfter (fuel : Nat) (lines : List (List UInt8)) (session : Session) : Option Machine :=
  (runEach fuel lines session).map fun (written, final) => restored written final

/-- From an idle session, lines come to what the programs of those that are not rejected come to in
a row. -/
theorem Idle.machineAfter_eq (idle : Idle session) (fuel : Nat) (lines : List (List UInt8)) :
    machineAfter fuel lines session = interpretEach fuel (programs lines) session.machine := by
  induction lines generalizing session with
  | nil => exact congrArg some (restored_nil session)
  | cons line others inductionHypothesis =>
      rw [programs_cons, interpretEach_append, idle.interpretEach_step, machineAfter, Prompt.runEach]
      cases took : Prompt.step fuel line session with
      | none => rfl
      | some taken =>
          obtain ⟨first, between⟩ := taken
          -- The later programs run after output that they cannot see.
          have othersRun := inductionHypothesis (idle.step took)
          simp only [Option.map_some, Option.bind_some, restored_cons, restored_nil,
            interpretEach_prepend, ← othersRun, machineAfter, Option.map_map, Function.comp_def]

theorem idle_fresh (output : Sink) : Idle (.fresh output) :=
  ⟨rfl, rfl⟩

/-- The machine before lines that run in the session that other lines leave. -/
theorem machineAfter_append (fuel : Nat) (first second : List (List UInt8)) (output : Sink) :
    machineAfter fuel (first ++ second) (.fresh output) =
      (machineAfter fuel first (.fresh output)).bind
        (interpretEach fuel (programs second)) := by
  have idle := idle_fresh output
  rw [idle.machineAfter_eq, idle.machineAfter_eq, programs_append, interpretEach_append]

theorem depth_of_runEach {lines : List (List UInt8)} {transcripts : List Transcript}
    {output : Sink} (ran : runEach fuel lines (.fresh output) = some (transcripts, next)) :
    next.machine.scopes.depth = 0 := by
  have after := (idle_fresh output).machineAfter_eq fuel lines
  rw [machineAfter, ran] at after
  exact depth_interpretEach after.symm

/-! ## Any input -/

/-- What the prompt comes to on an input, if its session begins afresh and shows no programs. -/
structure Undisturbed (fuel : Nat) (output : Sink) (input : List UInt8) : Prop where
  /-- It shows what the lines write one after another. -/
  screen : runLines fuel (lines input) (.fresh output) =
    (runEach fuel (lines input) (.fresh output)).map fun (written, final) =>
      (Prompt.screen written, final)
  /-- It ends if the programs of the lines that are not rejected do, and with the same scopes and the
  same output. -/
  machine : machineAfter fuel (lines input) (.fresh output) =
    interpretEach fuel (programs (lines input)) (.initial output)
  /-- Any rejected lines can be left out of the input. -/
  deletion : ∀ kept, Deletes Rejected (lines input) kept → lines kept.flatten = kept ∧
    machineAfter fuel (lines kept.flatten) (.fresh output) =
      machineAfter fuel (lines input) (.fresh output)
  /-- Before each line, and at the end, no report is held, no flag is set and only the global scope
  is open. -/
  between : ∀ before later, lines input = before ++ later →
    ∀ written session, runEach fuel before (.fresh output) = some (written, session) →
      session.log = .empty ∧ session.machine.scopes.depth = 0 ∧
        runEach fuel (lines input) (.fresh output) =
          (runEach fuel later session).map fun (others, final) => (written ++ others, final)
  /-- A line that fails keeps what it has done before it failed, and the later lines go on from
  there. -/
  failing : ∀ before line later, lines input = before ++ line :: later →
    ∀ program, program? line = some program →
      ∀ machine, machineAfter fuel before (.fresh output) = some machine →
        ∀ error after, interpret fuel program machine = .error (.error error) after →
          machineAfter fuel (before ++ [line]) (.fresh output) = some after ∧
            machineAfter fuel (lines input) (.fresh output) =
              interpretEach fuel (programs later) after

/-- Rejected lines have no effect at the prompt, whatever its input is. -/
theorem undisturbed_byRejected (fuel : Nat) (output : Sink) (input : List UInt8) :
    Undisturbed fuel output input where
  screen := runLines_eq fuel (lines input) (.fresh output)
  machine := (idle_fresh output).machineAfter_eq fuel (lines input)
  deletion := by
    intro kept deletes
    have inputCut : Cut (lines input) := (lines_eq_iff.mp rfl).1
    have keptLines : lines kept.flatten = kept := lines_eq_iff.mpr ⟨deletes.cut inputCut, rfl⟩
    have idle := idle_fresh output
    refine ⟨keptLines, ?_⟩
    rw [keptLines, idle.machineAfter_eq, idle.machineAfter_eq, programs_eq_of_deletes deletes]
  between := by
    intro before later split written session ran
    refine ⟨((idle_fresh output).runEach ran).log, depth_of_runEach ran, ?_⟩
    rw [split, runEach_append, ran]
    rfl
  failing := by
    intro before line later split program isProgram machine reached error after failed
    have lineFails : machineAfter fuel (before ++ [line]) (.fresh output) = some after := by
      rw [machineAfter_append, reached, Option.bind_some, programs_cons, isProgram]
      simp only [Option.toList_some, List.singleton_append, interpretEach, failed]
      rfl
    refine ⟨lineFails, ?_⟩
    rw [split, List.append_cons, machineAfter_append, lineFails]
    rfl

end Prompt

end BlockScript
