import BlockScript.CommandLine.Launch
import BlockScript.Proofs.Semantics.Depth
import BlockScript.Proofs.Session.History

/-!
# What sessions come to

The state of a session is the one that its history gives: the machine is that of the effective
programs alone, the flags tell of the runs since the last reset, and no report is lost, doubled or
out of place. Each step keeps this up, and so it holds after any steps.
-/

namespace BlockScript

/-! ## Reports and displays -/

theorem LexicalError.text_report (error : LexicalError) : error.report.text = error.display := by
  have colon (message : String) : "] Error" ++ (": " ++ message) = "] Error: " ++ message := by
    rw [← String.append_assoc]
    rfl
  simp only [report, Report.text, display, String.append_empty, String.append_assoc, colon]

theorem SyntaxError.text_report (error : SyntaxError) : error.report.text = error.display := by
  simp only [report, Report.atToken, Report.text, display, Token.location]
  split
  · rename_i isFinish
    rw [if_pos isFinish]
  · rename_i notFinish
    rw [if_neg notFinish]

theorem RuntimeError.text_report (error : RuntimeError) : error.report.text = error.display := rfl

def staticReports (source : String) : List Report :=
  (Lexed.ofText source).errors.map LexicalError.report ++
    (Program.ofText source).errors.map SyntaxError.report

theorem text_staticReports (source : String) : (staticReports source).map Report.text =
    (Lexed.ofText source).errors.map LexicalError.display ++
      (Program.ofText source).errors.map SyntaxError.display := by
  simp [staticReports, Function.comp_def, LexicalError.text_report, SyntaxError.text_report]

theorem any_isStatic_staticReports (source : String) :
    (staticReports source).any (·.isStatic) = !History.isClean source := by
  rw [staticReports, History.isClean]
  cases (Lexed.ofText source).errors with
  | cons error rest => rfl
  | nil =>
      cases (Program.ofText source).errors with
      | cons error rest => rfl
      | nil => rfl

theorem any_not_isStatic_staticReports (source : String) :
    (staticReports source).any (!·.isStatic) = false := by
  simp [staticReports, LexicalError.report, SyntaxError.report, Report.atToken, Report.isStatic]

/-! ## Programs in a row -/

theorem interpretEach_append (fuel : Nat) (first second : List (List Stmt)) (machine : Machine) :
    interpretEach fuel (first ++ second) machine =
      (interpretEach fuel first machine).bind (interpretEach fuel second) := by
  induction first generalizing machine with
  | nil => rfl
  | cons program rest inductionHypothesis =>
      simp only [List.cons_append, interpretEach]
      cases interpret fuel program machine with
      | ok value after => exact inductionHypothesis after
      | error stop after =>
          cases stop with
          | error error => exact inductionHypothesis after
          | outOfFuel => rfl

theorem depth_interpretEach {fuel : Nat} {programs : List (List Stmt)} {before after : Machine}
    (interpreted : interpretEach fuel programs before = some after) :
    after.scopes.depth = before.scopes.depth := by
  induction programs generalizing before with
  | nil =>
      cases interpreted
      rfl
  | cons program rest inductionHypothesis =>
      have keeps := keepsDepth_interpret fuel program before
      rw [interpretEach] at interpreted
      cases reply : interpret fuel program before with
      | ok value middle =>
          rw [reply] at interpreted
          have kept := keeps _ _ (ends_of_ok reply)
          exact (inductionHypothesis interpreted).trans kept
      | error stop middle =>
          cases stop with
          | error error =>
              rw [reply] at interpreted
              have kept := keeps _ _ (ends_of_error reply rfl)
              exact (inductionHypothesis interpreted).trans kept
          | outOfFuel =>
              rw [reply] at interpreted
              cases interpreted

/-! ## One step -/

/-- The session is what its history says that it should be, if these reports have been taken out of
it. -/
structure Tells (fuel : Nat) (output : Sink) (history : History) (taken : List Report)
    (session : Session) : Prop where
  machine : interpretEach fuel history.effectivePrograms (.initial output) = some session.machine
  silent : session.echoing = false
  hadError : session.log.hadError = !history.recent.all History.isClean
  hadRuntimeError :
    session.log.hadRuntimeError = true ↔ history.FailedRecently fuel output
  reports : (taken ++ session.log.reports).map Report.text =
    (History.attempts [] history).flatMap (History.texts fuel output)

/-- Without showing it, a program is just interpreted. -/
theorem Session.launch_silent (fuel : Nat) (statements : List Stmt) :
    launch fuel false statements = interpret fuel statements := by
  rw [launch, if_neg Bool.false_ne_true]

/-- What a run can do. It adds the reports of the static errors. Unless there has been a static
error since the last reset, it executes the program, and a runtime error adds a report. -/
theorem Session.run_cases {fuel : Nat} {source : String} {session next : Session}
    (silent : session.echoing = false) (run : session.run fuel source = some next) :
    let log := session.log.add (staticReports source)
    let program := (Program.ofText source).statements
    (log.hadError = true ∧ next = ⟨session.machine, log, false⟩) ∨
      (log.hadError = false ∧ ∃ machine, interpret fuel program session.machine = .ok () machine ∧
        next = ⟨machine, log, false⟩) ∨
      (log.hadError = false ∧ ∃ error machine,
        interpret fuel program session.machine = .error (.error error) machine ∧
        next = ⟨machine, log.add [error.report], false⟩) := by
  intro log program
  cases session with
  | mk machine old echoing =>
      cases silent
      rw [Session.run, launch_silent] at run
      split at run
      · rename_i hadError
        cases run
        exact .inl ⟨hadError, rfl⟩
      · rename_i hadNoError
        have clean : log.hadError = false := Bool.of_not_eq_true hadNoError
        right
        split at run
        · rename_i value after reply
          cases run
          exact .inl ⟨clean, after, reply, rfl⟩
        · rename_i error after reply
          cases run
          exact .inr ⟨clean, error, after, reply, rfl⟩
        · cases run

namespace Tells

variable {fuel : Nat} {output : Sink} {history : History} {taken : List Report}
variable {session next : Session}

theorem fresh (fuel : Nat) (output : Sink) : Tells fuel output [] [] (.fresh output) where
  machine := rfl
  silent := rfl
  hadError := rfl
  hadRuntimeError := by
    constructor
    · intro absurd
      cases absurd
    · intro failed
      rcases failed with ⟨before, source, later, same, _⟩
      cases before <;> cases same
  reports := rfl

/-- Whether a run is effective can be read off the log once its static errors have been added. -/
theorem hadError_add (tells : Tells fuel output history taken session) (source : String) :
    (session.log.add (staticReports source)).hadError = !history.effective source := by
  rw [Log.add, History.effective, any_isStatic_staticReports, tells.hadError, List.all_append,
    Bool.not_and, List.all_cons, List.all_nil, Bool.and_true]

theorem hadRuntimeError_add (session : Session) (source : String) :
    (session.log.add (staticReports source)).hadRuntimeError = session.log.hadRuntimeError := by
  rw [Log.add, any_not_isStatic_staticReports, Bool.or_false]

/-- An effective run ends the way its program does on the machine of the session. -/
theorem failure?_of_effective (tells : Tells fuel output history taken session) {source : String}
    (effective : history.effective source = true) :
    History.failure? fuel output history source =
      match interpret fuel (Program.ofText source).statements session.machine with
      | .error (.error error) _ => some error
      | _ => none := by
  cases reply : interpret fuel (Program.ofText source).statements session.machine with
  | ok value after => simp only [History.failure?, effective, if_true, tells.machine, reply]
  | error stop after =>
      cases stop <;> simp only [History.failure?, effective, if_true, tells.machine, reply]

theorem failure?_of_not_effective {source : String}
    (notEffective : history.effective source = false) :
    History.failure? fuel output history source = none := by
  rw [History.failure?, notEffective, if_neg Bool.false_ne_true]

theorem texts_eq (source : String) :
    History.texts fuel output (history, source) =
      (staticReports source ++
        (History.failure? fuel output history source).toList.map RuntimeError.report).map
          Report.text := by
  have texts : Report.text ∘ RuntimeError.report = RuntimeError.display :=
    funext RuntimeError.text_report
  rw [History.texts, List.map_append, List.map_map, text_staticReports, texts]

/-- A session is told of again after a run that has left the machine that its history gives, and the
runtime error that its history gives. -/
theorem ran (tells : Tells fuel output history taken session) {source : String} {machine : Machine}
    {error? : Option RuntimeError}
    (interpreted : interpretEach fuel (History.effectivePrograms (history ++ [.run source]))
      (.initial output) = some machine)
    (isFailure : History.failure? fuel output history source = error?) :
    Tells fuel output (history ++ [.run source]) taken
      ⟨machine, (session.log.add (staticReports source)).add
        (error?.toList.map RuntimeError.report), false⟩ where
  machine := interpreted
  silent := rfl
  hadError := by
    have noStatic : (error?.toList.map RuntimeError.report).any (·.isStatic) = false := by
      cases error? <;> rfl
    rw [Log.add, noStatic, Bool.or_false, tells.hadError_add, History.effective,
      History.recent_run]
  hadRuntimeError := by
    have failures : (error?.toList.map RuntimeError.report).any (!·.isStatic) = error?.isSome := by
      cases error? <;> rfl
    rw [Log.add, failures, hadRuntimeError_add, Bool.or_eq_true, tells.hadRuntimeError,
      History.failedRecently_run, isFailure]
  reports := by
    rw [History.attempts_run, List.flatMap_append, ← tells.reports, List.flatMap_singleton,
      texts_eq, isFailure]
    simp only [Log.add, List.map_append, List.append_assoc]

/-- After an effective run, the programs of the history end where the run ends. -/
theorem interpretEach_run (tells : Tells fuel output history taken session) {source : String}
    (effective : history.effective source = true) :
    interpretEach fuel (History.effectivePrograms (history ++ [.run source])) (.initial output) =
      interpretEach fuel [(Program.ofText source).statements] session.machine := by
  rw [History.effectivePrograms_run, if_pos effective, interpretEach_append, tells.machine]
  rfl

theorem run (tells : Tells fuel output history taken session) {source : String}
    (run : session.run fuel source = some next) :
    Tells fuel output (history ++ [.run source]) taken next := by
  have effectiveness := tells.hadError_add source
  rcases Session.run_cases tells.silent run with
    ⟨hadError, rfl⟩ | ⟨noError, machine, reply, rfl⟩ | ⟨noError, error, machine, reply, rfl⟩
  · have notEffective : history.effective source = false := by
      simpa [hadError] using effectiveness
    have interpreted :
        interpretEach fuel (History.effectivePrograms (history ++ [.run source]))
          (.initial output) = some session.machine := by
      rw [History.effectivePrograms_run, notEffective, if_neg Bool.false_ne_true, List.append_nil]
      exact tells.machine
    simpa only [Option.toList_none, List.map_nil, Log.add_nil] using
      tells.ran interpreted (failure?_of_not_effective notEffective)
  · have effective : history.effective source = true := by
      simpa [noError] using effectiveness
    have interpreted := tells.interpretEach_run effective
    have isFailure := tells.failure?_of_effective effective
    rw [interpretEach, reply] at interpreted
    rw [reply] at isFailure
    simpa only [Option.toList_none, List.map_nil, Log.add_nil] using
      tells.ran interpreted isFailure
  · have effective : history.effective source = true := by
      simpa [noError] using effectiveness
    have interpreted := tells.interpretEach_run effective
    have isFailure := tells.failure?_of_effective effective
    rw [interpretEach, reply] at interpreted
    rw [reply] at isFailure
    exact tells.ran interpreted isFailure

theorem reset (tells : Tells fuel output history taken session) :
    Tells fuel output (history ++ [.reset]) taken session.reset where
  machine := by
    rw [History.effectivePrograms_reset]
    exact tells.machine
  silent := tells.silent
  hadError := by
    rw [History.recent_reset]
    rfl
  hadRuntimeError := by
    constructor
    · intro absurd
      cases absurd
    · intro failed
      exact absurd failed (History.not_failedRecently_reset fuel output history)
  reports := by
    rw [History.attempts_reset]
    exact tells.reports

theorem takeReports (tells : Tells fuel output history taken session) :
    Tells fuel output (history ++ [.takeReports]) (taken ++ session.takeReports.1)
      session.takeReports.2 where
  machine := by
    rw [History.effectivePrograms_takeReports]
    exact tells.machine
  silent := tells.silent
  hadError := by
    rw [History.recent_takeReports]
    exact tells.hadError
  hadRuntimeError := by
    rw [History.failedRecently_takeReports]
    exact tells.hadRuntimeError
  reports := by
    rw [History.attempts_takeReports, ← tells.reports]
    simp [Session.takeReports, Log.collected]

/-- Each step takes a session from what its history says to what the longer history says. -/
theorem perform (tells : Tells fuel output history taken session) {step : Session.Step}
    {more : List Report} (performed : session.perform fuel step = some (more, next)) :
    Tells fuel output (history ++ [step]) (taken ++ more) next := by
  cases step with
  | run source =>
      rcases Option.map_eq_some_iff.mp performed with ⟨after, run, same⟩
      cases same
      rw [List.append_nil]
      exact tells.run run
  | reset =>
      cases performed
      rw [List.append_nil]
      exact tells.reset
  | takeReports =>
      cases performed
      exact tells.takeReports

/-- Any number of steps do. -/
theorem performAll (tells : Tells fuel output history taken session) {steps : List Session.Step}
    {more : List Report} (performed : session.performAll fuel steps = some (more, next)) :
    Tells fuel output (history ++ steps) (taken ++ more) next := by
  induction steps generalizing history taken session more with
  | nil =>
      cases performed
      rw [List.append_nil, List.append_nil]
      exact tells
  | cons step rest inductionHypothesis =>
      rw [Session.performAll] at performed
      cases first : session.perform fuel step with
      | none =>
          rw [first] at performed
          cases performed
      | some pair =>
          rw [first] at performed
          rcases pair with ⟨stepTaken, middle⟩
          rcases Option.map_eq_some_iff.mp performed with ⟨⟨others, final⟩, restPerformed, same⟩
          cases same
          have told := inductionHypothesis (tells.perform first) restPerformed
          simpa only [List.append_assoc, List.singleton_append] using told

end Tells

/-! ## Termination -/

/-- A run that does not end is effective, and it is its program that does not end. -/
theorem Session.run_eq_none {fuel : Nat} {source : String} {session : Session}
    (silent : session.echoing = false) (unended : session.run fuel source = none) :
    (session.log.add (staticReports source)).hadError = false ∧
      ∃ left, interpret fuel (Program.ofText source).statements session.machine =
        .error .outOfFuel left := by
  cases session with
  | mk machine log echoing =>
      cases silent
      rw [Session.run, launch_silent] at unended
      split at unended
      · cases unended
      · rename_i hadNoError
        constructor
        · exact Bool.of_not_eq_true hadNoError
        · split at unended
          · cases unended
          · cases unended
          · rename_i left reply
            exact ⟨left, reply⟩

namespace Tells

variable {fuel : Nat} {output : Sink} {history : History} {taken : List Report} {session : Session}

theorem perform_eq_none (tells : Tells fuel output history taken session) {step : Session.Step}
    (unended : session.perform fuel step = none) :
    interpretEach fuel (History.effectivePrograms (history ++ [step])) (.initial output) =
      none := by
  cases step with
  | run source =>
      have runUnended := Option.map_eq_none_iff.mp unended
      rcases Session.run_eq_none tells.silent runUnended with ⟨noError, left, reply⟩
      have effectiveness := tells.hadError_add source
      have effective : history.effective source = true := by
        simpa [noError] using effectiveness
      rw [tells.interpretEach_run effective, interpretEach, reply]
  | reset => cases unended
  | takeReports => cases unended

/-- Steps end exactly if the programs of the effective runs among them do. -/
theorem performAll_eq_none_iff (tells : Tells fuel output history taken session)
    (steps : List Session.Step) :
    session.performAll fuel steps = none ↔
      interpretEach fuel (History.effectivePrograms (history ++ steps)) (.initial output) =
        none := by
  induction steps generalizing history taken session with
  | nil =>
      rw [List.append_nil, tells.machine]
      constructor
      · intro absurd
        cases absurd
      · intro absurd
        cases absurd
  | cons step rest inductionHypothesis =>
      have regrouped : history ++ step :: rest = (history ++ [step]) ++ rest := by
        rw [List.append_assoc, List.singleton_append]
      rw [Session.performAll, regrouped]
      cases first : session.perform fuel step with
      | none =>
          have unended := tells.perform_eq_none first
          rw [History.effectivePrograms_append, interpretEach_append, unended, Option.bind_none]
          simp
      | some pair =>
          rcases pair with ⟨more, middle⟩
          rw [← inductionHypothesis (tells.perform first)]
          exact Option.map_eq_none_iff

end Tells

/-! ## Any steps -/

/-- What the history of a session that began afresh tells of it, and of the reports taken out of it
on the way. -/
structure Session.Lawful (fuel : Nat) (output : Sink) (steps : History) (taken : List Report)
    (session : Session) : Prop where
  /-- Scopes and output are those of a fresh machine on which the programs of the effective runs are
  interpreted one after another. -/
  machine : interpretEach fuel steps.effectivePrograms (.initial output) = some session.machine
  /-- A run that is not effective leaves the machine alone. -/
  untouched : ∀ source, steps.effective source = false →
    ∃ log, session.run fuel source = some ⟨session.machine, log, session.echoing⟩
  hadError :
    session.log.hadError = true ↔ ∃ source ∈ steps.recent, History.isClean source = false
  hadRuntimeError : session.log.hadRuntimeError = true ↔ steps.FailedRecently fuel output
  /-- The reports taken and the reports still held are those of all the runs, in order. -/
  reports : (taken ++ session.log.reports).map Report.text =
    (History.attempts [] steps).flatMap (History.texts fuel output)
  /-- No scope is left open. -/
  depth : session.machine.scopes.depth = 0
  staticError : CommandLine.statusOf session.log = .staticError ↔
    ∃ source ∈ steps.recent, History.isClean source = false
  runtimeError : CommandLine.statusOf session.log = .runtimeError ↔
    (∀ source ∈ steps.recent, History.isClean source = true) ∧ steps.FailedRecently fuel output
  success : CommandLine.statusOf session.log = .success ↔
    (∀ source ∈ steps.recent, History.isClean source = true) ∧ ¬ steps.FailedRecently fuel output
  /-- A script is a session of one run. -/
  script : ∀ name contents source, CommandLine.decode contents = .ok source →
    steps = [.run source] → output = .empty →
    CommandLine.runScript fuel false name contents =
      some ⟨⟨session.machine.output.text, unlines session.log.lines⟩,
        CommandLine.statusOf session.log⟩

/-- A run that is not effective only adds reports. -/
theorem Tells.run_of_not_effective {fuel : Nat} {output : Sink} {history : History}
    {taken : List Report} {session : Session} (tells : Tells fuel output history taken session)
    {source : String} (notEffective : history.effective source = false) :
    ∃ log, session.run fuel source = some ⟨session.machine, log, session.echoing⟩ := by
  have hadError : (session.log.add (staticReports source)).hadError = true := by
    rw [tells.hadError_add, notEffective]
    rfl
  cases session with
  | mk machine log echoing =>
      exists log.add (staticReports source)
      rw [Session.run]
      exact if_pos hadError

/-- How a program exits, in terms of its flags. -/
theorem CommandLine.statusOf_eq_iff (log : Log) :
    (statusOf log = .staticError ↔ log.hadError = true) ∧
      (statusOf log = .runtimeError ↔ log.hadError = false ∧ log.hadRuntimeError = true) ∧
        (statusOf log = .success ↔ log.hadError = false ∧ log.hadRuntimeError = false) := by
  rw [statusOf]
  cases log.hadError <;> cases log.hadRuntimeError <;> simp

namespace Tells

variable {fuel : Nat} {output : Sink} {steps : History} {taken : List Report} {session : Session}

theorem hadError_iff (tells : Tells fuel output steps taken session) :
    session.log.hadError = true ↔ ∃ source ∈ steps.recent, History.isClean source = false := by
  rw [tells.hadError, Bool.not_eq_true', List.all_eq_false]
  simp only [Bool.not_eq_true]

theorem hadError_eq_false_iff (tells : Tells fuel output steps taken session) :
    session.log.hadError = false ↔ ∀ source ∈ steps.recent, History.isClean source = true := by
  rw [tells.hadError, Bool.not_eq_false', List.all_eq_true]

/-- Running a script is taking one step in a fresh session. -/
theorem runScript_of_performAll {name source : String}
    {contents : Except CommandLine.ReadFault ByteArray}
    (decoded : CommandLine.decode contents = .ok source)
    (performed : (Session.fresh .empty).performAll fuel [.run source] = some (taken, session)) :
    CommandLine.runScript fuel false name contents =
      some ⟨⟨session.machine.output.text, unlines session.log.lines⟩,
        CommandLine.statusOf session.log⟩ := by
  rw [CommandLine.runScript, decoded]
  rw [Session.performAll, Session.perform] at performed
  cases run : (Session.fresh .empty).run fuel source with
  | none =>
      rw [run] at performed
      cases performed
  | some next =>
      rw [run] at performed
      cases performed
      have sameRun : (Session.initial false).run fuel source = some session := run
      simp only [sameRun]

end Tells

/-- Whatever steps are taken in a fresh session, if all that is executed ends then the session and
its reports are those that the steps tell of. -/
theorem lawful_performAll {fuel : Nat} {output : Sink} {steps : List Session.Step}
    {taken : List Report} {session : Session}
    (performed : (Session.fresh output).performAll fuel steps = some (taken, session)) :
    session.Lawful fuel output steps taken := by
  have tells : Tells fuel output steps taken session :=
    (Tells.fresh fuel output).performAll performed
  rcases CommandLine.statusOf_eq_iff session.log with ⟨staticError, runtimeError, success⟩
  exact
    { machine := tells.machine
      untouched := fun _ notEffective => tells.run_of_not_effective notEffective
      hadError := tells.hadError_iff
      hadRuntimeError := tells.hadRuntimeError
      reports := tells.reports
      depth := depth_interpretEach tells.machine
      staticError := staticError.trans tells.hadError_iff
      runtimeError := by
        rw [runtimeError, tells.hadError_eq_false_iff, tells.hadRuntimeError]
      success := by
        rw [success, tells.hadError_eq_false_iff, ← tells.hadRuntimeError, Bool.not_eq_true]
      script := by
        intro name contents source decoded isRun isEmpty
        subst isRun isEmpty
        exact Tells.runScript_of_performAll decoded performed }

/-- After a runtime error and a static error, the reports of both can be taken, and a program runs
no longer. -/
theorem lawful_afterErrors :
    (Session.fresh .empty).performAll 1 [.run "a;", .run "@", .takeReports, .run "a;"] =
        some ([.runtime 1 "Undefined variable 'a'.", .static 1 "" "Unexpected character."],
          ⟨.initial .empty, ⟨[], true, true⟩, false⟩) ∧
      Session.Lawful 1 .empty [.run "a;", .run "@", .takeReports, .run "a;"]
        [.runtime 1 "Undefined variable 'a'.", .static 1 "" "Unexpected character."]
        ⟨.initial .empty, ⟨[], true, true⟩, false⟩ := by
  have undeclared : Lexed.ofText "a;" =
      ⟨[⟨.identifier, "a", none, 1⟩, ⟨.mark .semicolon, ";", none, 1⟩, .finish 1], []⟩ := by
    decide +kernel
  have stray : Lexed.ofText "@" = ⟨[.finish 1], [⟨1, .unexpectedCharacter⟩]⟩ := by
    decide +kernel
  have read : Program.ofTokens
      [⟨.identifier, "a", none, 1⟩, ⟨.mark .semicolon, ";", none, 1⟩, .finish 1] =
        ⟨[.expression (.variable ⟨.identifier, "a", none, 1⟩)], []⟩ := by
    cbv
  have nothing : Program.ofTokens [.finish 1] = ⟨[], []⟩ := by
    cbv
  have performed :
      (Session.fresh .empty).performAll 1 [.run "a;", .run "@", .takeReports, .run "a;"] =
        some ([.runtime 1 "Undefined variable 'a'.", .static 1 "" "Unexpected character."],
          ⟨.initial .empty, ⟨[], true, true⟩, false⟩) := by
    simp only [Session.performAll, Session.perform, Session.fresh, Session.run, undeclared, stray,
      read, nothing]
    rfl
  exact ⟨performed, lawful_performAll performed⟩

/-- A fresh session comes to an end exactly if the programs of the effective runs do. -/
theorem Session.performAll_fresh_eq_none_iff (fuel : Nat) (output : Sink) (steps : List Step) :
    (fresh output).performAll fuel steps = none ↔
      interpretEach fuel (History.effectivePrograms steps) (.initial output) = none :=
  (Tells.fresh fuel output).performAll_eq_none_iff steps

end BlockScript
