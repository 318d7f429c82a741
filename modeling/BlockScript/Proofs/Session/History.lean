import BlockScript.Session.Basic

/-!
# The history of a session

A host runs source texts in a session, resets its log and takes reports out of it, in any order.
What a session should have come to is said here in terms of its history alone, that is of the steps
that were taken. Nothing in this module looks into the state of a session.
-/

namespace BlockScript

/-- What a host can do with a session. -/
inductive Session.Step where
  | run (source : String)
  | reset
  | takeReports
  deriving DecidableEq, Repr

namespace Session

/-- A session in which nothing has run yet. It writes to the output that it is given and does not
show the programs it runs. -/
def fresh (output : Sink) : Session :=
  ⟨.initial output, .empty, false⟩

/-- Takes a step, and says which reports it hands out. There is no session afterwards if a text runs
out of fuel. -/
def perform (fuel : Nat) (session : Session) : Step → Option (List Report × Session)
  | .run source => (session.run fuel source).map fun next => ([], next)
  | .reset => some ([], session.reset)
  | .takeReports => some session.takeReports

/-- Takes steps in order, and says which reports they hand out. -/
def performAll (fuel : Nat) (session : Session) : List Step → Option (List Report × Session)
  | [] => some ([], session)
  | step :: rest =>
      match session.perform fuel step with
      | none => none
      | some (taken, next) =>
          (next.performAll fuel rest).map fun (others, final) => (taken ++ others, final)

end Session

/-! ## How errors are displayed -/

def LexicalError.display (error : LexicalError) : String :=
  "[line " ++ toString error.line ++ "] Error: " ++ error.fault.message

def SyntaxError.display (error : SyntaxError) : String :=
  let location :=
    if error.token.kind = .finish then " at end" else " at '" ++ error.token.lexeme ++ "'"
  "[line " ++ toString error.token.line ++ "] Error" ++ location ++ ": " ++ error.fault.message

def RuntimeError.display (error : RuntimeError) : String :=
  "[line " ++ toString error.token.line ++ "] " ++ error.message

/-! ## Programs run one after another -/

/-- Interprets programs on one machine, one after another. A runtime error ends its own program
only. -/
def interpretEach (fuel : Nat) : List (List Stmt) → Machine → Option Machine
  | [], machine => some machine
  | program :: rest, machine =>
      match interpret fuel program machine with
      | .ok _ after => interpretEach fuel rest after
      | .error (.error _) after => interpretEach fuel rest after
      | .error .outOfFuel _ => none

def Program.ofText (source : String) : Program :=
  .ofTokens (Lexed.ofText source).tokens

/-- The steps that were taken in a session, in order. -/
abbrev History := List Session.Step

namespace History

/-- A source text is clean if it has neither lexical nor syntax errors. -/
def isClean (source : String) : Bool :=
  (Lexed.ofText source).errors.isEmpty && (Program.ofText source).errors.isEmpty

/-- The source texts that were run since the last reset. -/
def recent (history : History) : List String :=
  history.foldl
    (fun sources step =>
      match step with
      | .run source => sources ++ [source]
      | .reset => []
      | .takeReports => sources)
    []

/-- A run is effective if its own source text and all those run since the last reset are clean. -/
def effective (history : History) (source : String) : Bool :=
  (history.recent ++ [source]).all isClean

/-- The runs among the steps, each with its own history. -/
def attempts (before : History) : List Session.Step → List (History × String)
  | [] => []
  | .run source :: rest => (before, source) :: attempts (before ++ [.run source]) rest
  | .reset :: rest => attempts (before ++ [.reset]) rest
  | .takeReports :: rest => attempts (before ++ [.takeReports]) rest

def effectivePrograms (history : History) : List (List Stmt) :=
  (attempts [] history).filterMap fun (before, source) =>
    if before.effective source then some (Program.ofText source).statements else none

variable (fuel : Nat) (output : Sink)

/-- The runtime error that a run ends in, if it is effective and fails. It runs on what the
effective runs before it have left. -/
def failure? (history : History) (source : String) : Option RuntimeError :=
  if history.effective source then
    match interpretEach fuel history.effectivePrograms (.initial output) with
    | none => none
    | some machine =>
        match interpret fuel (Program.ofText source).statements machine with
        | .error (.error error) _ => some error
        | _ => none
  else
    none

def texts (attempt : History × String) : List String :=
  (Lexed.ofText attempt.2).errors.map LexicalError.display ++
    (Program.ofText attempt.2).errors.map SyntaxError.display ++
      (failure? fuel output attempt.1 attempt.2).toList.map RuntimeError.display

/-- Some effective run since the last reset has ended in a runtime error. -/
def FailedRecently (history : History) : Prop :=
  ∃ before source later, history = before ++ .run source :: later ∧ .reset ∉ later ∧
    (failure? fuel output before source).isSome = true

end History

/-! ## Histories that grow -/

namespace History

variable (fuel : Nat) (output : Sink) (history : History) (source : String)

theorem attempts_append (before : History) (first second : List Session.Step) :
    attempts before (first ++ second) =
      attempts before first ++ attempts (before ++ first) second := by
  induction first generalizing before with
  | nil => rw [attempts, List.nil_append, List.nil_append, List.append_nil]
  | cons step rest inductionHypothesis =>
      cases step <;>
        simp only [List.cons_append, attempts, inductionHypothesis, List.append_assoc,
          List.nil_append]

@[simp] theorem recent_run : recent (history ++ [.run source]) = recent history ++ [source] := by
  simp [recent]

@[simp] theorem recent_reset : recent (history ++ [.reset]) = [] := by
  simp [recent]

@[simp] theorem recent_takeReports : recent (history ++ [.takeReports]) = recent history := by
  simp [recent]

theorem attempts_run :
    attempts [] (history ++ [.run source]) = attempts [] history ++ [(history, source)] := by
  simp [attempts_append, attempts]

@[simp] theorem attempts_reset : attempts [] (history ++ [.reset]) = attempts [] history := by
  simp [attempts_append, attempts]

@[simp] theorem attempts_takeReports :
    attempts [] (history ++ [.takeReports]) = attempts [] history := by
  simp [attempts_append, attempts]

theorem effectivePrograms_append (later : History) :
    effectivePrograms (history ++ later) = effectivePrograms history ++
      (attempts history later).filterMap fun (before, source) =>
        if before.effective source then some (Program.ofText source).statements else none := by
  rw [effectivePrograms, effectivePrograms, attempts_append, List.filterMap_append,
    List.nil_append]

theorem effectivePrograms_run :
    effectivePrograms (history ++ [.run source]) = effectivePrograms history ++
      if history.effective source then [(Program.ofText source).statements] else [] := by
  rw [effectivePrograms_append, attempts, attempts]
  cases effective : history.effective source <;> simp [effective]

theorem effectivePrograms_reset :
    effectivePrograms (history ++ [.reset]) = effectivePrograms history := by
  rw [effectivePrograms, effectivePrograms, attempts_reset]

theorem effectivePrograms_takeReports :
    effectivePrograms (history ++ [.takeReports]) = effectivePrograms history := by
  rw [effectivePrograms, effectivePrograms, attempts_takeReports]

/-- A run among the steps is the last one of them or comes before that. -/
theorem eq_run_of_append {history before later : History} {step : Session.Step} {source : String}
    (same : history ++ [step] = before ++ .run source :: later) :
    (later = [] ∧ before = history ∧ step = .run source) ∨
      ∃ others, later = others ++ [step] ∧ history = before ++ .run source :: others := by
  rcases List.eq_nil_or_concat later with isNil | ⟨others, last, isConcat⟩
  · left
    subst isNil
    rcases List.append_inj' same rfl with ⟨isBefore, isLast⟩
    cases isLast
    exact ⟨rfl, isBefore.symm, rfl⟩
  · right
    rw [List.concat_eq_append] at isConcat
    subst isConcat
    have regrouped : history ++ [step] = (before ++ .run source :: others) ++ [last] := by
      rw [same, List.append_assoc, List.cons_append]
    rcases List.append_inj' regrouped rfl with ⟨isHistory, isLast⟩
    cases isLast
    exact ⟨others, rfl, isHistory⟩

theorem failedRecently_run :
    FailedRecently fuel output (history ++ [.run source]) ↔
      FailedRecently fuel output history ∨ (failure? fuel output history source).isSome = true := by
  constructor
  · intro failed
    rcases failed with ⟨before, other, later, same, noReset, isFailure⟩
    rcases eq_run_of_append same with ⟨_, rfl, isRun⟩ | ⟨others, rfl, isHistory⟩
    · cases isRun
      exact .inr isFailure
    · have stillNoReset : .reset ∉ others := fun member => noReset (List.mem_append_left _ member)
      exact .inl ⟨before, other, others, isHistory, stillNoReset, isFailure⟩
  · intro failed
    rcases failed with ⟨before, other, later, rfl, noReset, isFailure⟩ | isFailure
    · have stillNoReset : Session.Step.reset ∉ later ++ [.run source] := by
        simp [noReset]
      exact ⟨before, other, later ++ [.run source], by simp, stillNoReset, isFailure⟩
    · exact ⟨history, source, [], rfl, List.not_mem_nil, isFailure⟩

theorem not_failedRecently_reset : ¬ FailedRecently fuel output (history ++ [.reset]) := by
  intro failed
  rcases failed with ⟨before, other, later, same, noReset, isFailure⟩
  rcases eq_run_of_append same with ⟨_, _, isRun⟩ | ⟨others, rfl, _⟩
  · cases isRun
  · exact noReset (List.mem_append_right _ (List.mem_singleton.mpr rfl))

theorem failedRecently_takeReports :
    FailedRecently fuel output (history ++ [.takeReports]) ↔
      FailedRecently fuel output history := by
  constructor
  · intro failed
    rcases failed with ⟨before, other, later, same, noReset, isFailure⟩
    rcases eq_run_of_append same with ⟨_, _, isRun⟩ | ⟨others, rfl, isHistory⟩
    · cases isRun
    · have stillNoReset : .reset ∉ others := fun member => noReset (List.mem_append_left _ member)
      exact ⟨before, other, others, isHistory, stillNoReset, isFailure⟩
  · intro failed
    rcases failed with ⟨before, other, later, rfl, noReset, isFailure⟩
    have stillNoReset : Session.Step.reset ∉ later ++ [.takeReports] := by
      simp [noReset]
    exact ⟨before, other, later ++ [.takeReports], by simp, stillNoReset, isFailure⟩

end History

end BlockScript
