import BlockScript.Proofs.Grammar.Acceptance
import BlockScript.Proofs.Layout.Execution
import BlockScript.Proofs.Layout.Reading
import BlockScript.Proofs.Session.Law
import BlockScript.Proofs.Source.LineBreak

/-!
# Two submissions and one

A host can submit two texts one after the other, or join them at a line break and submit them at
once. The pieces, the statements and the runs of the texts are joined with them, and so the session
comes to the same, but for the lines that are told of the second text.
-/

namespace BlockScript

/-! ## Programs in a row -/

theorem Sentences.append {inLoop : Bool} {first second : List Token} {trees others : List Stmt} :
    Sentences inLoop first trees → Sentences inLoop second others →
      Sentences inLoop (first ++ second) (trees ++ others)
  | .nil, next => next
  | .declaration phrase rest, next => by
      rw [List.append_assoc]
      exact .declaration phrase (rest.append next)
  | .statement sentence rest, next => by
      rw [List.append_assoc]
      exact .statement sentence (rest.append next)

section Phrases

variable {tokens : List Token} {ending : Token} (isEnd : ending.kind = .finish)
  (only : ∀ token ∈ tokens, token.kind ≠ .finish)

include isEnd only

/-- What is read without a fault is a program of the grammar. -/
theorem Program.phrase_of_errors_eq_nil (faultless : (ofTokens (tokens ++ [ending])).errors = []) :
    ProgramPhrase tokens (ofTokens (tokens ++ [ending])).statements := by
  have unread := Grammar.tokens_rest_items ending false tokens
  rw [ofTokens, ahead_append_finish isEnd only, ending_append_finish isEnd only] at faultless ⊢
  exact (Grammar.accepts_items_iff ending _).mp ⟨rfl, faultless, unread⟩

theorem Program.ofTokens_of_phrase {trees : List Stmt} (phrase : ProgramPhrase tokens trees) :
    ofTokens (tokens ++ [ending]) = ⟨trees, []⟩ := by
  obtain ⟨value, noted, _⟩ := (Grammar.accepts_items_iff ending trees).mpr phrase
  rw [ofTokens, ahead_append_finish isEnd only, ending_append_finish isEnd only, value, noted]

end Phrases

/-- The tokens end with an end token, and there is no other one among them. -/
def EndedOnce (tokens : List Token) : Prop :=
  ∃ ahead ending, tokens = ahead ++ [ending] ∧ ending.kind = .finish ∧
    ∀ token ∈ ahead, token.kind ≠ .finish

namespace EndedOnce

variable {tokens first second : List Token}

theorem ofText (source : String) : EndedOnce (Lexed.ofText source).tokens :=
  ⟨_, _, Lexed.tokens_eq_append_finish source, rfl,
    fun _ => Lexed.kind_ne_finish_of_mem_dropLast⟩

theorem ne_nil (ended : EndedOnce tokens) : tokens ≠ [] := by
  obtain ⟨ahead, ending, rfl, _⟩ := ended
  simp

theorem relocate (ended : EndedOnce tokens) (lines : Nat → Nat) :
    EndedOnce (tokens.map (·.relocate lines)) := by
  obtain ⟨ahead, ending, rfl, isEnd, only⟩ := ended
  refine ⟨ahead.map (·.relocate lines), ending.relocate lines, by simp, isEnd, ?_⟩
  intro token member
  obtain ⟨original, originalMember, rfl⟩ := List.mem_map.mp member
  exact only original originalMember

/-- Two programs are one program without the end of the first one between them. -/
theorem ofTokens_append (firstEnded : EndedOnce first) (secondEnded : EndedOnce second)
    (firstFaultless : (Program.ofTokens first).errors = [])
    (secondFaultless : (Program.ofTokens second).errors = []) :
    Program.ofTokens (first.dropLast ++ second) =
      ⟨(Program.ofTokens first).statements ++ (Program.ofTokens second).statements, []⟩ := by
  obtain ⟨ahead, firstEnd, rfl, firstIsEnd, firstOnly⟩ := firstEnded
  obtain ⟨others, secondEnd, rfl, secondIsEnd, secondOnly⟩ := secondEnded
  have firstPhrase := Program.phrase_of_errors_eq_nil firstIsEnd firstOnly firstFaultless
  have secondPhrase := Program.phrase_of_errors_eq_nil secondIsEnd secondOnly secondFaultless
  have only : ∀ token ∈ ahead ++ others, token.kind ≠ .finish :=
    List.forall_mem_append.mpr ⟨firstOnly, secondOnly⟩
  rw [List.dropLast_concat, ← List.append_assoc]
  exact Program.ofTokens_of_phrase secondIsEnd only (firstPhrase.append secondPhrase)

end EndedOnce

theorem isClean_iff {source : String} :
    History.isClean source = true ↔
      (Lexed.ofText source).errors = [] ∧ (Program.ofText source).errors = [] := by
  simp [History.isClean]

/-- Clean texts are read as one as they are read apart, but for the lines of the second one. -/
theorem ofText_join {first second : String} (firstClean : History.isClean first = true)
    (secondClean : History.isClean second = true) :
    History.isClean (first ++ "\n" ++ second) = true ∧
      (Program.ofText (first ++ "\n" ++ second)).statements =
        (Program.ofText first).statements ++
          (Program.ofText second).statements.map (·.relocate (Lexed.lineBelow first)) := by
  obtain ⟨firstLexed, firstRead⟩ := isClean_iff.mp firstClean
  obtain ⟨secondLexed, secondRead⟩ := isClean_iff.mp secondClean
  have closed : ∀ error ∈ (Lexed.ofText first).errors, error.fault ≠ .unterminatedString := by
    simp [firstLexed]
  have lexed := Lexed.ofText_append_line closed second
  have secondEnded := EndedOnce.ofText second
  have moved := Program.ofTokens_relocate (Lexed.lineBelow first) secondEnded.ne_nil
  have movedFaultless : (Program.ofTokens ((Lexed.ofText second).tokens.map
      (·.relocate (Lexed.lineBelow first)))).errors = [] := by
    rw [moved, Program.relocate, ← Program.ofText, secondRead, List.map_nil]
  have read := (EndedOnce.ofText first).ofTokens_append (secondEnded.relocate _) firstRead
    movedFaultless
  have joined : Program.ofText (first ++ "\n" ++ second) =
      ⟨(Program.ofText first).statements ++
        (Program.ofText second).statements.map (·.relocate (Lexed.lineBelow first)), []⟩ := by
    rw [Program.ofText, lexed, read, moved]
    rfl
  rw [isClean_iff, joined, lexed, firstLexed, secondLexed]
  exact ⟨⟨rfl, rfl⟩, rfl⟩

/-! ## Runs in a row -/

/-- A program in two parts runs as the second part does after the first one, or the first one fails
and the second one is not begun. -/
theorem runs_append {first second : List Stmt} {before after : Machine}
    {result : Except Failure Unit} :
    Runs (first ++ second) before result after ↔
      (∃ between, Runs first before (.ok ()) between ∧ Runs second between result after) ∨
      ∃ failure, result = .error failure ∧ Runs first before (.error failure) after := by
  induction first generalizing before with
  | nil =>
      constructor
      · intro runs
        exact .inl ⟨before, .nil before, runs⟩
      · intro inRow
        obtain ⟨between, firstRuns, secondRuns⟩ | ⟨failure, _, firstFails⟩ := inRow
        · cases firstRuns
          exact secondRuns
        · cases firstFails
  | cons statement rest inductionHypothesis =>
      constructor
      · intro runs
        cases runs with
        | next executed others =>
            obtain ⟨between, restRuns, secondRuns⟩ | ⟨failure, isFailure, restFails⟩ :=
              inductionHypothesis.mp others
            · exact .inl ⟨between, .next executed restRuns, secondRuns⟩
            · exact .inr ⟨failure, isFailure, .next executed restFails⟩
        | fails failed => exact .inr ⟨_, rfl, .fails failed⟩
      · intro inRow
        obtain ⟨between, firstRuns, secondRuns⟩ | ⟨failure, rfl, firstFails⟩ := inRow
        · cases firstRuns with
          | next executed others =>
              exact .next executed (inductionHypothesis.mpr (.inl ⟨between, others, secondRuns⟩))
        · cases firstFails with
          | next executed others =>
              exact .next executed (inductionHypothesis.mpr (.inr ⟨failure, rfl, others⟩))
          | fails failed => exact .fails failed

/-- After a part that has run without an error, a program runs as what is left of it does. -/
theorem runs_append_of_runs {first second : List Stmt} {before between after : Machine}
    {result : Except Failure Unit} (firstRuns : Runs first before (.ok ()) between) :
    Runs (first ++ second) before result after ↔ Runs second between result after := by
  constructor
  · intro runs
    obtain ⟨machine, firstAgain, secondRuns⟩ | ⟨failure, _, firstFails⟩ := runs_append.mp runs
    · cases (firstRuns.unique firstAgain).2
      exact secondRuns
    · cases (firstRuns.unique firstFails).1
  · intro secondRuns
    exact runs_append.mpr (.inl ⟨between, firstRuns, secondRuns⟩)

/-! ## Sessions -/

/-- A session comes to an end with a text, given enough fuel. -/
def Session.Finishes (session : Session) (source : String) (final : Session) : Prop :=
  ∃ fuel, session.run fuel source = some final

def Failure.report (failure : Failure) : Report :=
  .inRun failure.token failure.message

/-- The log after a run that has come to a result. -/
def Log.settle (log : Log) : Except Failure Unit → Log
  | .ok _ => log
  | .error failure => log.add [failure.report]

section Clean

variable {session final : Session} {source : String} (ready : session.log.hadError = false)
  (silent : session.echoing = false) (clean : History.isClean source = true)

include ready silent clean

/-- Without static errors, the run of a text is the run of its program, and the log tells of its
result. -/
theorem Session.run_eq_of_ends {fuel : Nat} {result : Except Failure Unit} {after : Machine}
    (ends : (interpret fuel (Program.ofText source).statements).Ends session.machine result after) :
    session.run fuel source = some ⟨after, session.log.settle result, false⟩ := by
  obtain ⟨machine, log, echoing⟩ := session
  obtain ⟨lexed, read⟩ := isClean_iff.mp clean
  cases silent
  have noError : log.hadError = false := ready
  rw [Program.ofText] at read ends
  simp only [Session.run, launch_silent, lexed, read, List.map_nil, List.append_nil, Log.add_nil,
    noError, Bool.false_eq_true, if_false]
  rw [Execution.Ends, Ends] at ends
  cases reply :
      interpret fuel (Program.ofTokens (Lexed.ofText source).tokens).statements machine with
  | ok value left =>
      rw [reply] at ends
      obtain ⟨rfl, rfl⟩ := ends
      rfl
  | error stop left =>
      rw [reply] at ends
      obtain ⟨failure, isFailure, rfl, rfl⟩ := ends
      cases stop <;> cases isFailure
      rfl

/-- A session finishes with a text exactly if the program runs to a result. -/
theorem Session.finishes_iff :
    session.Finishes source final ↔
      ∃ result after, Runs (Program.ofText source).statements session.machine result after ∧
        final = ⟨after, session.log.settle result, false⟩ := by
  constructor
  · intro finishes
    obtain ⟨fuel, run⟩ := finishes
    obtain ⟨lexed, read⟩ := isClean_iff.mp clean
    have noReports : staticReports source = [] := by
      rw [staticReports, lexed, read]
      rfl
    have cases := run_cases silent run
    simp only [noReports, Log.add_nil, ready] at cases
    obtain ⟨hadError, _⟩ | ⟨_, machine, reply, rfl⟩ | ⟨_, error, machine, reply, rfl⟩ := cases
    · cases hadError
    · exact ⟨.ok (), machine, runs_of_ends fuel (ends_of_ok reply), rfl⟩
    · exact ⟨.error error.failure, machine, runs_of_ends fuel (ends_of_error reply rfl), rfl⟩
  · intro runs
    obtain ⟨result, after, runs, rfl⟩ := runs
    obtain ⟨fuel, ends⟩ := runs.ends
    exact ⟨fuel, run_eq_of_ends ready silent clean ends⟩

end Clean

/-- A log that got no report of a failure has none to tell of. -/
theorem Log.eq_ok_of_reports_settle {log : Log} {result : Except Failure Unit}
    (unchanged : (log.settle result).reports = log.reports) : result = .ok () := by
  cases result with
  | ok value => rfl
  | error failure => simp [settle, add] at unchanged

/-- The second session differs from the first one by the lines of the reports of runtime errors that
were added since the log was what it is given as, and by nothing else. -/
structure Session.DiffersInLines (lines : Nat → Nat) (before : Log)
    (separate joined : Session) : Prop where
  machine : joined.machine = separate.machine
  echoing : joined.echoing = separate.echoing
  hadError : joined.log.hadError = separate.log.hadError
  hadRuntimeError : joined.log.hadRuntimeError = separate.log.hadRuntimeError
  reports : ∃ added : List Report, (∀ report ∈ added, report.isStatic = false) ∧
    separate.log.reports = before.reports ++ added ∧
    joined.log.reports = before.reports ++ added.map (·.relocate lines)

/-- A result and its relocation are told of alike, but for the line. -/
theorem Session.differsInLines_settle (lines : Nat → Nat) (log : Log) (after : Machine)
    (echoing : Bool) (result : Except Failure Unit) :
    DiffersInLines lines log ⟨after, log.settle result, echoing⟩
      ⟨after, log.settle (result.mapError (Failure.relocate lines)), echoing⟩ := by
  cases result with
  | ok value =>
      have nothing : log.reports = log.reports ++ [] := (List.append_nil _).symm
      exact ⟨rfl, rfl, rfl, rfl, [], by simp, nothing, nothing⟩
  | error failure =>
      refine ⟨rfl, rfl, rfl, rfl, [failure.report], ?_, rfl, rfl⟩
      intro report member
      cases List.mem_singleton.mp member
      rfl

/-- With both texts at once a session finishes exactly if the second one runs to a result after the
first one, and a failure is told of on the line that its line has become. -/
theorem Session.finishes_append_iff {session : Session} {first second : String}
    {between : Machine} (ready : session.log.hadError = false) (silent : session.echoing = false)
    (firstClean : History.isClean first = true) (secondClean : History.isClean second = true)
    (firstRuns : Runs (Program.ofText first).statements session.machine (.ok ()) between)
    (joined : Session) : session.Finishes (first ++ "\n" ++ second) joined ↔
      ∃ result after, Runs (Program.ofText second).statements between result after ∧
        joined = ⟨after, session.log.settle
          (result.mapError (Failure.relocate (Lexed.lineBelow first))), false⟩ := by
  obtain ⟨joinedClean, joinedRead⟩ := ofText_join firstClean secondClean
  rw [finishes_iff ready silent joinedClean, joinedRead]
  simp only [runs_append_of_runs firstRuns, runs_relocate]
  constructor
  · intro finishes
    obtain ⟨_, after, ⟨result, runs, rfl⟩, isJoined⟩ := finishes
    exact ⟨result, after, runs, isJoined⟩
  · intro finishes
    obtain ⟨result, after, runs, isJoined⟩ := finishes
    exact ⟨_, after, ⟨result, runs, rfl⟩, isJoined⟩

/-- A session in which a text has run without an error finishes with a second text exactly if it
would have finished with both texts joined at a line break, and it comes to the same, but for the
lines told of failures of the second text. -/
theorem finishes_join_iff {session middle : Session} {first second : String}
    (ready : session.log.hadError = false) (silent : session.echoing = false)
    (firstClean : History.isClean first = true) (secondClean : History.isClean second = true)
    (firstFinishes : session.Finishes first middle)
    (noFailure : middle.log.reports = session.log.reports) :
    ((∃ joined, session.Finishes (first ++ "\n" ++ second) joined) ↔
      ∃ separate, middle.Finishes second separate) ∧
    ∀ joined separate, session.Finishes (first ++ "\n" ++ second) joined →
      middle.Finishes second separate →
        Session.DiffersInLines (· + (1 + first.toList.count '\n')) middle.log separate joined := by
  obtain ⟨firstResult, between, firstRuns, rfl⟩ :=
    (Session.finishes_iff ready silent firstClean).mp firstFinishes
  cases Log.eq_ok_of_reports_settle noFailure
  have separately : ∀ separate, Session.Finishes ⟨between, session.log, false⟩ second separate ↔
      ∃ result after, Runs (Program.ofText second).statements between result after ∧
        separate = ⟨after, session.log.settle result, false⟩ :=
    fun _ => Session.finishes_iff ready rfl secondClean
  have together :=
    Session.finishes_append_iff ready silent firstClean secondClean firstRuns
  constructor
  · constructor
    · intro finishes
      obtain ⟨joined, finishes⟩ := finishes
      obtain ⟨result, after, runs, _⟩ := (together joined).mp finishes
      exact ⟨_, (separately _).mpr ⟨result, after, runs, rfl⟩⟩
    · intro finishes
      obtain ⟨separate, finishes⟩ := finishes
      obtain ⟨result, after, runs, _⟩ := (separately separate).mp finishes
      exact ⟨_, (together _).mpr ⟨result, after, runs, rfl⟩⟩
  · intro joined separate joinedFinishes separateFinishes
    obtain ⟨result, after, runs, rfl⟩ := (together joined).mp joinedFinishes
    obtain ⟨same, machine, runsToo, rfl⟩ := (separately separate).mp separateFinishes
    obtain ⟨rfl, rfl⟩ := runs.unique runsToo
    exact Session.differsInLines_settle _ session.log after false result

def declaredSession : Session :=
  ⟨⟨.global (.binding "a" .unset .empty), .empty⟩, .empty, false⟩

/-- The same session after the name has been read in vain on some line. -/
def failedSession (line : Nat) : Session :=
  ⟨declaredSession.machine,
    ⟨[.runtime line "Cannot access uninitialized variable 'a'."], false, true⟩, false⟩

/-- A comment before the joint ends there, and the failure after it is told of on the third line. -/
theorem finishes_join_afterComment :
    (History.isClean "var a;\n// a" = true ∧ History.isClean "a;" = true) ∧
      (Session.fresh .empty).Finishes "var a;\n// a" declaredSession ∧
      declaredSession.Finishes "a;" (failedSession 1) ∧
      (Session.fresh .empty).Finishes ("var a;\n// a" ++ "\n" ++ "a;") (failedSession 3) ∧
      Session.DiffersInLines (· + (1 + "var a;\n// a".toList.count '\n')) declaredSession.log
        (failedSession 1) (failedSession 3) := by
  have firstLexed : Lexed.ofText "var a;\n// a" =
      ⟨[⟨.keyword .varWord, "var", none, 1⟩, ⟨.identifier, "a", none, 1⟩,
        ⟨.mark .semicolon, ";", none, 1⟩, .finish 2], []⟩ := by
    decide +kernel
  have secondLexed : Lexed.ofText "a;" =
      ⟨[⟨.identifier, "a", none, 1⟩, ⟨.mark .semicolon, ";", none, 1⟩, .finish 1], []⟩ := by
    decide +kernel
  have joinedLexed : Lexed.ofText ("var a;\n// a" ++ "\n" ++ "a;") =
      ⟨[⟨.keyword .varWord, "var", none, 1⟩, ⟨.identifier, "a", none, 1⟩,
        ⟨.mark .semicolon, ";", none, 1⟩, ⟨.identifier, "a", none, 3⟩,
        ⟨.mark .semicolon, ";", none, 3⟩, .finish 3], []⟩ := by
    decide +kernel
  have firstRead : Program.ofTokens
      [⟨.keyword .varWord, "var", none, 1⟩, ⟨.identifier, "a", none, 1⟩,
        ⟨.mark .semicolon, ";", none, 1⟩, .finish 2] =
        ⟨[.declare ⟨.identifier, "a", none, 1⟩ none], []⟩ := by
    cbv
  have secondRead : Program.ofTokens
      [⟨.identifier, "a", none, 1⟩, ⟨.mark .semicolon, ";", none, 1⟩, .finish 1] =
        ⟨[.expression (.variable ⟨.identifier, "a", none, 1⟩)], []⟩ := by
    cbv
  have joinedRead : Program.ofTokens
      [⟨.keyword .varWord, "var", none, 1⟩, ⟨.identifier, "a", none, 1⟩,
        ⟨.mark .semicolon, ";", none, 1⟩, ⟨.identifier, "a", none, 3⟩,
        ⟨.mark .semicolon, ";", none, 3⟩, .finish 3] =
        ⟨[.declare ⟨.identifier, "a", none, 1⟩ none,
          .expression (.variable ⟨.identifier, "a", none, 3⟩)], []⟩ := by
    cbv
  have firstFinishes : (Session.fresh .empty).Finishes "var a;\n// a" declaredSession := by
    exists 1
    simp only [Session.fresh, Session.run, firstLexed, firstRead]
    rfl
  have separateFinishes : declaredSession.Finishes "a;" (failedSession 1) := by
    exists 1
    simp only [declaredSession, Session.run, secondLexed, secondRead]
    rfl
  have joinedFinishes : (Session.fresh .empty).Finishes ("var a;\n// a" ++ "\n" ++ "a;")
      (failedSession 3) := by
    exists 1
    simp only [Session.fresh, Session.run, joinedLexed, joinedRead]
    rfl
  have firstClean : History.isClean "var a;\n// a" = true := by
    rw [History.isClean, Program.ofText, firstLexed, firstRead]
    rfl
  have secondClean : History.isClean "a;" = true := by
    rw [History.isClean, Program.ofText, secondLexed, secondRead]
    rfl
  exact ⟨⟨firstClean, secondClean⟩, firstFinishes, separateFinishes, joinedFinishes,
    (finishes_join_iff rfl rfl firstClean secondClean firstFinishes rfl).2 _ _ joinedFinishes
      separateFinishes⟩

end BlockScript
