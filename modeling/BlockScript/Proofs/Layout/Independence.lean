import BlockScript.Proofs.Session.Finishing
import BlockScript.Proofs.Source.Spelling

/-!
# Layout does not matter

Where the tokens of a text stand on its lines, and what blanks and comments stand between them, is
its layout. Two texts that differ in their layout only are read as the same program with the same
faults, and they run alike in every session. All that tells them apart are the line numbers of
reports. The argument takes both texts to one without lines and relies on the reader and the runs
not to notice.
-/

namespace BlockScript

open EStateM

variable (lines : Nat → Nat)

/-! ## Relocated programs are shown and executed alike -/

/-- S-expressions show no lines. -/
theorem Expr.toSExpression_relocate (expr : Expr) :
    (expr.relocate lines).toSExpression = expr.toSExpression := by
  induction expr <;> simp_all [relocate, toSExpression]

mutual

theorem Stmt.toSExpression_relocate : (statement : Stmt) →
    (statement.relocate lines).toSExpression = statement.toSExpression
  | .print value | .expression value => by
      rw [relocate, toSExpression, toSExpression, value.toSExpression_relocate]
  | .declare name none => rfl
  | .declare name (some initial) => by
      rw [relocate, Option.map_some, toSExpression, toSExpression, initial.toSExpression_relocate,
        Token.lexeme_relocate]
  | .block body => by
      rw [relocate, toSExpression, toSExpression, toSExpressions_relocate body]
  | .ifThen condition whenTrue => by
      rw [relocate, toSExpression, toSExpression, condition.toSExpression_relocate,
        toSExpression_relocate whenTrue]
  | .ifElse condition whenTrue whenFalse => by
      rw [relocate, toSExpression, toSExpression, condition.toSExpression_relocate,
        toSExpression_relocate whenTrue, toSExpression_relocate whenFalse]
  | .whileLoop condition body => by
      rw [relocate, toSExpression, toSExpression, condition.toSExpression_relocate,
        toSExpression_relocate body]
  | .breakLoop keyword => by
      rw [relocate, toSExpression, toSExpression]

theorem Stmt.toSExpressions_relocate : (body : List Stmt) →
    toSExpressions (relocateAll lines body) = toSExpressions body
  | [] => rfl
  | statement :: rest => by
      rw [relocateAll, toSExpressions, toSExpressions, toSExpression_relocate statement,
        toSExpressions_relocate rest]

end

theorem Execution.echo_relocate (program : List Stmt) :
    echo (program.map (·.relocate lines)) = adaptExcept (Stop.relocate lines) (echo program) := by
  induction program with
  | nil => rfl
  | cons statement rest inductionHypothesis =>
      rw [List.map_cons, echo, echo, adaptExcept_bind, inductionHypothesis, Stmt.render,
        statement.toSExpression_relocate]
      rfl

theorem Session.launch_relocate (fuel : Nat) (echoing : Bool) (program : List Stmt) :
    launch fuel echoing (program.map (·.relocate lines)) =
      adaptExcept (Stop.relocate lines) (launch fuel echoing program) := by
  rw [launch, launch]
  cases echoing with
  | true =>
      simp only [if_true]
      rw [adaptExcept_bind, Execution.echo_relocate, interpret_relocate]
  | false => exact interpret_relocate lines fuel program

/-! ## Reports -/

theorem SyntaxError.report_relocate (error : SyntaxError) :
    (error.relocate lines).report = error.report.relocate lines := rfl

theorem Failure.report_relocate (failure : Failure) :
    (failure.relocate lines).report = failure.report.relocate lines := rfl

theorem Report.isStatic_relocate (report : Report) :
    (report.relocate lines).isStatic = report.isStatic := by
  cases report <;> rfl

/-! ## Sameness but for lines -/

/-- The programs have the same statements and the same faults, but for the lines of tokens. -/
def Program.SameButLines (left right : Program) : Prop :=
  left.relocate nowhere = right.relocate nowhere

/-- The reports agree one by one in everything but the line that they tell. -/
def Report.SameButLines (left right : List Report) : Prop :=
  left.map (·.relocate nowhere) = right.map (·.relocate nowhere)

/-- The sessions are the same but for the lines of the reports that were added since the log was what
it is given as. -/
structure Session.SameButLines (before : Log) (left right : Session) : Prop where
  machine : left.machine = right.machine
  echoing : left.echoing = right.echoing
  hadError : left.log.hadError = right.log.hadError
  hadRuntimeError : left.log.hadRuntimeError = right.log.hadRuntimeError
  reports : ∃ leftAdded rightAdded, left.log.reports = before.reports ++ leftAdded ∧
    right.log.reports = before.reports ++ rightAdded ∧ Report.SameButLines leftAdded rightAdded

namespace Report.SameButLines

variable {left right : List Report}

theorem symm (same : SameButLines left right) : SameButLines right left :=
  Eq.symm same

theorem append {more others : List Report} (first : SameButLines left right)
    (second : SameButLines more others) : SameButLines (left ++ more) (right ++ others) := by
  rw [SameButLines, List.map_append, List.map_append, first, second]

/-- Whether some report is of a sort is not a question of lines. -/
theorem any_eq (same : SameButLines left right) (ofSort : Bool → Bool) :
    left.any (fun report => ofSort report.isStatic) =
      right.any fun report => ofSort report.isStatic := by
  have relocated (reports : List Report) :
      reports.any (fun report => ofSort report.isStatic) =
        (reports.map (·.relocate nowhere)).any fun report => ofSort report.isStatic := by
    simp [List.any_map, Function.comp_def, isStatic_relocate]
  rw [relocated left, relocated right, same]

end Report.SameButLines

theorem Session.sameButLines_add {added others : List Report}
    (same : Report.SameButLines added others) (log : Log) (machine : Machine) (echoing : Bool) :
    SameButLines log ⟨machine, log.add added, echoing⟩ ⟨machine, log.add others, echoing⟩ where
  machine := rfl
  echoing := rfl
  hadError := congrArg (log.hadError || ·) (same.any_eq id)
  hadRuntimeError := congrArg (log.hadRuntimeError || ·) (same.any_eq not)
  reports := ⟨added, others, rfl, rfl, same⟩

/-! ## Runs -/

/-- The reports of what a program has come to. -/
def Failure.reports : Except Failure Unit → List Report
  | .ok _ => []
  | .error failure => [failure.report]

theorem Log.settle_eq_add (log : Log) (result : Except Failure Unit) :
    log.settle result = log.add (Failure.reports result) := by
  cases result with
  | ok value => exact log.add_nil.symm
  | error failure => rfl

theorem Failure.sameButLines_reports {left right : Except Failure Unit}
    (same : left.mapError (Failure.relocate nowhere) = right.mapError (Failure.relocate nowhere)) :
    Report.SameButLines (reports left) (reports right) := by
  cases left with
  | ok value =>
      cases right with
      | ok value => rfl
      | error failure => cases same
  | error failure =>
      cases right with
      | ok value => cases same
      | error other =>
          have sameFailure : failure.relocate nowhere = other.relocate nowhere :=
            Except.error.inj same
          rw [Report.SameButLines, reports, reports, List.map_singleton, List.map_singleton,
            ← report_relocate, ← report_relocate, sameFailure]

/-- Programs that are the same but for lines end alike, shown or not. -/
theorem Session.launch_ends_alike {first second : List Stmt}
    (same : first.map (·.relocate nowhere) = second.map (·.relocate nowhere)) {fuel : Nat}
    {echoing : Bool} {before after : Machine} {result : Except Failure Unit}
    (ends : (launch fuel echoing first).Ends before result after) :
    ∃ other, (launch fuel echoing second).Ends before other after ∧
      result.mapError (Failure.relocate nowhere) = other.mapError (Failure.relocate nowhere) := by
  apply (ends_adaptExcept nowhere _ _ _ _).mp
  rw [← launch_relocate, ← same, launch_relocate]
  exact (ends_adaptExcept nowhere _ _ _ _).mpr ⟨result, ends, rfl⟩

/-- With a text that has the same static reports and the same statements as another one, but for
lines, a session finishes if it does with the other one, and in the same way but for lines. -/
theorem Session.finishes_alike {first second : String}
    (sameReports : Report.SameButLines (staticReports first) (staticReports second))
    (sameStatements : (Program.ofText first).statements.map (·.relocate nowhere) =
      (Program.ofText second).statements.map (·.relocate nowhere))
    {session final : Session} (finishes : session.Finishes first final) :
    ∃ other, session.Finishes second other ∧ SameButLines session.log final other := by
  obtain ⟨fuel, run⟩ := finishes
  have sameErrors : (session.log.add (staticReports first)).hadError =
      (session.log.add (staticReports second)).hadError :=
    congrArg (session.log.hadError || ·) (sameReports.any_eq id)
  -- The session itself may hold a static error already, and then it executes neither text.
  cases hadError : (session.log.add (staticReports first)).hadError with
  | true =>
      rw [run_of_hadError hadError] at run
      cases run
      refine ⟨_, ⟨fuel, run_of_hadError (sameErrors ▸ hadError)⟩, ?_⟩
      exact sameButLines_add sameReports _ _ _
  | false =>
      obtain ⟨result, after, ends, rfl⟩ := (run_eq_some_iff hadError).mp run
      obtain ⟨other, otherEnds, sameResult⟩ := launch_ends_alike sameStatements ends
      refine ⟨_, ⟨fuel, (run_eq_some_iff (sameErrors ▸ hadError)).mpr ⟨other, after, otherEnds, rfl⟩⟩,
        ?_⟩
      rw [Log.settle_eq_add, Log.settle_eq_add, ← Log.add_append, ← Log.add_append]
      exact sameButLines_add (sameReports.append (Failure.sameButLines_reports sameResult)) _ _ _

/-! ## Texts -/

section Texts

variable {first second : String}

/-- From tokens that are spelled alike the same program is read, but for lines. -/
theorem Program.sameButLines_ofText
    (alike : (Lexed.ofText first).tokens.map (fun token => (token.kind, token.lexeme)) =
      (Lexed.ofText second).tokens.map fun token => (token.kind, token.lexeme)) :
    SameButLines (ofText first) (ofText second) := by
  have lexemes : (Lexed.ofText first).tokens.map Token.lexeme =
      (Lexed.ofText second).tokens.map Token.lexeme := by
    simpa [Function.comp_def] using congrArg (List.map Prod.snd) alike
  rw [SameButLines, ofText, ofText, ← ofTokens_relocate nowhere (EndedOnce.ofText first).ne_nil,
    ← ofTokens_relocate nowhere (EndedOnce.ofText second).ne_nil,
    Lexed.map_relocate_eq_of_lexemes lexemes]

/-- Without lexical errors, the static reports are those of the program. -/
theorem Program.SameButLines.staticReports (same : SameButLines (ofText first) (ofText second))
    (firstLexed : (Lexed.ofText first).errors = []) (secondLexed : (Lexed.ofText second).errors = []) :
    Report.SameButLines (staticReports first) (BlockScript.staticReports second) := by
  have sameErrors : (ofText first).errors.map (·.relocate nowhere) =
      (ofText second).errors.map (·.relocate nowhere) := congrArg Program.errors same
  have relocated (errors : List SyntaxError) :
      (errors.map SyntaxError.report).map (·.relocate nowhere) =
        (errors.map (·.relocate nowhere)).map SyntaxError.report := by
    rw [List.map_map, List.map_map]
    exact List.map_congr_left fun error _ => (error.report_relocate nowhere).symm
  rw [BlockScript.staticReports, BlockScript.staticReports, firstLexed, secondLexed,
    Report.SameButLines, List.map_nil, List.nil_append, List.nil_append, relocated, relocated,
    sameErrors]

/-- Texts without lexical errors whose tokens are of the same kinds and spelled alike differ in their
layout only. They are read as the same statements with the same faults, and every session finishes
with one of them exactly if it does with the other one, in the same way, all of it but for lines. -/
theorem sameButLines_layouts (firstLexed : (Lexed.ofText first).errors = [])
    (secondLexed : (Lexed.ofText second).errors = [])
    (alike : (Lexed.ofText first).tokens.map (fun token => (token.kind, token.lexeme)) =
      (Lexed.ofText second).tokens.map fun token => (token.kind, token.lexeme)) :
    Program.SameButLines (.ofText first) (.ofText second) ∧
    ∀ session : Session,
      ((∃ final, session.Finishes first final) ↔ ∃ final, session.Finishes second final) ∧
      ∀ left right, session.Finishes first left → session.Finishes second right →
        Session.SameButLines session.log left right := by
  have same := Program.sameButLines_ofText alike
  have sameReports := same.staticReports firstLexed secondLexed
  have sameStatements := congrArg Program.statements same
  refine ⟨same, fun session => ⟨⟨?forth, ?back⟩, ?alike⟩⟩
  case forth =>
    intro finishes
    obtain ⟨left, leftFinishes⟩ := finishes
    obtain ⟨right, rightFinishes, _⟩ :=
      Session.finishes_alike sameReports sameStatements leftFinishes
    exact ⟨right, rightFinishes⟩
  case back =>
    intro finishes
    obtain ⟨right, rightFinishes⟩ := finishes
    obtain ⟨left, leftFinishes, _⟩ :=
      Session.finishes_alike sameReports.symm sameStatements.symm rightFinishes
    exact ⟨left, leftFinishes⟩
  case alike =>
    intro left right leftFinishes rightFinishes
    obtain ⟨other, otherFinishes, sameFinal⟩ :=
      Session.finishes_alike sameReports sameStatements leftFinishes
    rwa [rightFinishes.unique otherFinishes]

end Texts

/-- The session in which a name that is not declared was read on some line. -/
def undeclaredSession (line : Nat) : Session :=
  ⟨.initial .empty, ⟨[.runtime line "Undefined variable 'a'."], false, true⟩, false⟩

/-- A comment, line breaks and blanks move the failure of a program, and change nothing else. -/
theorem sameButLines_afterComment :
    ((Lexed.ofText "a;").errors = [] ∧ (Lexed.ofText "// a\na\n ;").errors = []) ∧
      (Lexed.ofText "a;").tokens.map (fun token => (token.kind, token.lexeme)) =
        (Lexed.ofText "// a\na\n ;").tokens.map (fun token => (token.kind, token.lexeme)) ∧
      (Session.fresh .empty).Finishes "a;" (undeclaredSession 1) ∧
      (Session.fresh .empty).Finishes "// a\na\n ;" (undeclaredSession 2) ∧
      Session.SameButLines .empty (undeclaredSession 1) (undeclaredSession 2) := by
  have lexed : Lexed.ofText "a;" =
      ⟨[⟨.identifier, "a", none, 1⟩, ⟨.mark .semicolon, ";", none, 1⟩, .finish 1], []⟩ := by
    decide +kernel
  have otherLexed : Lexed.ofText "// a\na\n ;" =
      ⟨[⟨.identifier, "a", none, 2⟩, ⟨.mark .semicolon, ";", none, 3⟩, .finish 3], []⟩ := by
    decide +kernel
  have read : Program.ofTokens
      [⟨.identifier, "a", none, 1⟩, ⟨.mark .semicolon, ";", none, 1⟩, .finish 1] =
        ⟨[.expression (.variable ⟨.identifier, "a", none, 1⟩)], []⟩ := by
    cbv
  have otherRead : Program.ofTokens
      [⟨.identifier, "a", none, 2⟩, ⟨.mark .semicolon, ";", none, 3⟩, .finish 3] =
        ⟨[.expression (.variable ⟨.identifier, "a", none, 2⟩)], []⟩ := by
    cbv
  have finishes : (Session.fresh .empty).Finishes "a;" (undeclaredSession 1) := by
    exists 0
    simp only [Session.fresh, Session.run, lexed, read]
    rfl
  have otherFinishes : (Session.fresh .empty).Finishes "// a\na\n ;" (undeclaredSession 2) := by
    exists 0
    simp only [Session.fresh, Session.run, otherLexed, otherRead]
    rfl
  have faultless : (Lexed.ofText "a;").errors = [] := by rw [lexed]
  have otherFaultless : (Lexed.ofText "// a\na\n ;").errors = [] := by rw [otherLexed]
  have alike : (Lexed.ofText "a;").tokens.map (fun token => (token.kind, token.lexeme)) =
      (Lexed.ofText "// a\na\n ;").tokens.map (fun token => (token.kind, token.lexeme)) := by
    rw [lexed, otherLexed]
    rfl
  exact ⟨⟨faultless, otherFaultless⟩, alike, finishes, otherFinishes,
    ((sameButLines_layouts faultless otherFaultless alike).2 _).2 _ _ finishes otherFinishes⟩

end BlockScript
