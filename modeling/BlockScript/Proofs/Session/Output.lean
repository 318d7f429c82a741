import BlockScript.Proofs.Effect.Correspondence
import BlockScript.Proofs.Session.Finishing
import BlockScript.Proofs.Session.Writing

/-!
# Output cannot be read

A program writes lines, and nothing that it does depends on what becomes of them. On any two sinks
it writes the same lines, even if each of the sinks refuses some of them and holds text already. So
a session comes to the same with a source text whichever of the two sinks it has, and it offers the
same lines to both. The lines that show the program come before those that it prints.
-/

namespace BlockScript

/-! ## Programs -/

/-- Two sinks are left after the same lines. -/
def Sink.AfterSame (left right leftAfter rightAfter : Sink) : Prop :=
  ∃ lines, leftAfter = left.writeLines lines ∧ rightAfter = right.writeLines lines

/-- Programs cannot see which sink they write to. -/
theorem correspondence_afterSame (left right : Sink) :
    Correspondence (fun _ => Eq) (left.AfterSame right) := by
  apply correspondence_ofOutput
  rintro _ _ ⟨lines, rfl, rfl⟩ line
  exact ⟨lines ++ [line], (Sink.writeLines_concat lines line left).symm,
    (Sink.writeLines_concat lines line right).symm⟩

/-- If one of two computations that reply alike ends, then so does the other one. -/
theorem Alike.ends {ε σ α : Type} {related : σ → σ → Prop} {failure? : ε → Option Failure}
    {action other : EStateM ε σ α} {before start after : σ} {result : Except Failure α}
    (replies : Alike related (action before) (other start))
    (ends : Ends failure? action before result after) :
    ∃ left, Ends failure? other start result left ∧ related after left := by
  rw [Ends] at ends
  simp only [Ends]
  generalize action before = reply, other start = otherReply at replies ends ⊢
  cases replies with
  | ok value leave =>
      obtain ⟨rfl, rfl⟩ := ends
      exact ⟨_, ⟨rfl, rfl⟩, leave⟩
  | error stop leave =>
      obtain ⟨failure, isFailure, rfl, rfl⟩ := ends
      exact ⟨_, ⟨failure, isFailure, rfl, rfl⟩, leave⟩

/-- A program that ends with one sink ends with any other one. It has the same result, leaves the
same scopes and has written the same lines. -/
theorem ends_interpret_otherSink {fuel : Nat} {program : List Stmt} {scopes scopesAfter : Scopes}
    {left leftAfter : Sink} {result : Except Failure Unit}
    (ends : (interpret fuel program).Ends ⟨scopes, left⟩ result ⟨scopesAfter, leftAfter⟩)
    (right : Sink) :
    ∃ printed, leftAfter = left.writeLines printed ∧
      (interpret fuel program).Ends ⟨scopes, right⟩ result
        ⟨scopesAfter, right.writeLines printed⟩ := by
  have replies := respects_interpret (correspondence_afterSame left right) fuel 0 program
    ⟨scopes, left⟩ ⟨scopes, right⟩ ⟨rfl, [], rfl, rfl⟩
  obtain ⟨⟨_, _⟩, otherEnds, ⟨rfl, printed, rfl, rfl⟩⟩ := replies.ends ends
  exact ⟨printed, rfl, otherEnds⟩

namespace Session

/-! ## Sessions -/

/-- The session with another sink. It shows programs before they run, or does not. -/
def writingTo (sink : Sink) (echoing : Bool) (session : Session) : Session :=
  ⟨⟨session.machine.scopes, sink⟩, session.log, echoing⟩

/-- Whether the program of a text is executed: there must not have been a static error before, nor
may there be one in the text. -/
def executes (source : String) (session : Session) : Bool :=
  !(session.log.add (staticReports source)).hadError

/-- The lines that show the program of a text, if it is executed and programs are shown. -/
def shown (source : String) (echoing : Bool) (session : Session) : List String :=
  if session.executes source && echoing then
    (Program.ofText source).statements.map Stmt.render
  else []

/-- What a session comes to with a text, but for what its sink makes of it. -/
structure Outcome where
  scopes : Scopes
  log : Log
  /-- The lines that the program offers to the sink. -/
  printed : List String

/-- The session that has come to an outcome with a text, if it had this sink before. -/
def finished (source : String) (outcome : Outcome) (sink : Sink) (echoing : Bool)
    (session : Session) : Session where
  machine := ⟨outcome.scopes, sink.writeLines (session.shown source echoing ++ outcome.printed)⟩
  log := outcome.log
  echoing := echoing

/-- With a sink, a session comes to an outcome with a text, or does not come to an end. -/
structure ComesTo (session : Session) (source : String) (outcome : Option Outcome) (sink : Sink)
    (echoing : Bool) : Prop where
  /-- It finishes just if there is an outcome. The program has been shown before it has printed
  anything. -/
  finishes : ∀ final, (session.writingTo sink echoing).Finishes source final ↔
    ∃ known ∈ outcome, final = session.finished source known sink echoing
  /-- If no line that has been offered since was refused, then all of them have been written after
  the text that was there. -/
  text : ∀ known ∈ outcome, ∀ final, (session.writingTo sink echoing).Finishes source final →
    (∀ index, sink.offered ≤ index → index < final.machine.output.offered →
      sink.accepts index = true) →
    final.machine.output.text =
      sink.text ++ unlines (session.shown source echoing ++ known.printed)

variable {session final : Session} {source : String} {sink left right : Sink}
  {echoing leftEchoing rightEchoing : Bool} {outcome : Outcome}

theorem comesTo_of_finishes
    (finishes : (session.writingTo sink echoing).Finishes source
      (session.finished source outcome sink echoing)) :
    ComesTo session source (some outcome) sink echoing where
  finishes final := by
    constructor
    · intro finalFinishes
      exact ⟨outcome, rfl, finalFinishes.unique finishes⟩
    · rintro ⟨_, ⟨⟩, rfl⟩
      exact finishes
  text := by
    rintro _ ⟨⟩ final finalFinishes noneRefused
    cases finalFinishes.unique finishes
    apply Sink.text_writeLines
    intro index atLeast below
    apply noneRefused index atLeast
    rw [finished, Sink.offered_writeLines]
    exact below

theorem comesTo_none
    (unfinished : ¬ ∃ final, (session.writingTo sink echoing).Finishes source final) :
    ComesTo session source none sink echoing where
  finishes final := by
    constructor
    · intro finishes
      exact absurd ⟨final, finishes⟩ unfinished
    · rintro ⟨_, ⟨⟩, _⟩
  text := by
    rintro _ ⟨⟩

/-! ## Two sinks -/

/-- Nothing is shown or printed if the program is not executed, and the machine stays what it is. -/
theorem finishes_of_not_executes (skipped : session.executes source = false) (sink : Sink)
    (echoing : Bool) :
    (session.writingTo sink echoing).Finishes source (session.finished source
      ⟨session.machine.scopes, session.log.add (staticReports source), []⟩ sink echoing) := by
  have hadError : (session.log.add (staticReports source)).hadError = true := by
    simpa [executes] using skipped
  have nothingShown : session.shown source echoing = [] := by
    rw [shown, skipped]
    rfl
  refine ⟨0, ?_⟩
  rw [finished, nothingShown]
  exact run_of_hadError hadError

/-- A program that is executed starts after the lines that show it. -/
theorem ends_launch (executed : session.executes source = true) (fuel : Nat) (sink : Sink)
    (echoing : Bool) (result : Except Failure Unit) (after : Machine) :
    (launch fuel echoing (Program.ofText source).statements).Ends ⟨session.machine.scopes, sink⟩
        result after ↔
      (interpret fuel (Program.ofText source).statements).Ends
        ⟨session.machine.scopes, sink.writeLines (session.shown source echoing)⟩ result after := by
  rw [shown, executed, Bool.true_and, Execution.Ends, Ends, launch_eq]
  rfl

/-- A session that finishes with one sink comes to an outcome with any two, and to the same one. -/
theorem exists_outcome (executed : session.executes source = true)
    (finishes : (session.writingTo left leftEchoing).Finishes source final) (right : Sink)
    (rightEchoing : Bool) :
    ∃ outcome, final = session.finished source outcome left leftEchoing ∧
      (session.writingTo right rightEchoing).Finishes source
        (session.finished source outcome right rightEchoing) := by
  have noError (sink : Sink) (echoing : Bool) :
      ((session.writingTo sink echoing).log.add (staticReports source)).hadError = false := by
    simpa [executes, writingTo] using executed
  obtain ⟨fuel, run⟩ := finishes
  obtain ⟨result, ⟨scopesAfter, leftAfter⟩, ends, rfl⟩ :=
    (run_eq_some_iff (noError left leftEchoing)).mp run
  -- What has been shown is part of what the sinks hold when the program starts.
  obtain ⟨printed, rfl, otherEnds⟩ := ends_interpret_otherSink
    ((ends_launch executed fuel left leftEchoing _ _).mp ends)
    (right.writeLines (session.shown source rightEchoing))
  refine ⟨⟨scopesAfter, (session.log.add (staticReports source)).settle result, printed⟩, ?_, fuel,
    (run_eq_some_iff (noError right rightEchoing)).mpr ⟨result, _,
      (ends_launch executed fuel right rightEchoing _ _).mpr otherEnds, ?_⟩⟩
  all_goals
    rw [finished, Sink.writeLines_append]
    rfl

/-- Output is written and never read. With any two sinks, whatever they hold and whichever lines
they refuse, and whether or not the program is shown, a session finishes with a text in the same
cases, and then with the same scopes and the same log. The program offers the same lines to both
sinks, and the lines that show it come before them. A program that is not executed is not shown,
and the session is left as it was but for the static errors of the text. -/
theorem output_unread (session : Session) (source : String) (left right : Sink)
    (leftEchoing rightEchoing : Bool) :
    ∃ outcome, ComesTo session source outcome left leftEchoing ∧
      ComesTo session source outcome right rightEchoing ∧
      (session.executes source = false → outcome =
        some ⟨session.machine.scopes, session.log.add (staticReports source), []⟩) := by
  cases executed : session.executes source with
  | false =>
      have finishes := finishes_of_not_executes executed
      exact ⟨_, comesTo_of_finishes (finishes left leftEchoing),
        comesTo_of_finishes (finishes right rightEchoing), fun _ => rfl⟩
  | true =>
      by_cases isFinished : ∃ final, (session.writingTo left leftEchoing).Finishes source final
      · obtain ⟨final, leftFinishes⟩ := isFinished
        obtain ⟨outcome, rfl, rightFinishes⟩ :=
          exists_outcome executed leftFinishes right rightEchoing
        exact ⟨some outcome, comesTo_of_finishes leftFinishes, comesTo_of_finishes rightFinishes,
          nofun⟩
      · have rightUnfinished :
            ¬ ∃ final, (session.writingTo right rightEchoing).Finishes source final := by
          rintro ⟨final, rightFinishes⟩
          obtain ⟨outcome, -, leftFinishes⟩ :=
            exists_outcome executed rightFinishes left leftEchoing
          exact isFinished ⟨_, leftFinishes⟩
        exact ⟨none, comesTo_none isFinished, comesTo_none rightUnfinished, nofun⟩

end Session

end BlockScript
