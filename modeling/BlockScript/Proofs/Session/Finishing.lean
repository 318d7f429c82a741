import BlockScript.Proofs.Session.Joining

/-!
# How sessions finish with a text

A session either executes a text or only reports its static errors. If it executes the text, it
finishes exactly if the execution ends, whether or not it shows the program before it runs it. More
fuel changes nothing about it, and so a session finishes with a text in one way at most.
-/

namespace BlockScript

namespace Session

/-- More fuel changes no ending of a program, shown or not. -/
theorem extends_launch {fuel moreFuel : Nat} (enough : fuel ≤ moreFuel) (echoing : Bool)
    (statements : List Stmt) :
    (launch fuel echoing statements).Extends (launch moreFuel echoing statements) := by
  rw [launch, launch]
  cases echoing with
  | true =>
      exact Execution.extends_bind (Execution.extends_refl _) fun _ =>
        extends_interpret enough statements
  | false => exact extends_interpret enough statements

variable {session final : Session} {source : String} {fuel : Nat}

theorem run_of_hadError
    (hadError : (session.log.add (staticReports source)).hadError = true) :
    session.run fuel source =
      some ⟨session.machine, session.log.add (staticReports source), session.echoing⟩ := by
  cases session with
  | mk machine log echoing => exact if_pos hadError

/-- Without a static error, a run is over exactly if the execution of the program ends, and the log
tells of its result. -/
theorem run_eq_some_iff
    (noError : (session.log.add (staticReports source)).hadError = false) :
    session.run fuel source = some final ↔
      ∃ result after,
        (launch fuel session.echoing (Program.ofText source).statements).Ends session.machine
          result after ∧
        final = ⟨after, (session.log.add (staticReports source)).settle result,
          session.echoing⟩ := by
  cases session with
  | mk machine log echoing =>
      have executes : ¬ (log.add (staticReports source)).hadError = true := by
        simpa using noError
      rw [run]
      simp only [staticReports, Program.ofText] at executes ⊢
      simp only [if_neg executes, Execution.Ends, Ends]
      cases launch fuel echoing (Program.ofTokens (Lexed.ofText source).tokens).statements machine with
      | ok value left =>
          constructor
          · intro isOver
            cases isOver
            exact ⟨.ok value, left, ⟨rfl, rfl⟩, rfl⟩
          · intro ended
            obtain ⟨result, after, ⟨rfl, rfl⟩, rfl⟩ := ended
            rfl
      | error stop left =>
          cases stop with
          | outOfFuel => simp [Stop.failure?]
          | error error =>
              constructor
              · intro isOver
                cases isOver
                exact ⟨.error error.failure, left, ⟨_, rfl, rfl, rfl⟩, rfl⟩
              · intro ended
                obtain ⟨result, after, ⟨failure, isFailure, rfl, rfl⟩, rfl⟩ := ended
                cases isFailure
                rfl

/-- What is over with some fuel is over in the same way with more. -/
theorem run_mono {moreFuel : Nat} (enough : fuel ≤ moreFuel)
    (isOver : session.run fuel source = some final) :
    session.run moreFuel source = some final := by
  cases hadError : (session.log.add (staticReports source)).hadError with
  | true =>
      rw [run_of_hadError hadError] at isOver ⊢
      exact isOver
  | false =>
      rw [run_eq_some_iff hadError] at isOver ⊢
      obtain ⟨result, after, ends, isFinal⟩ := isOver
      exact ⟨result, after, extends_launch enough _ _ _ _ _ ends, isFinal⟩

/-- A session finishes with a text in one way at most. -/
theorem Finishes.unique {left right : Session} (leftFinishes : session.Finishes source left)
    (rightFinishes : session.Finishes source right) : left = right := by
  obtain ⟨leftFuel, leftRun⟩ := leftFinishes
  obtain ⟨rightFuel, rightRun⟩ := rightFinishes
  have leftAgain := run_mono (Nat.le_max_left leftFuel rightFuel) leftRun
  have rightAgain := run_mono (Nat.le_max_right leftFuel rightFuel) rightRun
  exact Option.some.inj (leftAgain.symm.trans rightAgain)

end Session

end BlockScript
