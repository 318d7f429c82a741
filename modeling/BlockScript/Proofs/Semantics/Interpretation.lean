import BlockScript.Proofs.Semantics.Execution

/-!
# Interpretation implements the semantics

A program terminates with a result on a machine exactly if the semantics derives that result, and a
program for which nothing is derived is out of fuel however much it gets.
-/

namespace BlockScript

variable {program : List Stmt} {before after : Machine} {result : Except Failure Unit}

/-- A program terminates if it ends with any amount of fuel from some amount on, each time in the
same way. -/
def Terminates (program : List Stmt) (before : Machine) (result : Except Failure Unit)
    (after : Machine) : Prop :=
  ∃ enough, ∀ fuel, enough ≤ fuel → (interpret fuel program).Ends before result after

/-- One amount of fuel that a program ends with is enough to know that it terminates. -/
theorem terminates_iff_exists_fuel :
    Terminates program before result after ↔
      ∃ fuel, (interpret fuel program).Ends before result after := by
  constructor
  · intro terminates
    rcases terminates with ⟨enough, ends⟩
    exact ⟨enough, ends enough (Nat.le_refl enough)⟩
  · intro ended
    rcases ended with ⟨fuel, ends⟩
    exact ⟨fuel, fun more enough => extends_interpret enough program _ _ _ ends⟩

theorem runs_of_ends (fuel : Nat) (ends : (interpret fuel program).Ends before result after) :
    Runs program before result after := by
  induction program generalizing before with
  | nil =>
      rcases ends with ⟨rfl, rfl⟩
      exact .nil _
  | cons statement rest inductionHypothesis =>
      rw [interpret] at ends
      rcases (ends_bind _ _ _).mp ends with
        ⟨completion, between, first, others⟩ | ⟨failure, rfl, failed⟩
      · exact .next (executes_of_ends fuel statement first) (inductionHypothesis others)
      · exact .fails (executes_of_ends fuel statement failed)

theorem Runs.ends (runs : Runs program before result after) :
    ∃ fuel, (interpret fuel program).Ends before result after := by
  induction runs with
  | nil machine => exact ⟨0, rfl, rfl⟩
  | @next statement rest completion result before between after first others inductionHypothesis =>
      rcases first.ends with ⟨firstFuel, firstEnds⟩
      rcases inductionHypothesis with ⟨othersFuel, othersEnd⟩
      exists max firstFuel othersFuel
      have firstExtends := statement.extends_exec (Nat.le_max_left firstFuel othersFuel)
      have othersExtend := extends_interpret (Nat.le_max_right firstFuel othersFuel) rest
      rw [interpret]
      exact (firstExtends _ _ _ firstEnds).bind (othersExtend _ _ _ othersEnd)
  | fails failed =>
      rcases failed.ends with ⟨fuel, failedEnds⟩
      exists fuel
      rw [interpret]
      exact failedEnds.bind_error _

/-- A program terminates with a result and a final machine exactly if the semantics derives them,
whatever machine it starts on. It is enough to see it end once. -/
theorem terminates_iff_runs (program : List Stmt) (before : Machine) (result : Except Failure Unit)
    (after : Machine) :
    (Terminates program before result after ↔ Runs program before result after) ∧
      ((∃ fuel, (interpret fuel program).Ends before result after) ↔
        Runs program before result after) := by
  have ended : (∃ fuel, (interpret fuel program).Ends before result after) ↔
      Runs program before result after := by
    constructor
    · intro ends
      rcases ends with ⟨fuel, ends⟩
      exact runs_of_ends fuel ends
    · exact Runs.ends
  exact ⟨terminates_iff_exists_fuel.trans ended, ended⟩

/-- A program comes to one result at most. -/
theorem Runs.unique {left right : Except Failure Unit} {first second : Machine}
    (leftRuns : Runs program before left first) (rightRuns : Runs program before right second) :
    left = right ∧ first = second := by
  rcases terminates_iff_exists_fuel.mpr leftRuns.ends with ⟨leftEnough, leftEnds⟩
  rcases terminates_iff_exists_fuel.mpr rightRuns.ends with ⟨rightEnough, rightEnds⟩
  have leftEnd := leftEnds _ (Nat.le_max_left leftEnough rightEnough)
  have rightEnd := rightEnds _ (Nat.le_max_right leftEnough rightEnough)
  exact leftEnd.unique rightEnd

/-- The semantics gives a program no result exactly if no amount of fuel is enough for it. -/
theorem not_runs_iff_outOfFuel (program : List Stmt) (before : Machine) :
    (∀ result after, ¬ Runs program before result after) ↔
      ∀ fuel, ∃ left, interpret fuel program before = .error .outOfFuel left := by
  constructor
  · intro noRun fuel
    cases reply : interpret fuel program before with
    | ok value after =>
        have runs := runs_of_ends fuel (ends_of_ok reply)
        exact absurd runs (noRun _ _)
    | error stop left =>
        cases stop with
        | error error =>
            have runs := runs_of_ends fuel (ends_of_error reply rfl)
            exact absurd runs (noRun _ _)
        | outOfFuel => exact ⟨left, rfl⟩
  · intro exhausted result after runs
    rcases runs.ends with ⟨fuel, ends⟩
    rcases exhausted fuel with ⟨left, reply⟩
    rw [Execution.Ends, Ends, reply] at ends
    rcases ends with ⟨failure, isFailure, _⟩
    cases isFailure

end BlockScript
