import BlockScript.Proofs.Semantics.Operation
import BlockScript.Run.Execution

/-!
# How computations end

What can be seen of a computation once it has ended: its value or its failure, and the state that
it leaves. A computation that is out of fuel has not ended. Each way to build a computation is met
by one lemma that says how the whole ends in terms of how its parts end.
-/

namespace BlockScript

variable {ε σ α β : Type}

/-- A computation ends with a result and leaves a state. Stops that stand for no failure are no
end. -/
def Ends (failure? : ε → Option Failure) (action : EStateM ε σ α) (before : σ)
    (result : Except Failure α) (after : σ) : Prop :=
  match action before with
  | .ok value left => result = .ok value ∧ after = left
  | .error stop left => ∃ failure, failure? stop = some failure ∧ result = .error failure ∧ after = left

section Building

variable {failure? : ε → Option Failure} {before after : σ} {failure : Failure}

theorem ends_of_ok {action : EStateM ε σ α} {value : α} (reply : action before = .ok value after) :
    Ends failure? action before (.ok value) after := by
  rw [Ends, reply]
  exact ⟨rfl, rfl⟩

theorem ends_of_error {action : EStateM ε σ α} {stop : ε} (reply : action before = .error stop after)
    (isFailure : failure? stop = some failure) :
    Ends failure? action before (.error failure) after := by
  rw [Ends, reply]
  exact ⟨failure, isFailure, rfl, rfl⟩

theorem Ends.unique {action : EStateM ε σ α} {left right : Except Failure α} {first second : σ}
    (leftEnds : Ends failure? action before left first)
    (rightEnds : Ends failure? action before right second) : left = right ∧ first = second := by
  rw [Ends] at leftEnds rightEnds
  cases reply : action before with
  | ok value state =>
      rw [reply] at leftEnds rightEnds
      exact ⟨leftEnds.1.trans rightEnds.1.symm, leftEnds.2.trans rightEnds.2.symm⟩
  | error stop state =>
      rw [reply] at leftEnds rightEnds
      rcases leftEnds with ⟨leftFailure, isLeft, rfl, rfl⟩
      rcases rightEnds with ⟨rightFailure, isRight, rfl, rfl⟩
      cases isLeft.symm.trans isRight
      exact ⟨rfl, rfl⟩

/-- How a computation ends depends on its reply only. -/
theorem ends_congr {action other : EStateM ε σ α} (same : action before = other before)
    (result : Except Failure α) :
    Ends failure? action before result after ↔ Ends failure? other before result after := by
  rw [Ends, Ends, same]

theorem ends_pure (value : α) (result : Except Failure α) :
    Ends failure? (pure value : EStateM ε σ α) before result after ↔
      result = .ok value ∧ after = before :=
  Iff.rfl

theorem ends_throw (stop : ε) (result : Except Failure α) :
    Ends failure? (throw stop : EStateM ε σ α) before result after ↔
      ∃ failure, failure? stop = some failure ∧ result = .error failure ∧ after = before :=
  Iff.rfl

/-- Two computations in a row end as the second one does, or the first one fails and the second one
is not begun. -/
theorem ends_bind (action : EStateM ε σ α) (next : α → EStateM ε σ β) (result : Except Failure β) :
    Ends failure? (action >>= next) before result after ↔
      (∃ value between, Ends failure? action before (.ok value) between ∧
        Ends failure? (next value) between result after) ∨
      ∃ failure, result = .error failure ∧ Ends failure? action before (.error failure) after := by
  simp only [Ends, bind, EStateM.bind]
  cases action before with
  | ok value left =>
      simp only [Except.ok.injEq, reduceCtorEq, false_and, and_false, exists_false, or_false]
      constructor
      · intro ends
        exact ⟨value, left, ⟨rfl, rfl⟩, ends⟩
      · intro inRow
        rcases inRow with ⟨_, _, ⟨rfl, rfl⟩, ends⟩
        exact ends
  | error stop left =>
      simp only [reduceCtorEq, false_and, and_false, exists_false, false_or, Except.error.injEq]
      constructor
      · intro failed
        rcases failed with ⟨failure, isFailure, rfl, rfl⟩
        exact ⟨failure, rfl, failure, isFailure, rfl, rfl⟩
      · intro failed
        rcases failed with ⟨failure, rfl, _, isFailure, rfl, rfl⟩
        exact ⟨failure, isFailure, rfl, rfl⟩

theorem Ends.bind {action : EStateM ε σ α} {next : α → EStateM ε σ β} {value : α} {between : σ}
    {result : Except Failure β} (first : Ends failure? action before (.ok value) between)
    (second : Ends failure? (next value) between result after) :
    Ends failure? (action >>= next) before result after :=
  (ends_bind action next result).mpr (.inl ⟨value, between, first, second⟩)

theorem Ends.bind_error {action : EStateM ε σ α} (next : α → EStateM ε σ β)
    (failed : Ends failure? action before (.error failure) after) :
    Ends failure? (action >>= next) before (.error failure) after :=
  (ends_bind action next _).mpr (.inr ⟨failure, rfl, failed⟩)

end Building

/-! ## Evaluation -/

/-- How an evaluation ends. It always does. -/
abbrev Evaluation.Ends (action : Evaluation α) : Scopes → Except Failure α → Scopes → Prop :=
  BlockScript.Ends (fun error : RuntimeError => some error.failure) action

namespace Evaluation

variable {before after : Scopes}

theorem ends_throw (error : RuntimeError) (result : Except Failure α) :
    (throw error : Evaluation α).Ends before result after ↔
      result = .error error.failure ∧ after = before := by
  simp [BlockScript.ends_throw]

theorem ends_blame (token : Token) (outcome : Except RuntimeFault Value)
    (result : Except Failure Value) :
    (blame token outcome).Ends before result after ↔
      result = blamed token outcome ∧ after = before := by
  cases outcome with
  | ok value => exact ends_pure value result
  | error fault => exact ends_throw ⟨token, fault⟩ result

end Evaluation

/-! ## Execution -/

/-- Only errors are failures. -/
def Stop.failure? : Stop → Option Failure
  | .error fault => some fault.failure
  | .outOfFuel => none

abbrev Execution.Ends (action : Execution α) : Machine → Except Failure α → Machine → Prop :=
  BlockScript.Ends Stop.failure? action

namespace Execution

variable {before after : Scopes} {output written : Sink}

theorem ends_eval (expr : Expr) (result : Except Failure Value) :
    (eval expr).Ends ⟨before, output⟩ result ⟨after, written⟩ ↔
      expr.eval.Ends before result after ∧ written = output := by
  simp only [BlockScript.Ends, eval]
  cases expr.eval before with
  | ok value left => simp [and_assoc]
  | error error left => simp [Stop.failure?, and_assoc]

theorem ends_writeLine (line : String) (result : Except Failure Unit) :
    (writeLine line).Ends ⟨before, output⟩ result ⟨after, written⟩ ↔
      result = .ok () ∧ after = before ∧ written = output.writeLine line := by
  simp [BlockScript.Ends, writeLine]

theorem ends_declare (name : String) (slot : Slot) (result : Except Failure Unit) :
    (declare name slot).Ends ⟨before, output⟩ result ⟨after, written⟩ ↔
      result = .ok () ∧ after = before.declare name slot ∧ written = output := by
  simp [BlockScript.Ends, declare]

/-- A scope of its own is entered before the body and left after it. -/
theorem ends_inScope (body : Execution α) (result : Except Failure α) :
    (inScope body).Ends ⟨before, output⟩ result ⟨after, written⟩ ↔
      ∃ inside, body.Ends ⟨before.enter, output⟩ result ⟨inside, written⟩ ∧ after = inside.leave := by
  simp only [BlockScript.Ends, inScope]
  cases body ⟨before.enter, output⟩ with
  | ok value left =>
      cases left with
      | mk inside kept => simp [and_assoc, and_comm, and_left_comm]
  | error stop left =>
      cases left with
      | mk inside kept =>
          simp only [Machine.mk.injEq]
          constructor
          · intro failed
            rcases failed with ⟨failure, isFailure, rfl, rfl, rfl⟩
            exact ⟨inside, ⟨failure, isFailure, rfl, rfl, rfl⟩, rfl⟩
          · intro failed
            rcases failed with ⟨_, ⟨failure, isFailure, rfl, rfl, rfl⟩, rfl⟩
            exact ⟨failure, isFailure, rfl, rfl, rfl⟩

theorem not_ends_repeatWhile_zero (condition : Expr) (body : Execution Completion)
    (machine : Machine) (result : Except Failure Completion) (final : Machine) :
    ¬ (repeatWhile condition body 0).Ends machine result final := by
  intro ends
  rcases ends with ⟨failure, isFailure, _⟩
  cases isFailure

end Execution

end BlockScript
