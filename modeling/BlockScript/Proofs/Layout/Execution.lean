import BlockScript.Proofs.Layout.Relocation
import BlockScript.Proofs.Semantics.Interpretation

/-!
# Lines do not matter to a run

The lines of a program are told to nobody but to the user, by the error that a run may end in. So a
relocated program does what the program does, and an error that it ends in is relocated with it.
-/

namespace EStateM

variable {ε ε' σ α β : Type}

theorem adaptExcept_bind (change : ε → ε') (action : EStateM ε σ α) (next : α → EStateM ε σ β) :
    adaptExcept change (action >>= next) =
      adaptExcept change action >>= fun value => adaptExcept change (next value) := by
  funext state
  simp only [adaptExcept, bind, EStateM.bind]
  cases action state <;> rfl

end EStateM

namespace BlockScript

open EStateM

variable (lines : Nat → Nat)

/-! ## Evaluation -/

namespace Evaluation

theorem read_relocate (name : Token) :
    read (name.relocate lines) = adaptExcept (RuntimeError.relocate lines) (read name) := by
  rw [read, read, adaptExcept_bind]
  congr 1
  funext scopes
  rw [Token.lexeme_relocate]
  split <;> rfl

theorem assign_relocate (name : Token) (value : Value) :
    assign (name.relocate lines) value =
      adaptExcept (RuntimeError.relocate lines) (assign name value) := by
  rw [assign, assign, adaptExcept_bind]
  congr 1
  funext scopes
  rw [Token.lexeme_relocate]
  split <;> rfl

theorem blame_relocate (token : Token) (outcome : Except RuntimeFault Value) :
    blame (token.relocate lines) outcome =
      adaptExcept (RuntimeError.relocate lines) (blame token outcome) := by
  cases outcome <;> rfl

end Evaluation

theorem Expr.eval_relocate (expr : Expr) :
    (expr.relocate lines).eval = adaptExcept (RuntimeError.relocate lines) expr.eval := by
  induction expr with
  | literal value => rfl
  | «variable» name => exact Evaluation.read_relocate lines name
  | assign name value valueIH =>
      simp only [relocate, eval, adaptExcept_bind, valueIH, Evaluation.assign_relocate]
      rfl
  | unary operator operand operandIH =>
      simp only [relocate, eval, adaptExcept_bind, operandIH, Token.kind_relocate,
        Evaluation.blame_relocate]
  | binary operator left right leftIH rightIH =>
      simp only [relocate, eval, adaptExcept_bind, leftIH, rightIH, Token.kind_relocate,
        Evaluation.blame_relocate]
  | logical operator left right leftIH rightIH =>
      simp only [relocate, eval, adaptExcept_bind, leftIH, rightIH, Token.kind_relocate]
      congr 1
      funext value
      split
      · split <;> rfl
      · split <;> rfl
      · rfl
  | ternary question condition whenTrue whenFalse conditionIH trueIH falseIH =>
      simp only [relocate, eval, adaptExcept_bind, conditionIH, trueIH, falseIH]
      congr 1
      funext value
      split <;> rfl
  | grouping inner innerIH => exact innerIH

/-! ## Execution -/

namespace Execution

theorem eval_relocate (expr : Expr) :
    eval (expr.relocate lines) = adaptExcept (Stop.relocate lines) (eval expr) := by
  funext machine
  simp only [eval, adaptExcept, expr.eval_relocate lines]
  cases expr.eval machine.scopes <;> rfl

theorem inScope_adaptExcept (body : Execution α) :
    inScope (adaptExcept (Stop.relocate lines) body) =
      adaptExcept (Stop.relocate lines) (inScope body) := by
  funext machine
  simp only [inScope, adaptExcept]
  cases body ⟨machine.scopes.enter, machine.output⟩ <;> rfl

theorem repeatWhile_relocate (condition : Expr) (body : Execution Completion) (fuel : Nat) :
    repeatWhile (condition.relocate lines) (adaptExcept (Stop.relocate lines) body) fuel =
      adaptExcept (Stop.relocate lines) (repeatWhile condition body fuel) := by
  induction fuel with
  | zero => rfl
  | succ fuel inductionHypothesis =>
      rw [repeatWhile, repeatWhile, adaptExcept_bind, eval_relocate, inductionHypothesis]
      congr 1
      funext value
      split
      · rw [adaptExcept_bind]
        congr 1
        funext completion
        cases completion <;> rfl
      · rfl

end Execution

open Execution

mutual

theorem Stmt.exec_relocate (fuel : Nat) : (statement : Stmt) →
    (statement.relocate lines).exec fuel = adaptExcept (Stop.relocate lines) (statement.exec fuel)
  | .print value => by
      rw [relocate, exec, exec, adaptExcept_bind, eval_relocate]
      rfl
  | .expression value => by
      rw [relocate, exec, exec, adaptExcept_bind, eval_relocate]
      rfl
  | .declare name none => by
      rw [relocate, Option.map_none, exec, exec]
      rfl
  | .declare name (some initial) => by
      rw [relocate, Option.map_some, exec, exec, adaptExcept_bind, eval_relocate]
      rfl
  | .block body => by
      rw [relocate, exec, exec, execAll_relocate fuel body, inScope_adaptExcept]
  | .ifThen condition whenTrue => by
      rw [relocate, exec, exec, adaptExcept_bind, eval_relocate]
      congr 1
      funext value
      split
      · exact exec_relocate fuel whenTrue
      · rfl
  | .ifElse condition whenTrue whenFalse => by
      rw [relocate, exec, exec, adaptExcept_bind, eval_relocate]
      congr 1
      funext value
      split
      · exact exec_relocate fuel whenTrue
      · exact exec_relocate fuel whenFalse
  | .whileLoop condition body => by
      rw [relocate, exec, exec, exec_relocate fuel body, repeatWhile_relocate]
  | .breakLoop keyword => by
      rw [relocate, exec, exec]
      rfl

theorem Stmt.execAll_relocate (fuel : Nat) : (body : List Stmt) →
    execAll fuel (relocateAll lines body) = adaptExcept (Stop.relocate lines) (execAll fuel body)
  | [] => by
      rw [relocateAll, execAll]
      rfl
  | statement :: rest => by
      rw [relocateAll, execAll, execAll, adaptExcept_bind, exec_relocate fuel statement]
      congr 1
      funext completion
      cases completion with
      | normal => exact execAll_relocate fuel rest
      | breaking => rfl

end

theorem interpret_relocate (fuel : Nat) (program : List Stmt) :
    interpret fuel (program.map (·.relocate lines)) =
      adaptExcept (Stop.relocate lines) (interpret fuel program) := by
  induction program with
  | nil => rfl
  | cons statement rest inductionHypothesis =>
      rw [List.map_cons, interpret, interpret, adaptExcept_bind, statement.exec_relocate,
        inductionHypothesis]

/-! ## Runs -/

def Failure.relocate (failure : Failure) : Failure :=
  { failure with token := failure.token.relocate lines }

/-- An execution that relocates its errors ends as the execution does, but for the failure. -/
theorem ends_adaptExcept (action : Execution α) (before after : Machine)
    (result : Except Failure α) :
    Execution.Ends (adaptExcept (Stop.relocate lines) action) before result after ↔
      ∃ original, action.Ends before original after ∧
        result = original.mapError (Failure.relocate lines) := by
  simp only [Execution.Ends, Ends, adaptExcept]
  cases action before with
  | ok value left =>
      constructor
      · intro ends
        exact ⟨.ok value, ⟨rfl, ends.2⟩, ends.1⟩
      · intro ends
        obtain ⟨original, ⟨rfl, isAfter⟩, isResult⟩ := ends
        exact ⟨isResult, isAfter⟩
  | error stop left =>
      cases stop with
      | outOfFuel => simp [Stop.relocate, Stop.failure?]
      | error error =>
          constructor
          · intro ends
            obtain ⟨failure, isFailure, rfl, isAfter⟩ := ends
            cases isFailure
            exact ⟨.error error.failure, ⟨_, rfl, rfl, isAfter⟩, rfl⟩
          · intro ends
            obtain ⟨original, ⟨failure, isFailure, rfl, isAfter⟩, rfl⟩ := ends
            cases isFailure
            exact ⟨_, rfl, rfl, isAfter⟩

theorem runs_relocate (program : List Stmt) (before after : Machine)
    (result : Except Failure Unit) :
    Runs (program.map (·.relocate lines)) before result after ↔
      ∃ original, Runs program before original after ∧
        result = original.mapError (Failure.relocate lines) := by
  constructor
  · intro runs
    obtain ⟨fuel, ends⟩ := runs.ends
    rw [interpret_relocate] at ends
    obtain ⟨original, ends, isResult⟩ := (ends_adaptExcept lines _ _ _ _).mp ends
    exact ⟨original, runs_of_ends fuel ends, isResult⟩
  · intro runs
    obtain ⟨original, runs, isResult⟩ := runs
    obtain ⟨fuel, ends⟩ := runs.ends
    apply runs_of_ends fuel
    rw [interpret_relocate]
    exact (ends_adaptExcept lines _ _ _ _).mpr ⟨original, ends, isResult⟩

end BlockScript
