import BlockScript.Run.Evaluation
import BlockScript.Run.Output
import BlockScript.Syntax.Stmt

/-!
# Execution of statements

Execution changes the open scopes and writes output. It ends normally, with a break on its way to
the nearest loop, or at the first runtime error; effects before an error stay.

Loops need not end, so execution carries fuel. Each loop may go round as often as the fuel says, and
a loop that wants to go on after that ends the execution in a way that no program can bring about
otherwise. Whatever a program does, it does with enough fuel.
-/

namespace BlockScript

/-- How a statement ends when it does not fail. A break skips the rest of the enclosing blocks up to
the nearest loop. -/
inductive Completion where
  | normal
  | breaking
  deriving DecidableEq, Repr

/-- Why an execution stops short. -/
inductive Stop where
  | error (error : RuntimeError)
  | outOfFuel
  deriving DecidableEq, Repr

/-- What a program runs on: the open scopes and the output. -/
structure Machine where
  scopes : Scopes
  output : Sink

/-- A machine on which nothing has run yet. -/
def Machine.initial (output : Sink) : Machine :=
  ⟨.initial, output⟩

/-- A computation over a machine that may stop short. -/
abbrev Execution := EStateM Stop Machine

namespace Execution

/-- Fuel that no loop uses up in practice. -/
def ampleFuel : Nat := Nat.pow 2 62

def eval (expr : Expr) : Execution Value
  | ⟨scopes, output⟩ =>
      match expr.eval scopes with
      | .ok value scopes => .ok value ⟨scopes, output⟩
      | .error error scopes => .error (.error error) ⟨scopes, output⟩

def writeLine (line : String) : Execution Unit
  | ⟨scopes, output⟩ => .ok () ⟨scopes, output.writeLine line⟩

/-- Binds a name in the innermost scope. -/
def declare (name : String) (slot : Slot) : Execution Unit
  | ⟨scopes, output⟩ => .ok () ⟨scopes.declare name slot, output⟩

/-- Runs a computation in a scope of its own, which is closed however the computation ends. -/
def inScope (body : Execution α) : Execution α
  | ⟨scopes, output⟩ =>
      match body ⟨scopes.enter, output⟩ with
      | .ok result ⟨scopes, output⟩ => .ok result ⟨scopes.leave, output⟩
      | .error stop ⟨scopes, output⟩ => .error stop ⟨scopes.leave, output⟩

/-- Repeats a body while a condition holds, for at most `fuel` tests of the condition. A break of
the body ends the repetition and goes no further. -/
def repeatWhile (condition : Expr) (body : Execution Completion) :
    (fuel : Nat) → Execution Completion
  | 0 => throw .outOfFuel
  | fuel + 1 => do
      if (← eval condition).isTruthy then
        match ← body with
        | .normal => repeatWhile condition body fuel
        | .breaking => pure .normal
      else
        pure .normal

end Execution

mutual

def Stmt.exec (fuel : Nat) : Stmt → Execution Completion
  | .print value => do
      let result ← Execution.eval value
      Execution.writeLine result.display
      pure .normal
  | .expression value => do
      let _ ← Execution.eval value
      pure .normal
  | .declare name none => do
      Execution.declare name.lexeme .unset
      pure .normal
  | .declare name (some initial) => do
      let value ← Execution.eval initial
      Execution.declare name.lexeme (.holding value)
      pure .normal
  | .block body => Execution.inScope (Stmt.execAll fuel body)
  | .ifThen condition whenTrue => do
      if (← Execution.eval condition).isTruthy then
        whenTrue.exec fuel
      else
        pure .normal
  | .ifElse condition whenTrue whenFalse => do
      if (← Execution.eval condition).isTruthy then
        whenTrue.exec fuel
      else
        whenFalse.exec fuel
  | .whileLoop condition body => Execution.repeatWhile condition (body.exec fuel) fuel
  | .breakLoop _ => pure .breaking

/-- Executes statements in order, up to the first break. -/
def Stmt.execAll (fuel : Nat) : List Stmt → Execution Completion
  | [] => pure .normal
  | statement :: rest => do
      match ← statement.exec fuel with
      | .normal => Stmt.execAll fuel rest
      | .breaking => pure .breaking

end

/-- Runs the statements of a program in order. At the top level there is no loop to leave, so a
break has no effect there. -/
def interpret (fuel : Nat) : List Stmt → Execution Unit
  | [] => pure ()
  | statement :: rest => do
      let _ ← statement.exec fuel
      interpret fuel rest

end BlockScript
