import BlockScript.Proofs.Resolution.Tree
import BlockScript.Run.Execution

/-!
# Execution of resolved trees

Resolved trees run like syntax trees, but for their variables: those are read and assigned in the
scope of their level directly, whatever the scopes inside it bind.
-/

namespace BlockScript

/-- Gives a value to a name in a scope that binds it. -/
def Scope.assign? (name : String) (value : Value) (scope : Scope) : Option Scope :=
  (scope.find? name).map fun _ => scope.set name (.holding value)

namespace Scopes

def slotAt? (level : Nat) (name : String) : Scopes → Option Slot
  | global scope => scope.find? name
  | inner scope outer =>
      if level = outer.depth + 1 then scope.find? name else outer.slotAt? level name

def assignAt? (level : Nat) (name : String) (value : Value) : Scopes → Option Scopes
  | global scope => (scope.assign? name value).map global
  | inner scope outer =>
      if level = outer.depth + 1 then
        (scope.assign? name value).map (inner · outer)
      else
        (outer.assignAt? level name value).map (inner scope)

end Scopes

namespace Evaluation

/-- The value of the variable that a token names, in the scope of a level. -/
def readAt (level : Nat) (name : Token) : Evaluation Value := do
  match (← get).slotAt? level name.lexeme with
  | some (.holding value) => pure value
  | some .unset => throw ⟨name, .uninitializedVariable⟩
  | none => throw ⟨name, .undefinedVariable⟩

/-- Gives a value to the variable that a token names, in the scope of a level. -/
def assignAt (level : Nat) (name : Token) (value : Value) : Evaluation Unit := do
  match (← get).assignAt? level name.lexeme value with
  | some scopes => set scopes
  | none => throw ⟨name, .undefinedVariable⟩

end Evaluation

def ResolvedExpr.eval : ResolvedExpr → Evaluation Value
  | .literal value => pure value
  | .variable name level => Evaluation.readAt level name
  | .assign name level value => do
      let result ← value.eval
      Evaluation.assignAt level name result
      pure result
  | .unary operator operand => do
      let value ← operand.eval
      Evaluation.blame operator (applyUnary operator.kind value)
  | .binary operator left right => do
      let leftValue ← left.eval
      let rightValue ← right.eval
      Evaluation.blame operator (applyBinary operator.kind leftValue rightValue)
  | .logical operator left right => do
      let leftValue ← left.eval
      match operator.kind with
      | .keyword .orWord => if leftValue.isTruthy then pure leftValue else right.eval
      | .keyword .andWord => if leftValue.isTruthy then right.eval else pure leftValue
      | _ => throw ⟨operator, .unknownOperator⟩
  | .ternary question condition whenTrue whenFalse => do
      match ← condition.eval with
      | .boolean true => whenTrue.eval
      | .boolean false => whenFalse.eval
      | _ => throw ⟨question, .conditionNotBoolean⟩
  | .grouping inner => inner.eval

namespace Execution

/-- Evaluates on the open scopes of a machine. -/
def onScopes (evaluation : Evaluation α) : Execution α
  | ⟨scopes, output⟩ =>
      match evaluation scopes with
      | .ok value scopes => .ok value ⟨scopes, output⟩
      | .error error scopes => .error (.error error) ⟨scopes, output⟩

/-- Repeats a body while a test comes out true, for at most `fuel` tests. -/
def repeatWhen (test : Execution Value) (body : Execution Completion) :
    (fuel : Nat) → Execution Completion
  | 0 => throw .outOfFuel
  | fuel + 1 => do
      if (← test).isTruthy then
        match ← body with
        | .normal => repeatWhen test body fuel
        | .breaking => pure .normal
      else
        pure .normal

theorem eval_eq_onScopes (expr : Expr) : eval expr = onScopes expr.eval := by
  funext machine
  rw [eval, onScopes]
  cases expr.eval machine.scopes <;> rfl

theorem repeatWhile_eq_repeatWhen (condition : Expr) (body : Execution Completion) (fuel : Nat) :
    repeatWhile condition body fuel = repeatWhen (eval condition) body fuel := by
  induction fuel with
  | zero => rfl
  | succ fuel inductionHypothesis =>
      rw [repeatWhile, inductionHypothesis]
      rfl

end Execution

mutual

def ResolvedStmt.exec (fuel : Nat) : ResolvedStmt → Execution Completion
  | .print value => do
      let result ← Execution.onScopes value.eval
      Execution.writeLine result.display
      pure .normal
  | .expression value => do
      let _ ← Execution.onScopes value.eval
      pure .normal
  | .declare name none => do
      Execution.declare name.lexeme .unset
      pure .normal
  | .declare name (some initial) => do
      let value ← Execution.onScopes initial.eval
      Execution.declare name.lexeme (.holding value)
      pure .normal
  | .block body => Execution.inScope (ResolvedStmt.execAll fuel body)
  | .ifThen condition whenTrue => do
      if (← Execution.onScopes condition.eval).isTruthy then
        whenTrue.exec fuel
      else
        pure .normal
  | .ifElse condition whenTrue whenFalse => do
      if (← Execution.onScopes condition.eval).isTruthy then
        whenTrue.exec fuel
      else
        whenFalse.exec fuel
  | .whileLoop condition body =>
      Execution.repeatWhen (Execution.onScopes condition.eval) (body.exec fuel) fuel
  | .breakLoop _ => pure .breaking

/-- Executes resolved statements in order, up to the first break. -/
def ResolvedStmt.execAll (fuel : Nat) : List ResolvedStmt → Execution Completion
  | [] => pure .normal
  | statement :: rest => do
      match ← statement.exec fuel with
      | .normal => ResolvedStmt.execAll fuel rest
      | .breaking => pure .breaking

end

def interpretResolved (fuel : Nat) : List ResolvedStmt → Execution Unit
  | [] => pure ()
  | statement :: rest => do
      let _ ← statement.exec fuel
      interpretResolved fuel rest

end BlockScript
