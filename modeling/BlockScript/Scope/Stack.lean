import BlockScript.Scope.Basic

/-!
# Stacks of scopes

Blocks nest, and so do their scopes. A stack has the global scope at its foot, which the type keeps
from ever being closed. Names are looked up from the innermost scope outward.
-/

namespace BlockScript

/-- The scopes that are open, innermost first. -/
inductive Scopes where
  | global (scope : Scope)
  | inner (scope : Scope) (outer : Scopes)
  deriving DecidableEq, Repr

namespace Scopes

/-- The stack before anything has been declared. -/
def initial : Scopes :=
  global .empty

/-- The number of scopes above the global one. -/
def depth : Scopes → Nat
  | global _ => 0
  | inner _ outer => outer.depth + 1

def enter (scopes : Scopes) : Scopes :=
  inner .empty scopes

/-- Closes the innermost scope. The global scope stays open. -/
def leave : Scopes → Scopes
  | global scope => global scope
  | inner _ outer => outer

/-- Binds a name in the innermost scope. -/
def declare (name : String) (slot : Slot) : Scopes → Scopes
  | global scope => global (scope.set name slot)
  | inner scope outer => inner (scope.set name slot) outer

/-- The slot of a name in the nearest scope that binds it. -/
def find? (name : String) : Scopes → Option Slot
  | global scope => scope.find? name
  | inner scope outer =>
      match scope.find? name with
      | some slot => some slot
      | none => outer.find? name

/-- Gives a value to a name in the nearest scope that binds it. -/
def assign? (name : String) (value : Value) : Scopes → Option Scopes
  | global scope =>
      match scope.find? name with
      | some _ => some (global (scope.set name (.holding value)))
      | none => none
  | inner scope outer =>
      match scope.find? name with
      | some _ => some (inner (scope.set name (.holding value)) outer)
      | none => (outer.assign? name value).map (inner scope)

@[simp] theorem depth_enter (scopes : Scopes) : scopes.enter.depth = scopes.depth + 1 := rfl

@[simp] theorem leave_enter (scopes : Scopes) : scopes.enter.leave = scopes := rfl

@[simp] theorem depth_leave (scopes : Scopes) : scopes.leave.depth = scopes.depth - 1 := by
  cases scopes <;> rfl

@[simp] theorem depth_declare (name : String) (slot : Slot) (scopes : Scopes) :
    (scopes.declare name slot).depth = scopes.depth := by
  cases scopes <;> rfl

theorem isSome_assign? (name : String) (value : Value) (scopes : Scopes) :
    (scopes.assign? name value).isSome = (scopes.find? name).isSome := by
  induction scopes with
  | global scope => cases found : scope.find? name <;> simp [assign?, find?, found]
  | inner scope outer inductionHypothesis =>
      cases found : scope.find? name <;> simp [assign?, find?, found, inductionHypothesis]

theorem depth_assign? {name : String} {value : Value} {scopes assigned : Scopes}
    (success : scopes.assign? name value = some assigned) : assigned.depth = scopes.depth := by
  induction scopes generalizing assigned with
  | global scope =>
      unfold assign? at success
      split at success <;> cases success
      rfl
  | inner scope outer inductionHypothesis =>
      unfold assign? at success
      split at success
      · cases success
        rfl
      · obtain ⟨changed, found, rfl⟩ := Option.map_eq_some_iff.mp success
        exact congrArg (· + 1) (inductionHypothesis found)

end Scopes
end BlockScript
