import BlockScript.Value

/-!
# Scopes

A scope binds names to slots. A slot that was declared without a value is known but holds nothing
until the first assignment. Names are compared as they are, without any normalization.
-/

namespace BlockScript

/-- What a name is bound to. -/
inductive Slot where
  | unset
  | holding (value : Value)
  deriving DecidableEq, Repr

/-- A finite map from names to slots, in the order in which the names were first bound. -/
inductive Scope where
  | empty
  | binding (name : String) (slot : Slot) (others : Scope)
  deriving DecidableEq, Repr

namespace Scope

def find? (name : String) : Scope → Option Slot
  | empty => none
  | binding other slot others => if other = name then some slot else others.find? name

/-- Binds a name, in place of any slot that it has. -/
def set (name : String) (slot : Slot) : Scope → Scope
  | empty => binding name slot empty
  | binding other old others =>
      if other = name then binding other slot others else binding other old (others.set name slot)

@[simp] theorem find?_empty (name : String) : empty.find? name = none := rfl

@[simp] theorem find?_set_self (name : String) (slot : Slot) (scope : Scope) :
    (scope.set name slot).find? name = some slot := by
  induction scope with
  | empty => simp [set, find?]
  | binding other old others inductionHypothesis =>
      by_cases same : other = name <;> simp [set, find?, same, inductionHypothesis]

theorem find?_set_of_ne {name query : String} (different : name ≠ query) (slot : Slot)
    (scope : Scope) : (scope.set name slot).find? query = scope.find? query := by
  induction scope with
  | empty => simp [set, find?, different]
  | binding other old others inductionHypothesis =>
      by_cases same : other = name
      · simp [set, find?, same, different]
      · simp [set, find?, same, inductionHypothesis]

end Scope
end BlockScript
