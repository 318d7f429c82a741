import BlockScript.Scope.Stack

/-!
# The nearest binding

Which slot a name has among the open scopes, which scope an assignment changes and which one a
declaration goes to. These are relations: they say what the walk outward finds, not how it goes.
-/

namespace BlockScript.Scopes

variable {name : String} {slot : Slot} {value : Value} {scope : Scope} {scopes outer after : Scopes}

/-- The nearest scope that binds a name gives it this slot. -/
inductive Bound (name : String) (slot : Slot) : Scopes → Prop where
  | global {scope : Scope} (here : scope.find? name = some slot) : Bound name slot (.global scope)
  | inner {scope : Scope} {outer : Scopes} (here : scope.find? name = some slot) :
      Bound name slot (.inner scope outer)
  | outward {scope : Scope} {outer : Scopes} (absent : scope.find? name = none)
      (further : Bound name slot outer) : Bound name slot (.inner scope outer)

/-- Giving a value to a name changes the nearest scope that binds it, and no other. -/
inductive Assigned (name : String) (value : Value) : Scopes → Scopes → Prop where
  | global {scope : Scope} {old : Slot} (here : scope.find? name = some old) :
      Assigned name value (.global scope) (.global (scope.set name (.holding value)))
  | inner {scope : Scope} {outer : Scopes} {old : Slot} (here : scope.find? name = some old) :
      Assigned name value (.inner scope outer) (.inner (scope.set name (.holding value)) outer)
  | outward {scope : Scope} {outer after : Scopes} (absent : scope.find? name = none)
      (further : Assigned name value outer after) :
      Assigned name value (.inner scope outer) (.inner scope after)

/-- A declaration binds a name in the innermost scope, whatever the other scopes bind. -/
inductive Declared (name : String) (slot : Slot) : Scopes → Scopes → Prop where
  | global (scope : Scope) : Declared name slot (.global scope) (.global (scope.set name slot))
  | inner (scope : Scope) (outer : Scopes) :
      Declared name slot (.inner scope outer) (.inner (scope.set name slot) outer)

theorem bound_iff (name : String) (slot : Slot) (scopes : Scopes) :
    Bound name slot scopes ↔ scopes.find? name = some slot := by
  constructor
  · intro bound
    induction bound with
    | global here => exact here
    | inner here => rw [find?, here]
    | outward absent further inductionHypothesis => rw [find?, absent]; exact inductionHypothesis
  · intro found
    induction scopes with
    | global scope => exact .global found
    | inner scope outer inductionHypothesis =>
        rw [find?] at found
        cases here : scope.find? name with
        | some old =>
            rw [here] at found
            exact .inner (here.trans found)
        | none =>
            rw [here] at found
            exact .outward here (inductionHypothesis found)

theorem not_bound_iff (name : String) (scopes : Scopes) :
    (∀ slot, ¬ Bound name slot scopes) ↔ scopes.find? name = none := by
  simp only [bound_iff, Option.eq_none_iff_forall_ne_some, ne_eq]

theorem assigned_iff (name : String) (value : Value) (scopes after : Scopes) :
    Assigned name value scopes after ↔ scopes.assign? name value = some after := by
  constructor
  · intro assigned
    induction assigned with
    | global here => rw [assign?, here]
    | inner here => rw [assign?, here]
    | outward absent further inductionHypothesis =>
        rw [assign?, absent, inductionHypothesis]
        rfl
  · intro success
    induction scopes generalizing after with
    | global scope =>
        rw [assign?] at success
        cases here : scope.find? name with
        | none => rw [here] at success; cases success
        | some old =>
            rw [here] at success
            cases success
            exact .global here
    | inner scope outer inductionHypothesis =>
        rw [assign?] at success
        cases here : scope.find? name with
        | some old =>
            rw [here] at success
            cases success
            exact .inner here
        | none =>
            rw [here] at success
            rcases Option.map_eq_some_iff.mp success with ⟨changed, further, rfl⟩
            exact .outward here (inductionHypothesis changed further)

theorem declared_iff (name : String) (slot : Slot) (scopes after : Scopes) :
    Declared name slot scopes after ↔ scopes.declare name slot = after := by
  constructor
  · intro declared
    cases declared <;> rfl
  · intro equal
    subst equal
    cases scopes with
    | global scope => exact .global scope
    | inner scope outer => exact .inner scope outer

end BlockScript.Scopes
