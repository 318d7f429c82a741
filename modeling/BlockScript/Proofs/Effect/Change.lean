import BlockScript.Proofs.Resolution.Execution

/-!
# How bindings change

A binding changes in two ways only: a declaration binds a name in the innermost scope, and an
assignment gives a value to a name that some scope binds already. `Scopes.Changes` says that nothing
else has happened, scope by scope and name by name. It is told in terms of the names that were free
to be assigned to and of those that were free to be declared.
-/

namespace BlockScript

/-! ## The names in the text -/

/-- The names that an expression assigns to, wherever in it the assignments stand. -/
def Expr.targets : Expr → List String
  | literal _ | .variable _ => []
  | assign name value => name.lexeme :: value.targets
  | unary _ operand => operand.targets
  | binary _ left right | logical _ left right => left.targets ++ right.targets
  | ternary _ condition whenTrue whenFalse =>
      condition.targets ++ (whenTrue.targets ++ whenFalse.targets)
  | grouping inner => inner.targets

mutual

/-- The names that a statement assigns to, wherever in it the assignments stand. -/
def Stmt.targets : Stmt → List String
  | print value | expression value => value.targets
  | declare _ none => []
  | declare _ (some initial) => initial.targets
  | block body => targetsOf body
  | ifThen condition whenTrue => condition.targets ++ whenTrue.targets
  | ifElse condition whenTrue whenFalse =>
      condition.targets ++ (whenTrue.targets ++ whenFalse.targets)
  | whileLoop condition body => condition.targets ++ body.targets
  | breakLoop _ => []

def Stmt.targetsOf : List Stmt → List String
  | [] => []
  | statement :: rest => statement.targets ++ targetsOf rest

end

/-- The names of the declarations of a statement that stand in no block of it. -/
def Stmt.exposed : Stmt → List String
  | declare name _ => [name.lexeme]
  | ifThen _ whenTrue => whenTrue.exposed
  | ifElse _ whenTrue whenFalse => whenTrue.exposed ++ whenFalse.exposed
  | whileLoop _ body => body.exposed
  | block _ | print _ | expression _ | breakLoop _ => []

/-! ## One binding -/

/-- How the slot of a name in one scope can change if the name may be assigned to and if it may be
declared. A declaration leaves any slot that it likes, an assignment a value in place of a slot. -/
inductive Slot.Changes (mayAssign mayDeclare : Prop) : Option Slot → Option Slot → Prop where
  | same (slot? : Option Slot) : Changes mayAssign mayDeclare slot? slot?
  | assigned (allowed : mayAssign) (old : Slot) (value : Value) :
      Changes mayAssign mayDeclare (some old) (some (.holding value))
  | declared (allowed : mayDeclare) (old? : Option Slot) (slot : Slot) :
      Changes mayAssign mayDeclare old? (some slot)

namespace Slot.Changes

variable {mayAssign mayDeclare : Prop} {before between after : Option Slot}

theorem trans (first : Changes mayAssign mayDeclare before between)
    (second : Changes mayAssign mayDeclare between after) :
    Changes mayAssign mayDeclare before after := by
  cases second with
  | same => exact first
  | declared allowed _ slot => exact .declared allowed before slot
  | assigned allowed old value =>
      cases first with
      | same => exact .assigned allowed old value
      | assigned _ older _ => exact .assigned allowed older value
      | declared declarable _ _ => exact .declared declarable before (.holding value)

theorem mono {wider widerDeclare : Prop} (changes : Changes mayAssign mayDeclare before after)
    (assigns : mayAssign → wider) (declares : mayDeclare → widerDeclare) :
    Changes wider widerDeclare before after := by
  cases changes with
  | same => exact .same before
  | assigned allowed old value => exact .assigned (assigns allowed) old value
  | declared allowed _ slot => exact .declared (declares allowed) before slot

theorem isSome (changes : Changes mayAssign mayDeclare before after)
    (bound : before.isSome = true) : after.isSome = true := by
  cases changes with
  | same => exact bound
  | assigned | declared => rfl

theorem isSome_or_declared (changes : Changes mayAssign mayDeclare before after)
    (bound : after.isSome = true) : before.isSome = true ∨ mayDeclare := by
  cases changes with
  | same => exact .inl bound
  | assigned => exact .inl rfl
  | declared allowed => exact .inr allowed

theorem isSome_eq (changes : Changes mayAssign mayDeclare before after) (settled : ¬ mayDeclare) :
    after.isSome = before.isSome := by
  cases changes with
  | same | assigned => rfl
  | declared allowed => exact absurd allowed settled

/-- Where nothing may be declared, a value is only ever replaced by a value. -/
theorem holding {value : Value} (changes : Changes mayAssign mayDeclare before after)
    (settled : ¬ mayDeclare) (held : before = some (.holding value)) :
    ∃ current, after = some (.holding current) := by
  cases changes with
  | same => exact ⟨value, held⟩
  | assigned _ _ current => exact ⟨current, rfl⟩
  | declared allowed => exact absurd allowed settled

end Slot.Changes

/-- Setting the slot of a name is a declaration of it. -/
theorem Scope.changes_set (name query : String) (slot : Slot) (scope : Scope) :
    Slot.Changes False (query = name) (scope.find? query) ((scope.set name slot).find? query) := by
  by_cases same : query = name
  · subst same
    rw [find?_set_self]
    exact .declared rfl _ slot
  · rw [find?_set_of_ne (Ne.symm same)]
    exact .same _

/-- Setting the slot of a bound name to a value is an assignment to it. -/
theorem Scope.changes_set_holding {name : String} {old : Slot} {scope : Scope}
    (found : scope.find? name = some old) (query : String) (value : Value) :
    Slot.Changes (query = name) False (scope.find? query)
      ((scope.set name (.holding value)).find? query) := by
  by_cases same : query = name
  · subst same
    rw [find?_set_self, found]
    exact .assigned rfl old value
  · rw [find?_set_of_ne (Ne.symm same)]
    exact .same _

/-! ## Levels -/

namespace Scopes

variable {name : String} {value : Value} {scopes after : Scopes}

/-- Scopes further out keep their levels when a scope is opened inside of them. -/
theorem slotAt?_inner_of_ne {level : Nat} (scope : Scope) {outer : Scopes} (query : String)
    (outward : level ≠ outer.depth + 1) :
    (inner scope outer).slotAt? level query = outer.slotAt? level query := by
  simp [slotAt?, outward]

/-- An assignment gives a value to its name in a scope that binds it, and does nothing else. -/
theorem changes_assign? (assigned : scopes.assign? name value = some after) (level : Nat)
    (query : String) :
    Slot.Changes (query = name) False (scopes.slotAt? level query) (after.slotAt? level query) := by
  induction scopes generalizing after with
  | global scope =>
      cases found : scope.find? name with
      | none => simp [assign?, found] at assigned
      | some old =>
          simp only [assign?, found, Option.some.injEq] at assigned
          subst assigned
          exact Scope.changes_set_holding found query value
  | inner scope outer inductionHypothesis =>
      cases found : scope.find? name with
      | none =>
          simp only [assign?, found, Option.map_eq_some_iff] at assigned
          obtain ⟨changed, further, rfl⟩ := assigned
          simp only [slotAt?, depth_assign? further]
          split
          · exact .same _
          · exact inductionHypothesis further
      | some old =>
          simp only [assign?, found, Option.some.injEq] at assigned
          subst assigned
          simp only [slotAt?]
          split
          · exact Scope.changes_set_holding found query value
          · exact .same _

/-- A declaration binds its name in the innermost scope, and does nothing else. -/
theorem changes_declare (name : String) (slot : Slot) (scopes : Scopes) {level : Nat}
    (existing : level ≤ scopes.depth) (query : String) :
    Slot.Changes False (level = scopes.depth ∧ query = name) (scopes.slotAt? level query)
      ((scopes.declare name slot).slotAt? level query) := by
  cases scopes with
  | global scope =>
      have isGlobal : level = 0 := Nat.le_zero.mp existing
      exact (scope.changes_set name query slot).mono id fun same => ⟨isGlobal, same⟩
  | inner scope outer =>
      simp only [declare, slotAt?]
      split
      · next innermost =>
          exact (scope.changes_set name query slot).mono id fun same => ⟨innermost, same⟩
      · exact .same _

/-- Below a scope of its own, nothing can be seen of entering the scope. -/
theorem slotAt?_enter {level : Nat} (existing : level ≤ scopes.depth) (query : String) :
    scopes.enter.slotAt? level query = scopes.slotAt? level query :=
  slotAt?_inner_of_ne _ query (by omega)

/-- Nor can anything be seen there of leaving it. -/
theorem slotAt?_leave {level : Nat} (outward : level < scopes.depth) (query : String) :
    scopes.leave.slotAt? level query = scopes.slotAt? level query := by
  cases scopes with
  | global scope => rfl
  | inner scope outer =>
      have notInner : level ≠ outer.depth + 1 := Nat.ne_of_lt outward
      exact (slotAt?_inner_of_ne scope query notInner).symm

/-- What can have happened to the open scopes if these names may be assigned to and these may be
declared in the innermost one. -/
structure Changes (mayAssign mayDeclare : String → Prop) (before after : Scopes) : Prop where
  depth_eq : after.depth = before.depth
  slots : ∀ level, level ≤ before.depth → ∀ name,
    Slot.Changes (mayAssign name) (level = before.depth ∧ mayDeclare name)
      (before.slotAt? level name) (after.slotAt? level name)

namespace Changes

variable {mayAssign mayDeclare : String → Prop} {before between : Scopes}

theorem refl (scopes : Scopes) : Changes mayAssign mayDeclare scopes scopes :=
  ⟨rfl, fun _ _ _ => .same _⟩

theorem trans (first : Changes mayAssign mayDeclare before between)
    (second : Changes mayAssign mayDeclare between after) :
    Changes mayAssign mayDeclare before after where
  depth_eq := second.depth_eq.trans first.depth_eq
  slots level existing name := by
    have later := second.slots level (by rw [first.depth_eq]; exact existing) name
    rw [first.depth_eq] at later
    exact (first.slots level existing name).trans later

theorem assign? (assigned : scopes.assign? name value = some after) (allowed : mayAssign name) :
    Changes mayAssign mayDeclare scopes after where
  depth_eq := depth_assign? assigned
  slots level _ query :=
    (changes_assign? assigned level query).mono (fun same => same ▸ allowed) False.elim

theorem declare (scopes : Scopes) (slot : Slot) (allowed : mayDeclare name) :
    Changes mayAssign mayDeclare scopes (scopes.declare name slot) where
  depth_eq := depth_declare name slot scopes
  slots _ existing query :=
    (changes_declare name slot scopes existing query).mono False.elim
      fun innermost => ⟨innermost.1, innermost.2 ▸ allowed⟩

/-- Whatever is declared in a scope of its own is gone when the scope is left. -/
theorem inScope {mayDeclareInside : String → Prop}
    (inside : Changes mayAssign mayDeclareInside before.enter after) :
    Changes mayAssign mayDeclare before after.leave where
  depth_eq := by simp [inside.depth_eq]
  slots level existing name := by
    have deep : after.depth = before.depth + 1 := inside.depth_eq
    have change := inside.slots level (Nat.le_succ_of_le existing) name
    have outward : level < after.depth := by omega
    rw [slotAt?_enter existing, ← slotAt?_leave outward] at change
    -- The level of the scope that was left is none of those that are still open.
    have notInside : level ≠ before.enter.depth := Nat.ne_of_lt (Nat.lt_succ_of_le existing)
    exact change.mono id fun innermost => absurd innermost.1 notInside

end Changes

end Scopes

end BlockScript
