import BlockScript.Proofs.Resolution.Agreement

/-!
# Open scopes match the text

While a program runs, the scopes above the global one correspond to the blocks around the place that
is being executed: each of them binds exactly the names that its block has declared so far. That is
why the nearest binding of a name is found at the level that resolution gives it.
-/

namespace BlockScript

theorem Scope.isSome_find?_set (name query : String) (slot : Slot) (scope : Scope) :
    ((scope.set name slot).find? query).isSome = (name == query || (scope.find? query).isSome) := by
  by_cases same : name = query
  · subst same
    simp
  · simp [find?_set_of_ne same, same]

namespace Surroundings

/-- The open scopes match what is around a place. Nothing is asked of the global scope, which may
hold what earlier programs have left there. -/
def Fits : Surroundings → Scopes → Prop
  | [], .global _ => True
  | earlier :: around, .inner scope outer =>
      (∀ name, (scope.find? name).isSome = earlier.any (·.declares name)) ∧ Fits around outer
  | [], .inner _ _ => False
  | _ :: _, .global _ => False

variable {around : Surroundings} {scopes after : Scopes}

theorem level_le_length (name : String) (around : Surroundings) :
    around.level name ≤ around.length := by
  induction around with
  | nil => exact Nat.le_refl 0
  | cons earlier around inductionHypothesis =>
      rw [level, List.length_cons]
      split
      · exact Nat.le_refl _
      · exact Nat.le_succ_of_le inductionHypothesis

theorem level_ne_length_succ (name : String) (around : Surroundings) :
    around.level name ≠ around.length + 1 :=
  Nat.ne_of_lt (Nat.lt_succ_of_le (level_le_length name around))

/-- Outside any block only the global scope is open. -/
theorem Fits.eq_global (fits : Fits [] scopes) : ∃ scope, scopes = .global scope := by
  cases scopes with
  | global scope => exact ⟨scope, rfl⟩
  | inner scope outer => cases fits

/-- Inside a block there is a scope for it, which binds what the block has declared. -/
theorem Fits.eq_inner {earlier : List Stmt} (fits : Fits (earlier :: around) scopes) :
    ∃ scope outer, scopes = .inner scope outer ∧
      (∀ name, (scope.find? name).isSome = earlier.any (·.declares name)) ∧ Fits around outer := by
  cases scopes with
  | global scope => cases fits
  | inner scope outer => exact ⟨scope, outer, rfl, fits.1, fits.2⟩

theorem Fits.depth_eq (fits : Fits around scopes) : scopes.depth = around.length := by
  induction around generalizing scopes with
  | nil =>
      rcases fits.eq_global with ⟨scope, rfl⟩
      rfl
  | cons earlier around inductionHypothesis =>
      rcases fits.eq_inner with ⟨scope, outer, rfl, _, outerFits⟩
      rw [Scopes.depth, List.length_cons, inductionHypothesis outerFits]

theorem Fits.slotAt?_level (fits : Fits around scopes) (name : String) :
    scopes.slotAt? (around.level name) name = scopes.find? name := by
  induction around generalizing scopes with
  | nil =>
      rcases fits.eq_global with ⟨scope, rfl⟩
      rfl
  | cons earlier around inductionHypothesis =>
      rcases fits.eq_inner with ⟨scope, outer, rfl, binds, outerFits⟩
      rw [Scopes.slotAt?, Scopes.find?, outerFits.depth_eq, level]
      cases declared : earlier.any (·.declares name) with
      | true =>
          rcases Option.isSome_iff_exists.mp ((binds name).trans declared) with ⟨slot, found⟩
          simp only [if_true, found]
      | false =>
          have absent := Option.isSome_eq_false_iff.mp ((binds name).trans declared)
          rw [Option.isNone_iff_eq_none] at absent
          simp only [Bool.false_eq_true, if_false, level_ne_length_succ, absent]
          exact inductionHypothesis outerFits

theorem Fits.assignAt?_level (fits : Fits around scopes) (name : String) (value : Value) :
    scopes.assignAt? (around.level name) name value = scopes.assign? name value := by
  induction around generalizing scopes with
  | nil =>
      rcases fits.eq_global with ⟨scope, rfl⟩
      rw [Scopes.assignAt?, Scopes.assign?, Scope.assign?]
      cases scope.find? name <;> rfl
  | cons earlier around inductionHypothesis =>
      rcases fits.eq_inner with ⟨scope, outer, rfl, binds, outerFits⟩
      rw [Scopes.assignAt?, Scopes.assign?, Scope.assign?, outerFits.depth_eq, level]
      cases declared : earlier.any (·.declares name) with
      | true =>
          rcases Option.isSome_iff_exists.mp ((binds name).trans declared) with ⟨slot, found⟩
          simp only [if_true, found]
          rfl
      | false =>
          have absent := Option.isSome_eq_false_iff.mp ((binds name).trans declared)
          rw [Option.isNone_iff_eq_none] at absent
          simp only [Bool.false_eq_true, if_false, level_ne_length_succ, absent]
          rw [inductionHypothesis outerFits]

/-- Assignment binds no new name. -/
theorem Fits.assign? (fits : Fits around scopes) {name : String} {value : Value}
    (success : scopes.assign? name value = some after) : Fits around after := by
  induction around generalizing scopes after with
  | nil =>
      rcases fits.eq_global with ⟨scope, rfl⟩
      rw [Scopes.assign?] at success
      cases found : scope.find? name with
      | none =>
          rw [found] at success
          cases success
      | some old =>
          rw [found] at success
          cases success
          exact True.intro
  | cons earlier around inductionHypothesis =>
      rcases fits.eq_inner with ⟨scope, outer, rfl, binds, outerFits⟩
      rw [Scopes.assign?] at success
      cases found : scope.find? name with
      | some old =>
          rw [found] at success
          cases success
          constructor
          · intro query
            rw [Scope.isSome_find?_set, ← binds query]
            by_cases same : name = query
            · subst same
              simp [found]
            · simp [same]
          · exact outerFits
      | none =>
          rw [found] at success
          rcases Option.map_eq_some_iff.mp success with ⟨changed, further, rfl⟩
          exact ⟨binds, inductionHypothesis outerFits further⟩

/-- A block begins in a scope that binds nothing. -/
theorem Fits.enter (fits : Fits around scopes) : Fits ([] :: around) scopes.enter :=
  ⟨fun _ => rfl, fits⟩

theorem Fits.leave {earlier : List Stmt} (fits : Fits (earlier :: around) scopes) :
    Fits around scopes.leave := by
  rcases fits.eq_inner with ⟨scope, outer, rfl, _, outerFits⟩
  exact outerFits

theorem Fits.declare (fits : Fits around scopes) (name : Token) (initial : Option Expr)
    (slot : Slot) :
    Fits (around.past (.declare name initial)) (scopes.declare name.lexeme slot) := by
  cases around with
  | nil =>
      rcases fits.eq_global with ⟨scope, rfl⟩
      exact True.intro
  | cons earlier around =>
      rcases fits.eq_inner with ⟨scope, outer, rfl, binds, outerFits⟩
      constructor
      · intro query
        rw [Scope.isSome_find?_set, binds query]
        simp [Stmt.declares, Bool.or_comm]
      · exact outerFits

/-- A statement that is no declaration leaves the bound names as they are. -/
theorem fits_past_iff {statement : Stmt} (noDeclaration : ∀ name, statement.declares name = false) :
    Fits (around.past statement) scopes ↔ Fits around scopes := by
  cases around with
  | nil => exact Iff.rfl
  | cons earlier around =>
      cases scopes with
      | global scope => exact Iff.rfl
      | inner scope outer => simp [past, Fits, noDeclaration]

end Surroundings

end BlockScript
