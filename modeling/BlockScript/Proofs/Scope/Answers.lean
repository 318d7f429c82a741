import BlockScript.Proofs.Scope.Past
import BlockScript.Proofs.Semantics.Evaluation

/-!
# What the open scopes answer

The scopes are a stack of maps that the operations change one after another. After any operations
the stack holds what was decided by them, in each open scope and about each name. So what it
answers when a name is read or assigned to can be told from the operations.
-/

namespace BlockScript.Scopes.Past

variable {past : Past} {scope : Nat} {name : String}

/-! ## What the past tells -/

/-- The slots of the scopes are what was decided about the open scopes. -/
def Tells (past : Past) (scopes : Scopes) : Prop :=
  ∀ name, scopes.slots name = (opened past).map fun scope => decided? scope name past

namespace Tells

variable {scopes : Scopes}

/-- The slot that is found is what was decided about the scope that answers for the name. -/
theorem find?_eq (tells : Tells past scopes) (name : String) :
    scopes.find? name = (holder? name past).bind fun scope => decided? scope name past := by
  rw [holder?_eq_find?]
  exact find?_of_slots (tells name)

theorem assign?_eq_none (tells : Tells past scopes) (unknown : holder? name past = none)
    (value : Value) : scopes.assign? name value = none := by
  rw [holder?_eq_find?] at unknown
  exact assign?_eq_none_of_slots (tells name) unknown value

/-- The scope that answers for a name gets the value that is given to the name, and all other slots
stay what they are. -/
theorem assign? (tells : Tells past scopes) (isHolder : holder? name past = some scope)
    (value : Value) :
    ∃ changed, scopes.assign? name value = some changed ∧
      ∀ query, changed.slots query = (opened past).map fun other =>
        if query = name ∧ other = scope then some (.holding value)
        else decided? other query past := by
  rw [holder?_eq_find?] at isHolder
  obtain ⟨changed, assigned, replaced, kept⟩ :=
    assign?_of_slots (nodup_opened past) (tells name) isHolder value
  refine ⟨changed, assigned, fun query => ?_⟩
  by_cases isName : query = name
  · subst isName
    simp only [true_and]
    exact replaced
  · simp only [isName, false_and, if_false]
    rw [kept query (Ne.symm isName)]
    exact tells query

theorem enter (tells : Tells past scopes) : Tells (.enter :: past) scopes.enter := by
  intro name
  have unknown : decided? (past.length + 1) name past = none :=
    decided?_eq_none_of_lt (Nat.lt_succ_self _)
  rw [slots_enter, tells name, ← unknown]
  rfl

theorem leave (tells : Tells past scopes) : Tells (.leave :: past) scopes.leave := by
  intro name
  rw [slots_leave, tells name, ← map_dropInner]
  rfl

/-- A declaration decides about the innermost scope, which is none of the others. -/
theorem declare (tells : Tells past scopes) (name : String) (slot : Slot) :
    Tells (.declare name slot :: past) (scopes.declare name slot) := by
  intro query
  have sameOpened : opened (.declare name slot :: past) = opened past := rfl
  obtain ⟨others, isOpened⟩ := exists_opened_eq_cons past
  simp only [decided?_declare]
  rw [sameOpened]
  by_cases isQuery : name = query
  · subst isQuery
    rw [slots_declare_self, tells name, isOpened]
    simp only [List.map_cons, List.tail_cons, true_and, if_true, List.cons.injEq]
    apply List.map_congr_left
    intro other isOther
    have distinct := nodup_opened past
    rw [isOpened, List.nodup_cons] at distinct
    have notInnermost : innermost past ≠ other := fun same => distinct.1 (same ▸ isOther)
    rw [if_neg notInnermost]
  · rw [slots_declare_of_ne isQuery, tells query]
    simp only [isQuery, false_and, if_false]

/-- An assignment that succeeds decides about the scope that answers for its name. One that fails
decides nothing. -/
theorem perform_assign (tells : Tells past scopes) (name : Token) (value : Value) :
    Tells (.assign name value :: past) ((Operation.assign name value).perform scopes) := by
  intro query
  have sameOpened : opened (.assign name value :: past) = opened past := rfl
  simp only [decided?_assign]
  rw [sameOpened, Operation.perform]
  cases answers : holder? name.lexeme past with
  | none =>
      rw [Evaluation.assign_of_none (tells.assign?_eq_none answers value)]
      have undecided (other : Nat) :
          ¬ (name.lexeme = query ∧ holder? query past = some other) := by
        rintro ⟨rfl, isHolder⟩
        cases answers.symm.trans isHolder
      simp only [undecided, if_false]
      exact tells query
  | some holder =>
      obtain ⟨changed, assigned, replaced⟩ := tells.assign? answers value
      rw [Evaluation.assign_of_some assigned]
      refine (replaced query).trans (List.map_congr_left fun other _ => ?_)
      have sameCases : query = name.lexeme ∧ other = holder ↔
          name.lexeme = query ∧ holder? query past = some other := by
        constructor
        · rintro ⟨rfl, rfl⟩
          exact ⟨rfl, answers⟩
        · rintro ⟨rfl, isHolder⟩
          exact ⟨rfl, Option.some.inj (isHolder.symm.trans answers)⟩
      simp only [sameCases]

/-- Each operation changes the slots as it changes what was decided. -/
theorem perform (tells : Tells past scopes) (operation : Operation) :
    Tells (operation :: past) (operation.perform scopes) := by
  cases operation with
  | enter => exact tells.enter
  | leave => exact tells.leave
  | declare name slot => exact tells.declare name slot
  | assign name value => exact tells.perform_assign name value

end Tells

theorem tells_after (past : Past) : Tells past (after past) := by
  induction past with
  | nil => exact fun _ => rfl
  | cons operation past inductionHypothesis => exact inductionHypothesis.perform operation

/-! ## Answers -/

/-- What reading a name ends in when its slot is known. -/
def readResult (name : Token) : Slot → Except Failure Value
  | .holding value => .ok value
  | .unset =>
      .error ⟨name, "Cannot access uninitialized variable '" ++ name.lexeme ++ "'."⟩

/-- A name that no open scope answers for can be neither read nor assigned to, and nothing comes of
the attempt. -/
structure Unknown (past : Past) (name : Token) : Prop where
  read : (Evaluation.read name).Ends (after past)
    (.error ⟨name, "Undefined variable '" ++ name.lexeme ++ "'."⟩) (after past)
  assign : ∀ value, (Evaluation.assign name value).Ends (after past)
    (.error ⟨name, "Undefined variable '" ++ name.lexeme ++ "'."⟩) (after past)

/-- A name that a scope answers for stands for what was decided last in this scope. An assignment to
the name gives the scope the value, and changes no other slot of the name or of another one. -/
structure Known (past : Past) (name : Token) (scope : Nat) : Prop where
  read : ∃ slot, decided? scope name.lexeme past = some slot ∧
    (Evaluation.read name).Ends (after past) (readResult name slot) (after past)
  assign : ∀ value, ∃ changed, (Evaluation.assign name value).Ends (after past) (.ok ()) changed ∧
    ∀ query, changed.slots query = (opened past).map fun other =>
      if query = name.lexeme ∧ other = scope then some (.holding value)
      else decided? other query past

theorem unknown_of_holder? {name : Token} (unknown : holder? name.lexeme past = none) :
    Unknown past name where
  read := by
    have notFound := (tells_after past).find?_eq name.lexeme
    rw [unknown, Option.bind_none] at notFound
    exact ends_of_error (Evaluation.read_of_none notFound) rfl
  assign value := by
    have notAssigned := (tells_after past).assign?_eq_none unknown value
    exact ends_of_error (Evaluation.assign_of_none notAssigned) rfl

theorem known_of_holder? {name : Token} (isHolder : holder? name.lexeme past = some scope) :
    Known past name scope where
  read := by
    have found := (tells_after past).find?_eq name.lexeme
    rw [isHolder, Option.bind_some] at found
    have isDecided := isSome_decided? scope name.lexeme past
    rw [(mem_opened_and_declares isHolder).2] at isDecided
    obtain ⟨slot, decided⟩ := Option.isSome_iff_exists.mp isDecided
    rw [decided] at found
    refine ⟨slot, decided, ?_⟩
    cases slot with
    | holding value => exact ends_of_ok (Evaluation.read_of_holding found)
    | unset => exact ends_of_error (Evaluation.read_of_unset found) rfl
  assign value := by
    obtain ⟨changed, assigned, slots⟩ := (tells_after past).assign? isHolder value
    exact ⟨changed, ends_of_ok (Evaluation.assign_of_some assigned), slots⟩

/-- All that the scopes answer can be told from the operations that led to them. The open scopes are
the global one and those that were not left since they were entered, and they are as many as the
scopes are deep. Each of them has just the slots that were decided in it. A name that no open scope
answers for is undefined, and any other name stands for what was decided last in the innermost open
scope that it was declared in. -/
theorem answers_ofOperations (past : Past) :
    ((opened past).length = (after past).depth + 1 ∧ (opened past).Pairwise (· > ·) ∧
      0 ∈ opened past ∧
      ∀ later earlier : Past,
        earlier.length + 1 ∈ opened (later ++ .enter :: earlier) ↔ StaysOpen later) ∧
    (∀ name, (after past).slots name = (opened past).map fun scope => decided? scope name past) ∧
    ∀ name : Token,
      match holder? name.lexeme past with
      | none => Unknown past name
      | some scope => Known past name scope := by
  have tells := tells_after past
  refine ⟨⟨?_, pairwise_opened past, zero_mem_opened past, mem_opened_iff_staysOpen⟩, tells, ?_⟩
  · rw [← length_slots "" (after past), tells, List.length_map]
  · intro name
    split
    · next unknown => exact unknown_of_holder? unknown
    · next isHolder => exact known_of_holder? isHolder

/-- A declaration is gone with its scope. The next scope that is entered does not have it, and so an
assignment there is one to the global scope, which outlasts being left. -/
example :
    let past : Past := [.leave, .leave, .assign ⟨.identifier, "a", none, 1⟩ (.boolean true), .enter,
      .leave, .declare "a" .unset, .enter, .declare "a" (.holding .nil)]
    opened past = [0] ∧ holder? "a" past = some 0 ∧
      decided? 0 "a" past = some (.holding (.boolean true)) := by
  decide

end BlockScript.Scopes.Past
