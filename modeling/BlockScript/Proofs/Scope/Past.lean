import BlockScript.Proofs.Scope.Slots
import BlockScript.Run.Evaluation

/-!
# Scopes and their past

Scopes are entered and left, and names are declared and assigned in them. What a name stands for is
told here from these operations alone. The innermost open scope that the name was declared in
answers for it, with the latest of what was declared for the name in that scope and of what was
assigned to the name while that scope answered for it. No scopes are run to tell this.
-/

namespace BlockScript.Scopes

/-- What can be done with the open scopes. -/
inductive Operation where
  | enter
  | leave
  | declare (name : String) (slot : Slot)
  | assign (name : Token) (value : Value)
  deriving DecidableEq, Repr

def Operation.perform : Operation → Scopes → Scopes
  | enter, scopes => scopes.enter
  | leave, scopes => scopes.leave
  | declare name slot, scopes => scopes.declare name slot
  | assign name value, scopes =>
      match Evaluation.assign name value scopes with
      | .ok _ changed => changed
      | .error _ unchanged => unchanged

/-- The operations that have been done, the latest one first. -/
abbrev Past := List Operation

def after : Past → Scopes
  | [] => initial
  | operation :: past => operation.perform (after past)

/-! ## Answers from the past -/

namespace Past

/-- The scopes that are open, innermost first. A scope goes by the number of operations up to the
one that has entered it, and the global scope goes by zero. -/
def opened : Past → List Nat
  | [] => [0]
  | .enter :: past => (past.length + 1) :: opened past
  | .leave :: past => dropInner (opened past)
  | .declare _ _ :: past | .assign _ _ :: past => opened past

def innermost (past : Past) : Nat :=
  (opened past).headD 0

def declares (scope : Nat) (name : String) : Past → Bool
  | [] => false
  | .declare other _ :: past =>
      (other = name && innermost past = scope) || declares scope name past
  | .enter :: past | .leave :: past | .assign _ _ :: past => declares scope name past

/-- The scope that answers for a name: the innermost open one that the name was declared in. -/
def holder? (name : String) (past : Past) : Option Nat :=
  (opened past).find? fun scope => declares scope name past

/-- What an operation decides about a name in a scope, if anything. A declaration decides in the
innermost scope, and an assignment in the scope that answers for its name. -/
def decision? (scope : Nat) (name : String) (past : Past) : Operation → Option Slot
  | .declare other slot => if other = name ∧ innermost past = scope then some slot else none
  | .assign other value =>
      if other.lexeme = name ∧ holder? name past = some scope then some (.holding value) else none
  | .enter | .leave => none

/-- The latest decision about a name in a scope. -/
def decided? (scope : Nat) (name : String) : Past → Option Slot
  | [] => none
  | operation :: past => (decision? scope name past operation).or (decided? scope name past)

/-- At no point have more scopes been left than entered. A scope that is open before stays open. -/
def StaysOpen (past : Past) : Prop :=
  ∀ part : Past, part <:+ past → part.count .leave ≤ part.count .enter

/-! ## Scopes that are open -/

variable {past : Past} {scope : Nat} {name : String}

/-- Scopes go by how many operations there have been, and so by no more than there are. -/
theorem le_length_of_mem_opened (isOpen : scope ∈ opened past) : scope ≤ past.length := by
  induction past with
  | nil => simpa [opened] using isOpen
  | cons operation past inductionHypothesis =>
      cases operation with
      | enter =>
          rcases List.mem_cons.mp isOpen with rfl | isOpen
          · exact Nat.le_refl _
          · exact Nat.le_succ_of_le (inductionHypothesis isOpen)
      | leave =>
          exact Nat.le_succ_of_le (inductionHypothesis ((dropInner_sublist _).subset isOpen))
      | declare _ _ | assign _ _ => exact Nat.le_succ_of_le (inductionHypothesis isOpen)

/-- A scope further inside was entered later. -/
theorem pairwise_opened (past : Past) : (opened past).Pairwise (· > ·) := by
  induction past with
  | nil => exact List.pairwise_singleton _ _
  | cons operation past inductionHypothesis =>
      cases operation with
      | enter =>
          exact List.pairwise_cons.mpr
            ⟨fun _ isOpen => Nat.lt_succ_of_le (le_length_of_mem_opened isOpen),
              inductionHypothesis⟩
      | leave => exact inductionHypothesis.sublist (dropInner_sublist _)
      | declare _ _ | assign _ _ => exact inductionHypothesis

theorem nodup_opened (past : Past) : (opened past).Nodup :=
  (pairwise_opened past).imp Nat.ne_of_gt

/-- The global scope is never left. -/
theorem exists_opened_eq_append (past : Past) : ∃ inner, opened past = inner ++ [0] := by
  induction past with
  | nil => exact ⟨[], rfl⟩
  | cons operation past inductionHypothesis =>
      obtain ⟨inner, isOpened⟩ := inductionHypothesis
      cases operation with
      | enter => exact ⟨(past.length + 1) :: inner, by rw [opened, isOpened, List.cons_append]⟩
      | leave => exact ⟨inner.tail, by rw [opened, isOpened, dropInner_append_singleton]⟩
      | declare _ _ | assign _ _ => exact ⟨inner, isOpened⟩

theorem zero_mem_opened (past : Past) : 0 ∈ opened past := by
  obtain ⟨inner, isOpened⟩ := exists_opened_eq_append past
  rw [isOpened]
  exact List.mem_append_right inner List.mem_cons_self

theorem opened_ne_nil (past : Past) : opened past ≠ [] :=
  List.ne_nil_of_mem (zero_mem_opened past)

/-- There always is an innermost open scope. -/
theorem exists_opened_eq_cons (past : Past) : ∃ others, opened past = innermost past :: others := by
  rw [innermost]
  cases isOpened : opened past with
  | nil => exact absurd isOpened (opened_ne_nil past)
  | cons inner others => exact ⟨others, rfl⟩

/-! ## Scopes that stay open -/

theorem staysOpen_cons (operation : Operation) (past : Past) :
    StaysOpen (operation :: past) ↔
      (operation :: past).count .leave ≤ (operation :: past).count .enter ∧ StaysOpen past := by
  simp only [StaysOpen, List.suffix_cons_iff, forall_eq_or_imp]

/-- While a scope stays open, the scopes that are opened inside it come first. -/
theorem exists_opened_append {later : Past} (staysOpen : StaysOpen later) (past : Past) :
    ∃ inner, opened (later ++ past) = inner ++ opened past ∧
      inner.length + later.count .leave = later.count .enter := by
  induction later with
  | nil => exact ⟨[], rfl, rfl⟩
  | cons operation later inductionHypothesis =>
      obtain ⟨enough, stillOpen⟩ := (staysOpen_cons operation later).mp staysOpen
      obtain ⟨inner, isOpened, balance⟩ := inductionHypothesis stillOpen
      cases operation with
      | enter =>
          refine ⟨((later ++ past).length + 1) :: inner, by simp [opened, isOpened], ?_⟩
          rw [List.length_cons, List.count_cons_of_ne (by decide), List.count_cons_self]
          omega
      | leave =>
          rw [List.count_cons_self, List.count_cons_of_ne (by decide)] at enough
          rw [List.count_cons_self, List.count_cons_of_ne (by decide)]
          cases inner with
          | nil =>
              rw [List.length_nil] at balance
              omega
          | cons innermost others =>
              refine ⟨others, ?_, by rw [List.length_cons] at balance; omega⟩
              rw [List.cons_append, opened, isOpened,
                dropInner_cons_append innermost others (opened_ne_nil past)]
      | declare _ _ | assign _ _ =>
          exact ⟨inner, isOpened, by simpa [List.count_cons] using balance⟩

/-- A scope that was left does not come back. -/
theorem not_mem_opened_append {past : Past} {scope : Nat} (existed : scope ≤ past.length)
    (isLeft : scope ∉ opened past) (later : Past) : scope ∉ opened (later ++ past) := by
  induction later with
  | nil => exact isLeft
  | cons operation later inductionHypothesis =>
      cases operation with
      | enter =>
          have notNew : scope ≠ (later ++ past).length + 1 := by
            rw [List.length_append]
            omega
          exact List.not_mem_cons_of_ne_of_not_mem notNew inductionHypothesis
      | leave => exact fun isOpen => inductionHypothesis ((dropInner_sublist _).subset isOpen)
      | declare _ _ | assign _ _ => exact inductionHypothesis

/-- A scope is left by the first operation that makes more scopes left than entered since. -/
theorem not_mem_opened_of_not_staysOpen {later : Past} (isLeft : ¬ StaysOpen later) (past : Past) :
    past.length + 1 ∉ opened (later ++ .enter :: past) := by
  induction later with
  | nil =>
      have neverLeft : StaysOpen [] := fun part isPart => by
        rw [List.suffix_nil.mp isPart]
        exact Nat.le_refl 0
      exact absurd neverLeft isLeft
  | cons operation later inductionHypothesis =>
      by_cases stillOpen : StaysOpen later
      · obtain ⟨inner, isOpened, balance⟩ := exists_opened_append stillOpen (.enter :: past)
        have tooMany : ¬ (operation :: later).count .leave ≤ (operation :: later).count .enter :=
          fun enough => isLeft ((staysOpen_cons operation later).mpr ⟨enough, stillOpen⟩)
        -- Only leaving the scope itself can have tipped the balance.
        have isLeave : operation = .leave ∧ inner = [] := by
          cases operation with
          | leave =>
              rw [List.count_cons_self, List.count_cons_of_ne (by decide)] at tooMany
              exact ⟨rfl, List.length_eq_zero_iff.mp (by omega)⟩
          | enter =>
              rw [List.count_cons_of_ne (by decide), List.count_cons_self] at tooMany
              omega
          | declare _ _ | assign _ _ =>
              rw [List.count_cons_of_ne (by simp), List.count_cons_of_ne (by simp)] at tooMany
              omega
        obtain ⟨rfl, rfl⟩ := isLeave
        have leaves : opened (.leave :: later ++ .enter :: past) = opened past := by
          rw [List.cons_append, opened, isOpened, List.nil_append, opened]
          exact dropInner_cons_append (past.length + 1) [] (opened_ne_nil past)
        rw [leaves]
        exact fun isOpen => Nat.not_succ_le_self _ (le_length_of_mem_opened isOpen)
      · have notOpen := inductionHypothesis stillOpen
        have existed : past.length + 1 ≤ (later ++ .enter :: past).length := by simp
        exact not_mem_opened_append existed notOpen [operation]

/-- A scope is open as long as no more scopes were left than entered since it was entered. -/
theorem mem_opened_iff_staysOpen (later past : Past) :
    past.length + 1 ∈ opened (later ++ .enter :: past) ↔ StaysOpen later := by
  constructor
  · intro isOpen
    exact Classical.byContradiction fun isLeft =>
      not_mem_opened_of_not_staysOpen isLeft past isOpen
  · intro staysOpen
    obtain ⟨inner, isOpened, -⟩ := exists_opened_append staysOpen (.enter :: past)
    rw [isOpened]
    exact List.mem_append_right inner List.mem_cons_self

/-! ## Decisions -/

theorem mem_opened_and_declares (isHolder : holder? name past = some scope) :
    scope ∈ opened past ∧ declares scope name past = true := by
  have declared := List.find?_some isHolder
  exact ⟨List.mem_of_find?_eq_some isHolder, declared⟩

/-- Something is decided about a name in the scopes that it was declared in, and in no others. -/
theorem isSome_decided? (scope : Nat) (name : String) (past : Past) :
    (decided? scope name past).isSome = declares scope name past := by
  induction past with
  | nil => rfl
  | cons operation past inductionHypothesis =>
      cases operation with
      | enter | leave => exact inductionHypothesis
      | declare other slot =>
          simp only [decided?, decision?, declares, Option.isSome_or, inductionHypothesis]
          split <;> simp_all
      | assign other value =>
          by_cases here : other.lexeme = name ∧ holder? name past = some scope
          · have declared := (mem_opened_and_declares here.2).2
            simp [decided?, decision?, declares, here, declared]
          · simp only [decided?, decision?, declares, if_neg here, Option.none_or,
              inductionHypothesis]

theorem holder?_eq_find? (name : String) (past : Past) :
    holder? name past = (opened past).find? fun scope => (decided? scope name past).isSome := by
  simp only [isSome_decided?]
  rfl

/-- Nothing is decided about a scope before it has been entered. -/
theorem decided?_eq_none_of_lt (later : past.length < scope) : decided? scope name past = none := by
  induction past with
  | nil => rfl
  | cons operation past inductionHypothesis =>
      have stillLater : past.length < scope := Nat.lt_of_succ_lt later
      rw [decided?, inductionHypothesis stillLater, Option.or_none]
      cases operation with
      | enter | leave => rfl
      | declare other slot =>
          apply if_neg
          rintro ⟨-, rfl⟩
          obtain ⟨others, isOpened⟩ := exists_opened_eq_cons past
          have isOpen : innermost past ∈ opened past := isOpened ▸ List.mem_cons_self
          exact Nat.not_le.mpr stillLater (le_length_of_mem_opened isOpen)
      | assign other value =>
          apply if_neg
          rintro ⟨-, isHolder⟩
          have isOpen := (mem_opened_and_declares isHolder).1
          exact Nat.not_le.mpr stillLater (le_length_of_mem_opened isOpen)

/-- What an assignment decides: the scope that answers for its name has the value from then on. -/
theorem decided?_assign (scope : Nat) (query : String) (name : Token) (value : Value)
    (past : Past) :
    decided? scope query (.assign name value :: past) =
      if name.lexeme = query ∧ holder? query past = some scope then some (.holding value)
      else decided? scope query past := by
  rw [decided?, decision?]
  split <;> rfl

theorem decided?_declare (scope : Nat) (query name : String) (slot : Slot) (past : Past) :
    decided? scope query (.declare name slot :: past) =
      if name = query ∧ innermost past = scope then some slot else decided? scope query past := by
  rw [decided?, decision?]
  split <;> rfl

end Past

end BlockScript.Scopes
