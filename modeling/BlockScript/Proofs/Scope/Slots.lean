import BlockScript.Scope.Stack

/-!
# The slots of a name

A name has a slot, or none, in each of the open scopes. Looking a name up and assigning to it do not
depend on anything but this list of slots, which is how a stack of scopes is compared here with what
should be in it.
-/

namespace BlockScript.Scopes

/-! ## Lists that keep their last entry -/

/-- Takes away the first of a list, unless it is the only one. -/
def dropInner : List α → List α
  | _ :: outer :: others => outer :: others
  | others => others

theorem map_dropInner {α β : Type} (f : α → β) (list : List α) :
    (dropInner list).map f = dropInner (list.map f) := by
  match list with
  | [] | [_] | _ :: _ :: _ => rfl

theorem dropInner_sublist {α : Type} (list : List α) : (dropInner list).Sublist list := by
  match list with
  | [] | [_] => exact .refl _
  | _ :: _ :: _ => exact List.sublist_cons_self _ _

theorem dropInner_append_singleton {α : Type} (inner : List α) (outermost : α) :
    dropInner (inner ++ [outermost]) = inner.tail ++ [outermost] := by
  match inner with
  | [] | [_] | _ :: _ :: _ => rfl

theorem dropInner_cons_append {α : Type} (inner : α) (others : List α) {outer : List α}
    (exist : outer ≠ []) : dropInner (inner :: others ++ outer) = others ++ outer := by
  cases others with
  | cons other others => rfl
  | nil =>
      cases outer with
      | nil => exact absurd rfl exist
      | cons outer others => rfl

/-- The slots of a name in the open scopes, innermost first. -/
def slots (name : String) : Scopes → List (Option Slot)
  | global scope => [scope.find? name]
  | inner scope outer => scope.find? name :: outer.slots name

/-! ## Slots of a stack -/

section

variable {name query : String} {slot : Slot} {value : Value} {scopes : Scopes}

theorem length_slots (name : String) (scopes : Scopes) :
    (scopes.slots name).length = scopes.depth + 1 := by
  induction scopes with
  | global scope => rfl
  | inner scope outer inductionHypothesis => simp [slots, depth, inductionHypothesis]

theorem slots_enter (name : String) (scopes : Scopes) :
    scopes.enter.slots name = none :: scopes.slots name := rfl

theorem slots_leave (name : String) (scopes : Scopes) :
    scopes.leave.slots name = dropInner (scopes.slots name) := by
  cases scopes with
  | global scope => rfl
  | inner scope outer => cases outer <;> rfl

theorem slots_declare_self (name : String) (slot : Slot) (scopes : Scopes) :
    (scopes.declare name slot).slots name = some slot :: (scopes.slots name).tail := by
  cases scopes <;> simp [declare, slots]

theorem slots_declare_of_ne (different : name ≠ query) (slot : Slot) (scopes : Scopes) :
    (scopes.declare name slot).slots query = scopes.slots query := by
  cases scopes <;> simp [declare, slots, Scope.find?_set_of_ne different]

variable {ids : List Nat} {slotOf : Nat → Option Slot}

/-- If the slots are what a function says of a list of scopes, the slot of the first scope that it
knows a slot for is found. -/
theorem find?_of_slots (same : scopes.slots name = ids.map slotOf) :
    scopes.find? name = (ids.find? fun id => (slotOf id).isSome).bind slotOf := by
  induction scopes generalizing ids with
  | global scope =>
      obtain ⟨id, rfl, isSlot⟩ := List.map_eq_singleton_iff.mp same.symm
      cases found : scope.find? name <;> simp [find?, found, isSlot]
  | inner scope outer inductionHypothesis =>
      obtain ⟨id, others, rfl, isSlot, sameOuter⟩ := List.map_eq_cons_iff.mp same.symm
      have further := inductionHypothesis sameOuter.symm
      cases found : scope.find? name <;> simp [find?, found, isSlot, further]

/-- No value can be given to a name that no scope has a slot for. -/
theorem assign?_eq_none_of_slots (same : scopes.slots name = ids.map slotOf)
    (unknown : (ids.find? fun id => (slotOf id).isSome) = none) (value : Value) :
    scopes.assign? name value = none := by
  have notFound := find?_of_slots same
  rw [unknown, Option.bind_none] at notFound
  rw [← Option.not_isSome_iff_eq_none, isSome_assign?, notFound]
  decide

/-- A value that is given to a name takes the place of the slot that is found, and of no other. -/
theorem assign?_of_slots (distinct : ids.Nodup) (same : scopes.slots name = ids.map slotOf)
    {holder : Nat} (isHolder : (ids.find? fun id => (slotOf id).isSome) = some holder)
    (value : Value) :
    ∃ changed, scopes.assign? name value = some changed ∧
      (changed.slots name =
        ids.map fun id => if id = holder then some (.holding value) else slotOf id) ∧
      ∀ query, name ≠ query → changed.slots query = scopes.slots query := by
  induction scopes generalizing ids with
  | global scope =>
      obtain ⟨id, rfl, isSlot⟩ := List.map_eq_singleton_iff.mp same.symm
      cases found : scope.find? name with
      | none => simp [isSlot, found] at isHolder
      | some old =>
          have isHere : id = holder := by simpa [isSlot, found] using isHolder
          refine ⟨.global (scope.set name (.holding value)), by simp [assign?, found], ?_, ?_⟩
          · simp [slots, isHere]
          · intro query different
            simp [slots, Scope.find?_set_of_ne different]
  | inner scope outer inductionHypothesis =>
      obtain ⟨id, others, rfl, isSlot, sameOuter⟩ := List.map_eq_cons_iff.mp same.symm
      obtain ⟨notAmongOthers, othersDistinct⟩ := List.nodup_cons.mp distinct
      cases found : scope.find? name with
      | none =>
          have isFurther : (others.find? fun id => (slotOf id).isSome) = some holder := by
            simpa [isSlot, found] using isHolder
          obtain ⟨changed, assigned, replaced, kept⟩ :=
            inductionHypothesis othersDistinct sameOuter.symm isFurther
          have notHere : id ≠ holder := by
            rintro rfl
            exact notAmongOthers (List.mem_of_find?_eq_some isFurther)
          refine ⟨.inner scope changed, by simp [assign?, found, assigned], ?_, ?_⟩
          · simp [slots, replaced, notHere, isSlot, found]
          · intro query different
            simp [slots, kept query different]
      | some old =>
          have isHere : id = holder := by simpa [isSlot, found] using isHolder
          subst isHere
          refine ⟨.inner (scope.set name (.holding value)) outer, by simp [assign?, found], ?_, ?_⟩
          · have untouched : others.map slotOf = others.map fun other =>
                if other = id then some (.holding value) else slotOf other := by
              apply List.map_congr_left
              intro other isOther
              rw [if_neg fun isId : other = id => notAmongOthers (isId ▸ isOther)]
            simp [slots, ← sameOuter, untouched]
          · intro query different
            simp [slots, Scope.find?_set_of_ne different]

end

end BlockScript.Scopes
