import BlockScript.Session.Prompt

/-!
# Lines of input

The prompt cuts its input after each line break. There is only one such cut that loses nothing, so
that lines can be left out of an input and what is left is cut as before.
-/

namespace BlockScript.Prompt

/-- Each line has a line break at its end and nowhere else. Only the last line may do without, and
then there is something else in it. -/
inductive Cut : List (List UInt8) → Prop where
  | nil : Cut []
  | unended {line : List UInt8} (nonempty : line ≠ []) (noBreak : 10 ∉ line) : Cut [line]
  | ended {body : List UInt8} {others : List (List UInt8)} (noBreak : 10 ∉ body)
      (rest : Cut others) : Cut ((body ++ [10]) :: others)

theorem cut_lines (input : List UInt8) : Cut (lines input) := by
  induction input with
  | nil => exact .nil
  | cons byte rest inductionHypothesis =>
      rw [lines]
      split
      · rename_i isBreak
        subst isBreak
        exact .ended List.not_mem_nil inductionHypothesis
      · rename_i noBreak
        -- The byte joins the line after it, and is a line of its own only if there is none.
        have different : 10 ≠ byte := fun same => noBreak same.symm
        generalize lines rest = cut at inductionHypothesis ⊢
        cases inductionHypothesis with
        | nil => exact .unended (List.cons_ne_nil _ _) (by simpa using different)
        | unended nonempty noBreak =>
            exact .unended (List.cons_ne_nil _ _) (by simp [different, noBreak])
        | @ended body others noBreak rest =>
            have longer : Cut ((byte :: body ++ [10]) :: others) :=
              .ended (by simp [different, noBreak]) rest
            exact longer

/-- Nothing is lost in the cut. -/
theorem flatten_lines (input : List UInt8) : (lines input).flatten = input := by
  induction input with
  | nil => rfl
  | cons byte rest inductionHypothesis =>
      rw [lines]
      split
      · rw [List.flatten_cons, inductionHypothesis]
        rfl
      · split
        · rename_i isNil
          rw [isNil] at inductionHypothesis
          rw [← inductionHypothesis]
          rfl
        · rename_i line others isCons
          rw [isCons] at inductionHypothesis
          rw [← inductionHypothesis]
          rfl

theorem lines_of_noBreak {line : List UInt8} (nonempty : line ≠ []) (noBreak : 10 ∉ line) :
    lines line = [line] := by
  induction line with
  | nil => exact absurd rfl nonempty
  | cons byte rest inductionHypothesis =>
      obtain ⟨different, restNoBreak⟩ := not_or.mp (mt List.mem_cons.mpr noBreak)
      rw [lines, if_neg (Ne.symm different)]
      cases rest with
      | nil => rfl
      | cons next others => rw [inductionHypothesis (List.cons_ne_nil _ _) restNoBreak]

/-- The first line break ends the first line. -/
theorem lines_append_break {body : List UInt8} (noBreak : 10 ∉ body) (rest : List UInt8) :
    lines (body ++ [10] ++ rest) = (body ++ [10]) :: lines rest := by
  induction body with
  | nil => rfl
  | cons byte others inductionHypothesis =>
      obtain ⟨different, othersNoBreak⟩ := not_or.mp (mt List.mem_cons.mpr noBreak)
      rw [List.cons_append, List.cons_append, lines, if_neg (Ne.symm different),
        inductionHypothesis othersNoBreak]

/-- Lines that are put together are cut into the same lines again. -/
theorem lines_flatten {cut : List (List UInt8)} (isCut : Cut cut) : lines cut.flatten = cut := by
  induction isCut with
  | nil => rfl
  | unended nonempty noBreak =>
      rw [List.flatten_singleton, lines_of_noBreak nonempty noBreak]
  | ended noBreak rest inductionHypothesis =>
      rw [List.flatten_cons, lines_append_break noBreak, inductionHypothesis]

/-- The lines of an input are its only cut that loses nothing. -/
theorem lines_eq_iff {input : List UInt8} {cut : List (List UInt8)} :
    lines input = cut ↔ Cut cut ∧ cut.flatten = input := by
  constructor
  · intro isCut
    subst isCut
    exact ⟨cut_lines input, flatten_lines input⟩
  · intro cuts
    rw [← cuts.2, lines_flatten cuts.1]

/-- The second list is the first one without some lines, which are all such as may be deleted. -/
inductive Deletes (may : List UInt8 → Prop) : List (List UInt8) → List (List UInt8) → Prop where
  | nil : Deletes may [] []
  | keep {others kept : List (List UInt8)} (line : List UInt8) (rest : Deletes may others kept) :
      Deletes may (line :: others) (line :: kept)
  | delete {line : List UInt8} {others kept : List (List UInt8)} (allowed : may line)
      (rest : Deletes may others kept) : Deletes may (line :: others) kept

/-- The lines that are left are lines still. -/
theorem Deletes.cut {may : List UInt8 → Prop} {all kept : List (List UInt8)}
    (deletes : Deletes may all kept) (isCut : Cut all) : Cut kept := by
  induction deletes with
  | nil => exact .nil
  | keep line rest inductionHypothesis =>
      cases isCut with
      | unended nonempty noBreak =>
          cases rest
          exact .unended nonempty noBreak
      | ended noBreak othersCut => exact .ended noBreak (inductionHypothesis othersCut)
  | delete allowed rest inductionHypothesis =>
      cases isCut with
      | unended nonempty noBreak => exact inductionHypothesis .nil
      | ended noBreak othersCut => exact inductionHypothesis othersCut

end BlockScript.Prompt
