import BlockScript.Session.Prompt

/-!
# Lines that are written

A sink is offered lines one after another, and is left the same however they are grouped. A session
that shows a program offers the lines of its statements before the program runs, and apart from that
it does what a session does that shows nothing.
-/

namespace BlockScript

theorem unlines_eq_join (lines : List String) :
    unlines lines = String.join (lines.map (· ++ "\n")) := by
  rw [unlines, String.join, List.foldl_map]
  simp only [String.append_assoc]

theorem unlines_cons (line : String) (lines : List String) :
    unlines (line :: lines) = line ++ "\n" ++ unlines lines := by
  rw [unlines_eq_join, unlines_eq_join, List.map_cons, String.join_cons]

namespace Sink

/-- Offers lines to a sink one after another. -/
def writeLines (lines : List String) (sink : Sink) : Sink :=
  lines.foldl (fun sink line => sink.writeLine line) sink

/-- The sink takes all of a number of lines if they are offered to it now. -/
def TakesNext (count : Nat) (sink : Sink) : Prop :=
  ∀ index, sink.offered ≤ index → index < sink.offered + count → sink.accepts index = true

variable {lines : List String} {sink : Sink}

theorem writeLines_append (first second : List String) (sink : Sink) :
    sink.writeLines (first ++ second) = (sink.writeLines first).writeLines second :=
  List.foldl_append

theorem writeLines_concat (lines : List String) (line : String) (sink : Sink) :
    sink.writeLines (lines ++ [line]) = (sink.writeLines lines).writeLine line :=
  writeLines_append lines [line] sink

/-- Lines are counted whether or not they are taken. -/
theorem offered_writeLines (lines : List String) (sink : Sink) :
    (sink.writeLines lines).offered = sink.offered + lines.length := by
  induction lines generalizing sink with
  | nil => rfl
  | cons line lines inductionHypothesis =>
      rw [writeLines, List.foldl_cons, ← writeLines, inductionHypothesis, List.length_cons]
      exact Nat.add_right_comm _ _ _

theorem text_writeLine (taken : sink.accepts sink.offered = true) (line : String) :
    (sink.writeLine line).text = sink.text ++ (line ++ "\n") :=
  congrArg (sink.text ++ ·) (if_pos taken)

theorem text_writeLines (taken : sink.TakesNext lines.length) :
    (sink.writeLines lines).text = sink.text ++ unlines lines := by
  induction lines generalizing sink with
  | nil => exact (String.append_empty).symm
  | cons line lines inductionHypothesis =>
      have lineTaken : sink.accepts sink.offered = true :=
        taken sink.offered (Nat.le_refl _) (Nat.lt_add_of_pos_right lines.length.succ_pos)
      have othersTaken : (sink.writeLine line).TakesNext lines.length := by
        intro index atLeast below
        have offered : (sink.writeLine line).offered = sink.offered + 1 := rfl
        rw [offered] at atLeast below
        exact taken index (by omega) (by rw [List.length_cons]; omega)
      rw [writeLines, List.foldl_cons, ← writeLines, inductionHypothesis othersTaken,
        text_writeLine lineTaken, unlines_cons, String.append_assoc]

end Sink

/-! ## Programs that are shown -/

/-- Showing a program writes a line for each of its statements, and does nothing else. -/
theorem Execution.echo_eq (statements : List Stmt) (scopes : Scopes) (sink : Sink) :
    echo statements ⟨scopes, sink⟩ =
      .ok () ⟨scopes, sink.writeLines (statements.map Stmt.render)⟩ := by
  induction statements generalizing sink with
  | nil => rfl
  | cons statement rest inductionHypothesis => exact inductionHypothesis _

/-- A program that is shown runs as it would otherwise, after the lines that show it. -/
theorem Session.launch_eq (fuel : Nat) (echoing : Bool) (statements : List Stmt) (scopes : Scopes)
    (sink : Sink) :
    launch fuel echoing statements ⟨scopes, sink⟩ =
      interpret fuel statements
        ⟨scopes, sink.writeLines (if echoing then statements.map Stmt.render else [])⟩ := by
  cases echoing with
  | false => rfl
  | true =>
      have echoed := Execution.echo_eq statements scopes sink
      simp only [launch, if_true, bind, EStateM.bind, echoed]

end BlockScript
