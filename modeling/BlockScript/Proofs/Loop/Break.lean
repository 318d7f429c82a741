import BlockScript.Proofs.Grammar.Inheritance
import BlockScript.Proofs.Semantics.Ending

/-!
# Breaks stay in their loops

A break that the reader replies with stands in the body of a loop, however many faults it has met on
its way in and out of loops. A loop takes the breaks of its body and has none of its own, so that no
statement of a program ends with a break, and the completions that a program throws away are normal.
-/

namespace BlockScript

mutual

/-- The keywords of the breaks of a statement that stand in the body of no loop of it. -/
def Stmt.looseBreaks : Stmt → List Token
  | breakLoop keyword => [keyword]
  | block body => looseBreaksOf body
  | ifThen _ whenTrue => whenTrue.looseBreaks
  | ifElse _ whenTrue whenFalse => whenTrue.looseBreaks ++ whenFalse.looseBreaks
  | whileLoop _ _ | print _ | expression _ | declare _ _ => []

def Stmt.looseBreaksOf : List Stmt → List Token
  | [] => []
  | statement :: rest => statement.looseBreaks ++ looseBreaksOf rest

end

theorem Stmt.looseBreaksOf_eq_nil {body : List Stmt} :
    looseBreaksOf body = [] ↔ ∀ statement ∈ body, statement.looseBreaks = [] := by
  induction body with
  | nil => simp [looseBreaksOf]
  | cons statement rest inductionHypothesis => simp [looseBreaksOf, inductionHypothesis]

/-- What is read outside of a loop has no loose breaks. What is read inside of one may have some,
and it becomes part of the body of that loop. -/
theorem Grammar.breaksInside (finish : Token) (source : List Token) :
    Inherited finish source (fun _ => True)
      (fun inLoop tree => inLoop = false → tree.looseBreaks = [])
      (fun inLoop tree => inLoop = false → tree.looseBreaks = []) where
  read _ _ := Reply.ensures_trivial _
  endless := True.intro
  print _ _ := rfl
  expression _ _ := rfl
  declare _ _ := rfl
  block inside outside := Stmt.looseBreaksOf_eq_nil.mpr fun tree member =>
    inside tree member outside
  ifThen _ trueInside outside := trueInside outside
  ifElse _ trueInside falseInside outside :=
    List.append_eq_nil_iff.mpr ⟨trueInside outside, falseInside outside⟩
  whileLoop _ _ _ := rfl
  breakLoop _ outside := Bool.noConfusion outside
  item inside := inside

def Execution.NeverBreaks (action : Execution Completion) : Prop :=
  ∀ before after, ¬ action.Ends before (.ok .breaking) after

namespace Execution

theorem neverBreaks_pure : (pure .normal : Execution Completion).NeverBreaks := by
  intro before after ends
  cases ((ends_pure _ _).mp ends).1

/-- What does not break in the end may begin with anything. -/
theorem neverBreaks_bind (first : Execution α) {next : α → Execution Completion}
    (second : ∀ value, (next value).NeverBreaks) : (first >>= next).NeverBreaks := by
  intro before after ends
  obtain ⟨value, between, _, ends⟩ | ⟨failure, isFailure, _⟩ := (ends_bind first next _).mp ends
  · exact second value _ _ ends
  · cases isFailure

theorem neverBreaks_inScope {body : Execution Completion} (bodyNever : body.NeverBreaks) :
    (inScope body).NeverBreaks := by
  intro before after ends
  obtain ⟨inside, ends, _⟩ := (ends_inScope body _).mp ends
  exact bodyNever _ _ ends

/-- A repetition takes the breaks of its body. -/
theorem neverBreaks_repeatWhile (condition : Expr) (body : Execution Completion) (fuel : Nat) :
    (repeatWhile condition body fuel).NeverBreaks := by
  induction fuel with
  | zero =>
      intro before after
      exact not_ends_repeatWhile_zero condition body before _ after
  | succ fuel inductionHypothesis =>
      rw [repeatWhile]
      apply neverBreaks_bind
      intro value
      split
      · apply neverBreaks_bind
        intro completion
        cases completion with
        | normal => exact inductionHypothesis
        | breaking => exact neverBreaks_pure
      · exact neverBreaks_pure

/-- After what does not break, only the normal completion matters. -/
theorem NeverBreaks.bind_congr {action : Execution Completion} (never : action.NeverBreaks)
    {next other : Completion → Execution α} (same : next .normal = other .normal) :
    (action >>= next) = (action >>= other) := by
  funext before
  simp only [bind, EStateM.bind]
  cases reply : action before with
  | error stop after => rfl
  | ok completion after =>
      cases completion with
      | normal => exact congrFun same after
      | breaking => exact absurd (ends_of_ok reply) (never before after)

end Execution

open Execution

mutual

theorem Stmt.neverBreaks_exec (fuel : Nat) : (statement : Stmt) → statement.looseBreaks = [] →
    (statement.exec fuel).NeverBreaks
  | .print value, _ => by
      rw [exec]
      exact neverBreaks_bind _ fun _ => neverBreaks_bind _ fun _ => neverBreaks_pure
  | .expression value, _ => by
      rw [exec]
      exact neverBreaks_bind _ fun _ => neverBreaks_pure
  | .declare name none, _ => by
      rw [exec]
      exact neverBreaks_bind _ fun _ => neverBreaks_pure
  | .declare name (some initial), _ => by
      rw [exec]
      exact neverBreaks_bind _ fun _ => neverBreaks_bind _ fun _ => neverBreaks_pure
  | .block body, inside => by
      rw [exec]
      exact neverBreaks_inScope (neverBreaks_execAll fuel body inside)
  | .ifThen condition whenTrue, inside => by
      rw [exec]
      apply neverBreaks_bind
      intro value
      split
      · exact neverBreaks_exec fuel whenTrue inside
      · exact neverBreaks_pure
  | .ifElse condition whenTrue whenFalse, inside => by
      rw [exec]
      have ⟨trueInside, falseInside⟩ := List.append_eq_nil_iff.mp inside
      apply neverBreaks_bind
      intro value
      split
      · exact neverBreaks_exec fuel whenTrue trueInside
      · exact neverBreaks_exec fuel whenFalse falseInside
  | .whileLoop condition body, _ => by
      rw [exec]
      exact neverBreaks_repeatWhile condition _ fuel
  | .breakLoop keyword, inside => by
      cases inside

theorem Stmt.neverBreaks_execAll (fuel : Nat) : (body : List Stmt) → looseBreaksOf body = [] →
    (execAll fuel body).NeverBreaks
  | [], _ => by
      rw [execAll]
      exact neverBreaks_pure
  | statement :: rest, inside => by
      have ⟨firstInside, restInside⟩ := List.append_eq_nil_iff.mp inside
      have first := neverBreaks_exec fuel statement firstInside
      have goesOn : execAll fuel (statement :: rest) =
          (statement.exec fuel >>= fun _ => execAll fuel rest) := by
        rw [execAll]
        exact first.bind_congr rfl
      rw [goesOn]
      exact neverBreaks_bind _ fun _ => neverBreaks_execAll fuel rest restInside

end

/-- Where there are no loose breaks, a program is a block without a scope: no completion that it
throws away would have mattered. -/
theorem execAll_eq_interpret (fuel : Nat) {program : List Stmt}
    (inside : Stmt.looseBreaksOf program = []) :
    Stmt.execAll fuel program = (interpret fuel program >>= fun _ => pure .normal) := by
  induction program with
  | nil => rfl
  | cons statement rest inductionHypothesis =>
      have ⟨firstInside, restInside⟩ := List.append_eq_nil_iff.mp inside
      have first := statement.neverBreaks_exec fuel firstInside
      rw [interpret, Stmt.execAll, bind_assoc]
      exact first.bind_congr (inductionHypothesis restInside)

/-- Whatever tokens a program is read from, each of its breaks stands in the body of a loop, none of
its statements ends with a break, and it runs as it would if a break were to end it. -/
theorem breaks_stayInLoops (tokens : List Token) :
    (∀ statement ∈ (Program.ofTokens tokens).statements, statement.looseBreaks = [] ∧
      ∀ fuel before after, ¬ (statement.exec fuel).Ends before (.ok .breaking) after) ∧
    ∀ fuel, Stmt.execAll fuel (Program.ofTokens tokens).statements =
      (interpret fuel (Program.ofTokens tokens).statements >>= fun _ => pure .normal) := by
  have inside : ∀ statement ∈ (Program.ofTokens tokens).statements, statement.looseBreaks = [] :=
    fun statement member =>
      (Grammar.breaksInside _ _).ofTokens statement member rfl
  refine ⟨fun statement member => ⟨inside statement member, fun fuel => ?_⟩, fun fuel => ?_⟩
  · exact statement.neverBreaks_exec fuel (inside statement member)
  · exact execAll_eq_interpret fuel (Stmt.looseBreaksOf_eq_nil.mpr inside)

/-- The tokens of a loop with a fault and a break in its body, followed by a break outside of it. -/
def faultyLoop : List Token :=
  [⟨.keyword .whileWord, "while", none, 1⟩, ⟨.mark .leftParen, "(", none, 1⟩,
    ⟨.identifier, "a", none, 1⟩, ⟨.mark .rightParen, ")", none, 1⟩,
    ⟨.mark .leftBrace, "\x7b", none, 1⟩, ⟨.mark .star, "*", none, 2⟩,
    ⟨.mark .semicolon, ";", none, 2⟩, ⟨.keyword .breakWord, "break", none, 3⟩,
    ⟨.mark .semicolon, ";", none, 3⟩, ⟨.mark .rightBrace, "\x7d", none, 4⟩,
    ⟨.keyword .breakWord, "break", none, 5⟩, ⟨.mark .semicolon, ";", none, 5⟩, .finish 5]

/-- The loop that is left once the faults have been given up. -/
def leftLoop : Stmt :=
  .whileLoop (.variable ⟨.identifier, "a", none, 1⟩)
    (.block [.breakLoop ⟨.keyword .breakWord, "break", none, 3⟩])

/-- After the fault the reader knows that it is still inside of the loop, and after the loop that it
is outside. -/
theorem breaks_faultyLoop :
    leftLoop ∈ (Program.ofTokens faultyLoop).statements ∧
      (Program.ofTokens faultyLoop).errors =
        [⟨⟨.mark .star, "*", none, 2⟩, .missingExpression⟩,
          ⟨⟨.keyword .breakWord, "break", none, 5⟩, .breakOutsideLoop⟩] ∧
      leftLoop.looseBreaks = [] ∧
      ∀ fuel before after, ¬ (leftLoop.exec fuel).Ends before (.ok .breaking) after := by
  have read : Program.ofTokens faultyLoop =
      ⟨[leftLoop], [⟨⟨.mark .star, "*", none, 2⟩, .missingExpression⟩,
        ⟨⟨.keyword .breakWord, "break", none, 5⟩, .breakOutsideLoop⟩]⟩ := by
    cbv
  have member : leftLoop ∈ (Program.ofTokens faultyLoop).statements := by
    rw [read]
    exact List.mem_singleton.mpr rfl
  have inside := (breaks_stayInLoops faultyLoop).1 leftLoop member
  exact ⟨member, congrArg Program.errors read, inside.1, inside.2⟩

end BlockScript
