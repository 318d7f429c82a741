import BlockScript.Proofs.Effect.EmptyScope
import BlockScript.Proofs.Loop.Break
import BlockScript.Proofs.Resolution.Placement

/-!
# Counting loops

A counting loop is read as a while loop, with a block around each round if there is an increment and
a block around the whole if there is an initial statement. What is meant can be told without the
while loop and without a block around the rounds: the rounds run where the loop runs, and a break
leaves them before the increment is evaluated.
-/

namespace BlockScript

namespace Execution

/-- Whether a condition holds. One that is not given always does. -/
def holds : Option Expr → Execution Bool
  | none => pure true
  | some condition => do
      let value ← eval condition
      pure value.isTruthy

/-- Evaluates an expression, if there is one, for what it does and not for its value. -/
def perform : Option Expr → Execution Unit
  | none => pure ()
  | some expr => do
      let _ ← eval expr
      pure ()

/-- The rounds of a counting loop, for at most `fuel` tests of its condition. The increment follows
each round that ends normally. -/
def countingRounds (condition increment : Option Expr) (body : Execution Completion) :
    (fuel : Nat) → Execution Completion
  | 0 => throw .outOfFuel
  | fuel + 1 => do
      if ← holds condition then
        match ← body with
        | .normal => do
            perform increment
            countingRounds condition increment body fuel
        | .breaking => pure .normal
      else
        pure .normal

end Execution

open Execution

/-- What a counting loop means: the rounds are run after the initial statement and in one scope with
it, or where the loop stands if there is no initial statement. -/
def Stmt.execCounting (fuel : Nat) (initial : Option Stmt) (condition increment : Option Expr)
    (body : Stmt) : Execution Completion :=
  match initial with
  | none => countingRounds condition increment (body.exec fuel) fuel
  | some first => inScope do
      let _ ← first.exec fuel
      countingRounds condition increment (body.exec fuel) fuel

namespace Execution

/-- A round and then the increment, unless the round is broken off. -/
def countingRound (increment : Option Expr) (body : Execution Completion) :
    Execution Completion := do
  match ← body with
  | .normal => do
      perform increment
      pure .normal
  | .breaking => pure .breaking

/-- What hands on the completion that it is given can be left out. -/
theorem bind_eq_self {next : Completion → Execution Completion}
    (normal : next .normal = pure .normal) (breaking : next .breaking = pure .breaking)
    (action : Execution Completion) :
    action >>= next = action := by
  have handsOn : next = pure := by
    funext completion
    cases completion with
    | normal => exact normal
    | breaking => exact breaking
  rw [handsOn, bind_pure]

theorem countingRound_none (body : Execution Completion) : countingRound none body = body := by
  rw [countingRound]
  apply bind_eq_self
  · rfl
  · rfl

/-- A condition that is not given is read as one that holds. -/
theorem holds_bind (condition : Option Expr) (next : Bool → Execution α) :
    (eval (condition.getD (.literal (.boolean true))) >>= fun value => next value.isTruthy) =
      holds condition >>= next := by
  cases condition with
  | none =>
      funext machine
      rfl
  | some condition => simp [holds]

theorem repeatWhile_countingRound (condition increment : Option Expr) (body : Execution Completion)
    (fuel : Nat) :
    repeatWhile (condition.getD (.literal (.boolean true))) (countingRound increment body) fuel =
      countingRounds condition increment body fuel := by
  induction fuel with
  | zero => rfl
  | succ fuel inductionHypothesis =>
      rw [repeatWhile, countingRounds, ← holds_bind, inductionHypothesis]
      congr 1
      funext value
      split
      · rw [countingRound, bind_assoc]
        congr 1
        funext completion
        cases completion with
        | normal => rw [bind_assoc]; rfl
        | breaking => rfl
      · rfl

end Execution

namespace Stmt

theorem execAll_singleton (fuel : Nat) (statement : Stmt) :
    execAll fuel [statement] = statement.exec fuel := by
  rw [execAll, execAll]
  apply bind_eq_self
  · rfl
  · rfl

/-- The block around a body and an increment cannot be seen if the body declares nothing. -/
theorem exec_withIncrement (fuel : Nat) {body : Stmt} (enclosed : body.exposed = [])
    (increment : Option Expr) :
    (body.withIncrement increment).exec fuel = countingRound increment (body.exec fuel) := by
  cases increment with
  | none => rw [withIncrement, countingRound_none]
  | some increment =>
      have noneExposed : ∀ statement ∈ [body, expression increment], statement.exposed = [] := by
        simp [enclosed, exposed]
      rw [withIncrement, exec_block_of_exposed fuel noneExposed, execAll, execAll_singleton,
        countingRound]
      congr 1
      funext completion
      cases completion with
      | normal => simp [exec, perform]
      | breaking => rfl

/-- A statement that may be a branch declares nothing outside of its blocks. -/
theorem exposed_eq_nil_of_branch : (statement : Stmt) → statement.Branch → statement.exposed = []
  | .print _, _ | .expression _, _ | .block _, _ | .breakLoop _, _ => rfl
  | .declare name _, ⟨noDeclaration, _⟩ => by
      have declared := noDeclaration name.lexeme
      simp [declares] at declared
  | .ifThen _ whenTrue, ⟨_, branch⟩ => exposed_eq_nil_of_branch whenTrue branch
  | .ifElse _ whenTrue whenFalse, ⟨_, trueBranch, falseBranch⟩ => by
      have trueEnclosed := exposed_eq_nil_of_branch whenTrue trueBranch
      have falseEnclosed := exposed_eq_nil_of_branch whenFalse falseBranch
      rw [exposed, trueEnclosed, falseEnclosed, List.append_nil]
  | .whileLoop _ body, ⟨_, branch⟩ => exposed_eq_nil_of_branch body branch

/-- A counting loop does what is meant by it if no break leaves its initial statement. -/
theorem exec_countingLoop_of_branch (fuel : Nat) {initial : Option Stmt} {body : Stmt}
    (enclosed : ∀ first ∈ initial, first.looseBreaks = []) (branch : body.Branch)
    (condition increment : Option Expr) :
    (countingLoop initial condition increment body).exec fuel =
      execCounting fuel initial condition increment body := by
  have rounds : (whileLoop (condition.getD (.literal (.boolean true)))
      (body.withIncrement increment)).exec fuel =
        countingRounds condition increment (body.exec fuel) fuel := by
    rw [exec, body.exec_withIncrement fuel (body.exposed_eq_nil_of_branch branch),
      repeatWhile_countingRound]
  cases initial with
  | none => exact rounds
  | some first =>
      have first := first.neverBreaks_exec fuel (enclosed first rfl)
      rw [countingLoop, exec, execAll, execAll_singleton, rounds, execCounting]
      exact congrArg inScope (first.bind_congr rfl)

end Stmt

theorem Grammar.branch_of_yields {finish : Token} {inLoop : Bool} {input unread : List Token}
    {tree : Stmt} {noted : List SyntaxError}
    (read : (statement finish inLoop input).Yields tree noted unread) : tree.Branch :=
  ((placed finish input).ensures.1 inLoop input (List.suffix_refl input)).of_yields read

/-- A counting loop does what is meant by it, whichever of its clauses there are, whatever its body
was read from and whatever machine it runs on: its completion or its error, its output, the scopes
that it leaves and the fuel that it needs are the same. -/
theorem exec_countingLoop {finish : Token} {inLoop : Bool} {input : List Token} {body : Stmt}
    {noted : List SyntaxError} {rest : Rest 1 input}
    (read : Grammar.statement finish inLoop input = .parsed body noted rest)
    {initial : Option Stmt}
    (ofInitial : ∀ first ∈ initial, (∃ name value, first = .declare name value) ∨
      ∃ value, first = .expression value)
    (condition increment : Option Expr) (fuel : Nat) :
    (Stmt.countingLoop initial condition increment body).exec fuel =
      Stmt.execCounting fuel initial condition increment body := by
  have enclosed : ∀ first ∈ initial, first.looseBreaks = [] := by
    intro first isFirst
    obtain ⟨name, value, rfl⟩ | ⟨value, rfl⟩ := ofInitial first isFirst
    · rfl
    · rfl
  have branch : body.Branch := Grammar.branch_of_yields ⟨rest, read, rfl⟩
  exact Stmt.exec_countingLoop_of_branch fuel enclosed branch condition increment

/-- The tokens of a body that leaves its loop if a variable says so. -/
def leavingTokens : List Token :=
  [⟨.keyword .ifWord, "if", none, 1⟩, ⟨.mark .leftParen, "(", none, 1⟩,
    ⟨.identifier, "a", none, 1⟩, ⟨.mark .rightParen, ")", none, 1⟩,
    ⟨.keyword .breakWord, "break", none, 1⟩, ⟨.mark .semicolon, ";", none, 1⟩]

/-- The body that is read from these tokens. -/
def leavingBody : Stmt :=
  .ifThen (.variable ⟨.identifier, "a", none, 1⟩)
    (.breakLoop ⟨.keyword .breakWord, "break", none, 1⟩)

/-- With a variable of its own that holds nothing yet, the loop fails in its first round and leaves
no scope behind. -/
theorem exec_countingLoop_leaving :
    (∃ rest, Grammar.statement (.finish 1) true leavingTokens = .parsed leavingBody [] rest) ∧
      (∀ fuel, (Stmt.countingLoop (some (.declare ⟨.identifier, "a", none, 1⟩ none)) none
          (some (.assign ⟨.identifier, "a", none, 1⟩ (.literal .nil))) leavingBody).exec fuel =
        Stmt.execCounting fuel (some (.declare ⟨.identifier, "a", none, 1⟩ none)) none
          (some (.assign ⟨.identifier, "a", none, 1⟩ (.literal .nil))) leavingBody) ∧
      ((Stmt.countingLoop (some (.declare ⟨.identifier, "a", none, 1⟩ none)) none
          (some (.assign ⟨.identifier, "a", none, 1⟩ (.literal .nil))) leavingBody).exec 1).Ends
        (.initial .empty)
        (.error ⟨⟨.identifier, "a", none, 1⟩, "Cannot access uninitialized variable 'a'."⟩)
        (.initial .empty) := by
  have read : ∃ rest, Grammar.statement (.finish 1) true leavingTokens =
      .parsed leavingBody [] rest := by
    refine ⟨⟨[], ?_, ?_⟩, ?_⟩
    · exact List.nil_suffix
    · decide
    · cbv
  obtain ⟨rest, isRead⟩ := read
  have ofInitial : ∀ first ∈ some (Stmt.declare ⟨.identifier, "a", none, 1⟩ none),
      (∃ name value, first = .declare name value) ∨ ∃ value, first = .expression value := by
    intro first isFirst
    cases isFirst
    exact .inl ⟨_, _, rfl⟩
  have same := exec_countingLoop isRead ofInitial none
    (some (.assign ⟨.identifier, "a", none, 1⟩ (.literal .nil)))
  exact ⟨⟨rest, isRead⟩, same, ⟨_, rfl, rfl, rfl⟩⟩

/-- What is read at the keyword of a counting loop does what is meant by the clauses and the body that
are read behind the keyword. -/
theorem Grammar.exec_forStatement {finish token : Token} {inLoop : Bool}
    {after unread : List Token} {tree : Stmt} {noted : List SyntaxError}
    (isFor : token.kind = .keyword .forWord)
    (read : (statement finish inLoop (token :: after)).Yields tree noted unread) :
    ∃ parts body earlier later, ∃ rest : Rest 1 after,
      (clauses finish after).Yields parts earlier rest.tokens ∧
      (statement finish true rest.tokens).Yields body later unread ∧ earlier ++ later = noted ∧
      ∀ fuel, tree.exec fuel =
        Stmt.execCounting fuel parts.initial parts.condition parts.increment body := by
  rw [statement, isFor] at read
  simp only [Reply.yields_past, Reply.yields_bind, Reply.yields_map] at read
  obtain ⟨parts, earlier, later, rest, readParts, ⟨body, readBody, rfl⟩, isNoted⟩ := read
  have enclosed : ∀ first ∈ parts.initial, first.looseBreaks = [] := by
    have outside : Reply.Ensures (fun parts => ∀ first ∈ parts.initial, first.looseBreaks = [])
        (clauses finish after) :=
      ((breaksInside finish after).clauses (List.suffix_refl after)).weaken
        fun _ ofParts first isFirst => ofParts.1 first isFirst rfl
    exact outside.of_yields readParts
  have meant (fuel : Nat) := Stmt.exec_countingLoop_of_branch fuel enclosed
    (branch_of_yields readBody) parts.condition parts.increment
  exact ⟨parts, body, earlier, later, rest, readParts, readBody, isNoted, meant⟩

end BlockScript
