import BlockScript.Proofs.Resolution.Placement
import BlockScript.Proofs.Resolution.Scoping
import BlockScript.Proofs.Semantics.Evaluation

/-!
# Names are lexically scoped

Looking names up from the innermost scope outward comes to the same as going to the scope that
resolution has fixed for each occurrence. The two agree step by step on a program that has been
read, because the open scopes match the text around the place of execution all the time.
-/

namespace BlockScript

open Surroundings

variable {around : Surroundings}

/-! ## Expressions -/

namespace Evaluation

theorem agree_read (name : Token) :
    Agree around.Fits (read name) (readAt (around.level name.lexeme) name) around.Fits := by
  intro scopes fits
  constructor
  · rw [readAt, get_bind, fits.slotAt?_level]
    rfl
  · intro value left reply
    cases found : scopes.find? name.lexeme with
    | none =>
        rw [read_of_none found] at reply
        cases reply
    | some slot =>
        cases slot with
        | unset =>
            rw [read_of_unset found] at reply
            cases reply
        | holding stored =>
            rw [read_of_holding found] at reply
            cases reply
            exact fits

theorem agree_assign (name : Token) (value : Value) :
    Agree around.Fits (assign name value) (assignAt (around.level name.lexeme) name value)
      around.Fits := by
  intro scopes fits
  constructor
  · rw [assignAt, get_bind, fits.assignAt?_level]
    rfl
  · intro _ left reply
    cases assigned : scopes.assign? name.lexeme value with
    | none =>
        rw [assign_of_none assigned] at reply
        cases reply
    | some changed =>
        rw [assign_of_some assigned] at reply
        cases reply
        exact fits.assign? assigned

theorem agree_blame (token : Token) (outcome : Except RuntimeFault Value) :
    Agree around.Fits (blame token outcome) (blame token outcome) around.Fits := by
  cases outcome with
  | ok value => exact agree_pure value (fun _ fits => fits)
  | error fault => exact agree_throw _

theorem agree_connect (operator : Token) (value : Value) {right other : Evaluation Value}
    (agree : Agree around.Fits right other around.Fits) :
    Agree around.Fits (connect operator value right) (connect operator value other) around.Fits := by
  have decided : Agree around.Fits (pure value : Evaluation Value) (pure value) around.Fits :=
    agree_pure value (fun _ fits => fits)
  rw [connect, connect]
  split
  · split
    · exact decided
    · exact agree
  · split
    · exact agree
    · exact decided
  · exact agree_throw _

end Evaluation

/-- A resolved expression evaluates like the expression wherever the scopes match the text. -/
theorem Expr.agree_resolve (around : Surroundings) (expr : Expr) :
    Agree around.Fits expr.eval (expr.resolve around).eval around.Fits := by
  induction expr with
  | literal value => exact agree_pure value (fun _ fits => fits)
  | «variable» name => exact Evaluation.agree_read name
  | assign name value valueIH =>
      rw [eval, resolve, ResolvedExpr.eval]
      apply agree_bind valueIH
      intro result
      apply agree_bind (Evaluation.agree_assign name result)
      intro _
      exact agree_pure result (fun _ fits => fits)
  | unary operator operand operandIH =>
      rw [eval, resolve, ResolvedExpr.eval]
      apply agree_bind operandIH
      intro value
      exact Evaluation.agree_blame operator _
  | binary operator left right leftIH rightIH =>
      rw [eval, resolve, ResolvedExpr.eval]
      apply agree_bind leftIH
      intro leftValue
      apply agree_bind rightIH
      intro rightValue
      exact Evaluation.agree_blame operator _
  | logical operator left right leftIH rightIH =>
      rw [eval, resolve, ResolvedExpr.eval]
      apply agree_bind leftIH
      intro value
      exact Evaluation.agree_connect operator value rightIH
  | ternary question condition whenTrue whenFalse conditionIH trueIH falseIH =>
      rw [eval, resolve, ResolvedExpr.eval]
      apply agree_bind conditionIH
      intro value
      cases value with
      | boolean truth =>
          cases truth with
          | true => exact trueIH
          | false => exact falseIH
      | nil => exact agree_throw _
      | number value => exact agree_throw _
      | text value => exact agree_throw _
  | grouping inner innerIH => exact innerIH

/-! ## Statements -/

namespace Execution

theorem agree_eval (around : Surroundings) (expr : Expr) :
    Agree (OnScopes around.Fits) (eval expr) (onScopes (expr.resolve around).eval)
      (OnScopes around.Fits) := by
  rw [eval_eq_onScopes]
  exact agree_onScopes (expr.agree_resolve around)

end Execution

open Execution

/-- A statement that is no declaration may be said to keep what fits or to go past itself. -/
theorem agree_past {statement : Stmt} (noDeclaration : ∀ name, statement.declares name = false)
    {action other : Execution Completion}
    (agree : Agree (OnScopes around.Fits) action other (OnScopes around.Fits)) :
    Agree (OnScopes around.Fits) action other (OnScopes (around.past statement).Fits) := by
  apply agree.weaken
  intro machine fits
  exact (fits_past_iff noDeclaration).mpr fits

theorem Agree.ofPast {statement : Stmt} (noDeclaration : ∀ name, statement.declares name = false)
    {action other : Execution Completion}
    (agree : Agree (OnScopes around.Fits) action other (OnScopes (around.past statement).Fits)) :
    Agree (OnScopes around.Fits) action other (OnScopes around.Fits) := by
  apply agree.weaken
  intro machine fits
  exact (fits_past_iff noDeclaration).mp fits

mutual

/-- A resolved statement executes like the statement wherever the scopes match the text, and then
the scopes match the text after the statement. -/
theorem Stmt.agree_resolve (fuel : Nat) : (statement : Stmt) → statement.Placed →
    (around : Surroundings) →
    Agree (OnScopes around.Fits) (statement.exec fuel) ((statement.resolve around).exec fuel)
      (OnScopes (around.past statement).Fits)
  | .print value, _, around => by
      rw [exec, resolve, ResolvedStmt.exec]
      apply agree_past (fun _ => rfl)
      apply agree_bind (agree_eval around value)
      intro result
      apply agree_bind (agree_writeLine result.display)
      intro _
      exact agree_pure _ (fun _ fits => fits)
  | .expression value, _, around => by
      rw [exec, resolve, ResolvedStmt.exec]
      apply agree_past (fun _ => rfl)
      apply agree_bind (agree_eval around value)
      intro _
      exact agree_pure _ (fun _ fits => fits)
  | .declare name none, _, around => by
      rw [exec, resolve, Option.map_none, ResolvedStmt.exec]
      apply agree_bind (agree_declare fun _ fits => fits.declare name none .unset)
      intro _
      exact agree_pure _ (fun _ fits => fits)
  | .declare name (some initial), _, around => by
      rw [exec, resolve, Option.map_some, ResolvedStmt.exec]
      apply agree_bind (agree_eval around initial)
      intro value
      apply agree_bind (agree_declare fun _ fits => fits.declare name (some initial) (.holding value))
      intro _
      exact agree_pure _ (fun _ fits => fits)
  | .block body, placed, around => by
      rw [exec, resolve, ResolvedStmt.exec]
      apply agree_past (fun _ => rfl)
      apply agree_inScope (fun _ fits => fits.enter) (agree_resolveAll fuel body placed [] around)
      intro scopes closing
      rcases closing with ⟨declared, fits⟩
      exact fits.leave
  | .ifThen condition whenTrue, placed, around => by
      rw [exec, resolve, ResolvedStmt.exec]
      apply agree_past (fun _ => rfl)
      apply agree_bind (agree_eval around condition)
      intro value
      split
      · exact (agree_resolve fuel whenTrue placed.2 around).ofPast placed.1
      · exact agree_pure _ (fun _ fits => fits)
  | .ifElse condition whenTrue whenFalse, placed, around => by
      rw [exec, resolve, ResolvedStmt.exec]
      apply agree_past (fun _ => rfl)
      apply agree_bind (agree_eval around condition)
      intro value
      split
      · exact (agree_resolve fuel whenTrue placed.1.2 around).ofPast placed.1.1
      · exact (agree_resolve fuel whenFalse placed.2.2 around).ofPast placed.2.1
  | .whileLoop condition body, placed, around => by
      rw [exec, resolve, ResolvedStmt.exec, repeatWhile_eq_repeatWhen]
      apply agree_past (fun _ => rfl)
      have bodyAgrees := (agree_resolve fuel body placed.2 around).ofPast placed.1
      exact agree_repeatWhen (agree_eval around condition) bodyAgrees fuel
  | .breakLoop keyword, _, around => by
      rw [exec, resolve, ResolvedStmt.exec]
      apply agree_past (fun _ => rfl)
      exact agree_pure _ (fun _ fits => fits)

/-- The statements of a block execute like the resolved ones, and leave a scope that matches some of
them: all, or those up to a break. -/
theorem Stmt.agree_resolveAll (fuel : Nat) : (body : List Stmt) → AllPlaced body →
    (earlier : List Stmt) → (around : Surroundings) →
    Agree (OnScopes (Fits (earlier :: around))) (execAll fuel body)
      (ResolvedStmt.execAll fuel (resolveAll (earlier :: around) body))
      (OnScopes fun scopes => ∃ declared, Fits (declared :: around) scopes)
  | [], _, earlier, around => by
      rw [execAll, resolveAll, ResolvedStmt.execAll]
      exact agree_pure _ (fun _ fits => ⟨earlier, fits⟩)
  | statement :: rest, placed, earlier, around => by
      rw [execAll, resolveAll, ResolvedStmt.execAll]
      apply agree_bind (agree_resolve fuel statement placed.1 (earlier :: around))
      intro completion
      cases completion with
      | normal => exact agree_resolveAll fuel rest placed.2 (earlier ++ [statement]) around
      | breaking => exact agree_pure _ (fun _ fits => ⟨earlier ++ [statement], fits⟩)

end

/-! ## Programs -/

/-- The statements of a program, resolved. There is no block around them. -/
def Program.resolved (program : Program) : List ResolvedStmt :=
  Stmt.resolveAll [] program.statements

theorem agree_interpretResolved (fuel : Nat) {statements : List Stmt}
    (placed : Stmt.AllPlaced statements) :
    Agree (OnScopes (Fits [])) (interpret fuel statements)
      (interpretResolved fuel (Stmt.resolveAll [] statements)) (OnScopes (Fits [])) := by
  induction statements with
  | nil => exact agree_pure () (fun _ fits => fits)
  | cons statement rest inductionHypothesis =>
      rw [interpret, Stmt.resolveAll, interpretResolved]
      apply agree_bind (statement.agree_resolve fuel placed.1 [])
      intro _
      exact inductionHypothesis placed.2

/-- A program that has been read runs the same whether its names are looked up from the innermost
scope outward or in the scopes that resolution fixes, with any fuel, from any global scope and onto
any output. The same goes for each of its statements, with its completion. -/
theorem interpretResolved_eq_interpret (tokens : List Token) (fuel : Nat) (scope : Scope)
    (output : Sink) :
    interpretResolved fuel (Program.ofTokens tokens).resolved ⟨.global scope, output⟩ =
        interpret fuel (Program.ofTokens tokens).statements ⟨.global scope, output⟩ ∧
      ∀ statement ∈ (Program.ofTokens tokens).statements,
        (statement.resolve []).exec fuel ⟨.global scope, output⟩ =
          statement.exec fuel ⟨.global scope, output⟩ := by
  have placed := Program.allPlaced_ofTokens tokens
  have fits : OnScopes (Fits []) ⟨.global scope, output⟩ := True.intro
  constructor
  · exact (agree_interpretResolved fuel placed _ fits).1
  · intro statement member
    exact (statement.agree_resolve fuel (placed.of_mem member) [] _ fits).1

def shadowedName : Token :=
  ⟨.identifier, "a", none, 1⟩

/-- The tokens of a block that prints a variable, declares another one of the same name and prints
that. -/
def shadowing : List Token :=
  [⟨.mark .leftBrace, "", none, 1⟩,
    ⟨.keyword .printWord, "print", none, 1⟩, shadowedName, ⟨.mark .semicolon, ";", none, 1⟩,
    ⟨.keyword .varWord, "var", none, 1⟩, shadowedName, ⟨.mark .semicolon, ";", none, 1⟩,
    ⟨.keyword .printWord, "print", none, 1⟩, shadowedName, ⟨.mark .semicolon, ";", none, 1⟩,
    ⟨.mark .rightBrace, "", none, 1⟩, .finish 1]

/-- The block that these tokens are read as. -/
def shadowingBlock : Stmt :=
  .block [.print (.variable shadowedName), .declare shadowedName none,
    .print (.variable shadowedName)]

/-- The first use of the name is bound to the global scope and the second one to the block, and the
block executes accordingly. -/
theorem interpretResolved_shadowing :
    shadowingBlock ∈ (Program.ofTokens shadowing).statements ∧
      shadowingBlock.resolve [] = .block [.print (.variable shadowedName 0),
        .declare shadowedName none, .print (.variable shadowedName 1)] ∧
      (shadowingBlock.resolve []).exec 1
          ⟨.global (.binding "a" (.holding .nil) .empty), .empty⟩ =
        shadowingBlock.exec 1 ⟨.global (.binding "a" (.holding .nil) .empty), .empty⟩ := by
  have read : Program.ofTokens shadowing = ⟨[shadowingBlock], []⟩ := by
    cbv
  have member : shadowingBlock ∈ (Program.ofTokens shadowing).statements := by
    rw [read]
    exact List.mem_singleton.mpr rfl
  have same := interpretResolved_eq_interpret shadowing 1
    (.binding "a" (.holding .nil) .empty) .empty
  exact ⟨member, rfl, same.2 shadowingBlock member⟩

end BlockScript
