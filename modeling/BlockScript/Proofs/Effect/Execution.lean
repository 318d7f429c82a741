import BlockScript.Proofs.Effect.Change
import BlockScript.Proofs.Semantics.Evaluation

/-!
# What execution can change

An expression changes no more than the values of the names that it assigns to. A statement besides
binds the names of its declarations in the innermost scope; those of its blocks are gone with their
blocks. This holds whether a statement ends normally, with a break or with an error, since every
computation is put together from parts that keep to it however they end.
-/

namespace BlockScript

variable {mayAssign mayDeclare : String → Prop}

/-- Evaluation changes nothing but the values of the names that the expression assigns to. -/
theorem Evaluates.changes {expr : Expr} {before after : Scopes} {result : Except Failure Value}
    (evaluated : Evaluates expr before result after)
    (allowed : ∀ name ∈ expr.targets, mayAssign name) :
    before.Changes mayAssign mayDeclare after := by
  induction evaluated with
  | literal | «variable» | uninitialized | undefined => exact .refl _
  | grouping _ innerIH => exact innerIH allowed
  | assign _ assigned valueIH =>
      have ⟨targetAllowed, valueAllowed⟩ := List.forall_mem_cons.mp allowed
      have success := (Scopes.assigned_iff _ _ _ _).mp assigned
      exact (valueIH valueAllowed).trans (.assign? success targetAllowed)
  | assignUndefined _ _ valueIH | assignFails _ valueIH =>
      exact valueIH (List.forall_mem_cons.mp allowed).2
  | unary _ _ operandIH | unaryFails _ operandIH => exact operandIH allowed
  | binary _ _ _ leftIH rightIH | binaryFailsRight _ _ leftIH rightIH
  | deferred _ _ _ leftIH rightIH =>
      have ⟨leftAllowed, rightAllowed⟩ := List.forall_mem_append.mp allowed
      exact (leftIH leftAllowed).trans (rightIH rightAllowed)
  | binaryFailsLeft _ leftIH | decided _ _ leftIH | noConnective _ _ _ leftIH
  | logicalFails _ leftIH =>
      exact leftIH (List.forall_mem_append.mp allowed).1
  | chosenTrue _ _ conditionIH branchIH =>
      have ⟨conditionAllowed, branchesAllowed⟩ := List.forall_mem_append.mp allowed
      have branchAllowed := (List.forall_mem_append.mp branchesAllowed).1
      exact (conditionIH conditionAllowed).trans (branchIH branchAllowed)
  | chosenFalse _ _ conditionIH branchIH =>
      have ⟨conditionAllowed, branchesAllowed⟩ := List.forall_mem_append.mp allowed
      have branchAllowed := (List.forall_mem_append.mp branchesAllowed).2
      exact (conditionIH conditionAllowed).trans (branchIH branchAllowed)
  | notBoolean _ _ conditionIH | ternaryFails _ conditionIH =>
      exact conditionIH (List.forall_mem_append.mp allowed).1

/-- However the execution ends, it assigns to no other names than these, and in the scope that is
innermost at its start it declares no other names than those. -/
def Execution.Confined (mayAssign mayDeclare : String → Prop) (action : Execution α) : Prop :=
  ∀ before result after, action.Ends before result after →
    before.scopes.Changes mayAssign mayDeclare after.scopes

namespace Execution

theorem confined_pure (value : α) : (pure value : Execution α).Confined mayAssign mayDeclare := by
  intro before result after ends
  rw [((ends_pure value result).mp ends).2]
  exact .refl _

theorem confined_bind {action : Execution α} {next : α → Execution β}
    (first : action.Confined mayAssign mayDeclare)
    (second : ∀ value, (next value).Confined mayAssign mayDeclare) :
    (action >>= next).Confined mayAssign mayDeclare := by
  intro before result after ends
  obtain ⟨value, between, firstEnds, secondEnds⟩ | ⟨failure, _, failed⟩ :=
    (ends_bind action next result).mp ends
  · exact (first _ _ _ firstEnds).trans (second value _ _ _ secondEnds)
  · exact first _ _ _ failed

theorem confined_eval {expr : Expr} (allowed : ∀ name ∈ expr.targets, mayAssign name) :
    (eval expr).Confined mayAssign mayDeclare := by
  intro before result after ends
  have evaluated := evaluates_of_ends expr ((ends_eval expr result).mp ends).1
  exact evaluated.changes allowed

theorem confined_writeLine (line : String) : (writeLine line).Confined mayAssign mayDeclare := by
  intro before result after ends
  rw [((ends_writeLine line result).mp ends).2.1]
  exact .refl _

theorem confined_declare {name : String} (slot : Slot) (allowed : mayDeclare name) :
    (declare name slot).Confined mayAssign mayDeclare := by
  intro before result after ends
  rw [((ends_declare name slot result).mp ends).2.1]
  exact .declare before.scopes slot allowed

theorem confined_inScope {mayDeclareInside : String → Prop} {body : Execution α}
    (bodyConfined : body.Confined mayAssign mayDeclareInside) :
    (inScope body).Confined mayAssign mayDeclare := by
  intro before result after ends
  obtain ⟨inside, bodyEnds, isAfter⟩ := (ends_inScope body result).mp ends
  rw [isAfter]
  exact (bodyConfined _ _ _ bodyEnds).inScope

theorem confined_repeatWhile {condition : Expr} {body : Execution Completion}
    (allowed : ∀ name ∈ condition.targets, mayAssign name)
    (bodyConfined : body.Confined mayAssign mayDeclare) (fuel : Nat) :
    (repeatWhile condition body fuel).Confined mayAssign mayDeclare := by
  induction fuel with
  | zero =>
      intro before result after ends
      exact absurd ends (not_ends_repeatWhile_zero condition body before result after)
  | succ fuel inductionHypothesis =>
      rw [repeatWhile]
      apply confined_bind (confined_eval allowed)
      intro value
      split
      · apply confined_bind bodyConfined
        intro completion
        cases completion with
        | normal => exact inductionHypothesis
        | breaking => exact confined_pure _
      · exact confined_pure _

end Execution

open Execution

mutual

/-- A statement assigns to the names that it assigns to in its text, and declares the names that it
declares outside of its blocks. -/
theorem Stmt.confined_exec (fuel : Nat) : (statement : Stmt) → {mayDeclare : String → Prop} →
    (∀ name ∈ statement.targets, mayAssign name) →
    (∀ name ∈ statement.exposed, mayDeclare name) →
    (statement.exec fuel).Confined mayAssign mayDeclare
  | .print value, _, assigns, _ => by
      rw [exec]
      apply confined_bind (confined_eval assigns)
      intro result
      exact confined_bind (confined_writeLine _) fun _ => confined_pure _
  | .expression value, _, assigns, _ => by
      rw [exec]
      exact confined_bind (confined_eval assigns) fun _ => confined_pure _
  | .declare name none, mayDeclare, _, declares => by
      rw [exec]
      have allowed : mayDeclare name.lexeme := declares _ (List.mem_singleton.mpr rfl)
      exact confined_bind (confined_declare _ allowed) fun _ => confined_pure _
  | .declare name (some initial), mayDeclare, assigns, declares => by
      rw [exec]
      apply confined_bind (confined_eval assigns)
      intro value
      have allowed : mayDeclare name.lexeme := declares _ (List.mem_singleton.mpr rfl)
      exact confined_bind (confined_declare _ allowed) fun _ => confined_pure _
  | .block body, _, assigns, _ => by
      rw [exec]
      exact confined_inScope (confined_execAll fuel body assigns)
  | .ifThen condition whenTrue, _, assigns, declares => by
      rw [exec]
      have ⟨conditionAssigns, trueAssigns⟩ := List.forall_mem_append.mp assigns
      apply confined_bind (confined_eval conditionAssigns)
      intro value
      split
      · exact confined_exec fuel whenTrue trueAssigns declares
      · exact confined_pure _
  | .ifElse condition whenTrue whenFalse, _, assigns, declares => by
      rw [exec]
      have ⟨conditionAssigns, branchesAssign⟩ := List.forall_mem_append.mp assigns
      have ⟨trueAssigns, falseAssigns⟩ := List.forall_mem_append.mp branchesAssign
      have ⟨trueDeclares, falseDeclares⟩ := List.forall_mem_append.mp declares
      apply confined_bind (confined_eval conditionAssigns)
      intro value
      split
      · exact confined_exec fuel whenTrue trueAssigns trueDeclares
      · exact confined_exec fuel whenFalse falseAssigns falseDeclares
  | .whileLoop condition body, _, assigns, declares => by
      rw [exec]
      have ⟨conditionAssigns, bodyAssigns⟩ := List.forall_mem_append.mp assigns
      exact confined_repeatWhile conditionAssigns
        (confined_exec fuel body bodyAssigns declares) fuel
  | .breakLoop _, _, _, _ => by
      rw [exec]
      exact confined_pure _

/-- Inside of a block anything may be declared. -/
theorem Stmt.confined_execAll (fuel : Nat) : (body : List Stmt) →
    (∀ name ∈ targetsOf body, mayAssign name) →
    (execAll fuel body).Confined mayAssign fun _ => True
  | [], _ => by
      rw [execAll]
      exact confined_pure _
  | statement :: rest, assigns => by
      rw [execAll]
      have ⟨firstAssigns, restAssigns⟩ := List.forall_mem_append.mp assigns
      have first : (statement.exec fuel).Confined mayAssign fun _ => True :=
        confined_exec fuel statement firstAssigns fun _ _ => True.intro
      apply confined_bind first
      intro completion
      cases completion with
      | normal => exact confined_execAll fuel rest restAssigns
      | breaking => exact confined_pure _

end

theorem confined_interpret (fuel : Nat) (program : List Stmt) :
    (interpret fuel program).Confined (fun _ => True) (fun _ => True) := by
  induction program with
  | nil => exact confined_pure _
  | cons statement rest inductionHypothesis =>
      rw [interpret]
      have first := statement.confined_exec fuel (fun _ _ => True.intro) fun _ _ => True.intro
      exact confined_bind first fun _ => inductionHypothesis

/-! ## The discipline of scopes -/

/-- What becomes of the open scopes when these names, and no other ones, may be declared in the
innermost of them. -/
structure Scopes.Disciplined (declared : List String) (before after : Scopes) : Prop where
  /-- As many scopes are open. -/
  depth_eq : after.depth = before.depth
  /-- A scope that is not the innermost one binds the same names. -/
  names_eq : ∀ level < before.depth, ∀ name,
    (after.slotAt? level name).isSome = (before.slotAt? level name).isSome
  /-- What holds a value there goes on to hold one. -/
  initialized : ∀ level < before.depth, ∀ name value,
    before.slotAt? level name = some (.holding value) →
      ∃ current, after.slotAt? level name = some (.holding current)
  /-- The innermost scope still binds what it has bound. -/
  bound : ∀ name, (before.slotAt? before.depth name).isSome = true →
    (after.slotAt? before.depth name).isSome = true
  /-- It binds nothing else but names that may be declared in it. -/
  declared : ∀ name, (after.slotAt? before.depth name).isSome = true →
    (before.slotAt? before.depth name).isSome = true ∨ name ∈ declared

theorem Scopes.Changes.disciplined {declared : List String} {before after : Scopes}
    (changes : before.Changes mayAssign (· ∈ declared) after) :
    before.Disciplined declared after where
  depth_eq := changes.depth_eq
  names_eq level outward name :=
    (changes.slots level (Nat.le_of_lt outward) name).isSome_eq
      fun innermost => Nat.ne_of_lt outward innermost.1
  initialized level outward name _ held :=
    (changes.slots level (Nat.le_of_lt outward) name).holding
      (fun innermost => Nat.ne_of_lt outward innermost.1) held
  bound name isBound := (changes.slots before.depth (Nat.le_refl _) name).isSome isBound
  declared name isBound :=
    ((changes.slots before.depth (Nat.le_refl _) name).isSome_or_declared isBound).imp_right
      And.right

/-- Evaluation binds and unbinds nothing in any scope. A statement, however it ends, leaves the
scopes that it finds, with the same names but for those that it declares in the innermost scope
itself. A program ends as deep as it has begun. -/
theorem disciplined_execution :
    (∀ (expr : Expr) (before : Scopes) (result : Except Failure Value) (after : Scopes),
      expr.eval.Ends before result after → after.depth = before.depth ∧
        ∀ level ≤ before.depth, ∀ name,
          (after.slotAt? level name).isSome = (before.slotAt? level name).isSome) ∧
    (∀ (fuel : Nat) (statement : Stmt) (before : Machine) (result : Except Failure Completion)
      (after : Machine), (statement.exec fuel).Ends before result after →
        before.scopes.Disciplined statement.exposed after.scopes) ∧
    (∀ (fuel : Nat) (program : List Stmt) (before : Machine) (result : Except Failure Unit)
      (after : Machine), (interpret fuel program).Ends before result after →
        after.scopes.depth = before.scopes.depth) := by
  refine ⟨?evaluation, ?execution, ?interpretation⟩
  case evaluation =>
    intro expr before result after ends
    have changes : before.Changes (fun _ => True) (fun _ => False) after :=
      (evaluates_of_ends expr ends).changes fun _ _ => True.intro
    refine ⟨changes.depth_eq, fun level existing name => ?_⟩
    exact (changes.slots level existing name).isSome_eq And.right
  case execution =>
    intro fuel statement before result after ends
    have confined : (statement.exec fuel).Confined (fun _ => True) (· ∈ statement.exposed) :=
      statement.confined_exec fuel (fun _ _ => True.intro) fun _ member => member
    exact (confined _ _ _ ends).disciplined
  case interpretation =>
    intro fuel program before result after ends
    exact (confined_interpret fuel program _ _ _ ends).depth_eq

/-- A block that declares a name, gives a value to another one and then fails, in a block of its
own. -/
def failingBlock : Stmt :=
  .block [.declare ⟨.identifier, "b", none, 1⟩ none,
    .expression (.assign ⟨.identifier, "a", none, 1⟩ (.literal .nil)),
    .block [.expression (.unary ⟨.mark .minus, "-", none, 2⟩ (.literal .nil))]]

/-- An open block that declares nothing, inside of a global scope with one variable. -/
def openBlock (slot : Slot) : Scopes :=
  .inner .empty (.global (.binding "a" slot .empty))

/-- The failure that the block ends in. -/
def negatedNil : Failure :=
  ⟨⟨.mark .minus, "-", none, 2⟩, "Operand must be a number."⟩

/-- The error takes both blocks with it and leaves the assignment. -/
theorem disciplined_failingBlock :
    (((Expr.assign ⟨.identifier, "a", none, 1⟩ (.literal .nil)).eval.Ends (openBlock .unset)
        (.ok .nil) (openBlock (.holding .nil))) ∧
      ((openBlock (.holding .nil)).slotAt? 0 "a").isSome =
        ((openBlock .unset).slotAt? 0 "a").isSome) ∧
    ((failingBlock.exec 1).Ends ⟨openBlock .unset, .empty⟩ (.error negatedNil)
        ⟨openBlock (.holding .nil), .empty⟩ ∧
      (openBlock .unset).Disciplined [] (openBlock (.holding .nil))) ∧
    (interpret 1 [failingBlock]).Ends ⟨openBlock .unset, .empty⟩ (.error negatedNil)
        ⟨openBlock (.holding .nil), .empty⟩ ∧
      (openBlock (.holding .nil)).depth = (openBlock .unset).depth := by
  have evaluation := disciplined_execution.1
    (.assign ⟨.identifier, "a", none, 1⟩ (.literal .nil)) (openBlock .unset) (.ok .nil)
    (openBlock (.holding .nil)) ⟨rfl, rfl⟩
  have execution := disciplined_execution.2.1 1 failingBlock ⟨openBlock .unset, .empty⟩
    (.error negatedNil) ⟨openBlock (.holding .nil), .empty⟩ ⟨_, rfl, rfl, rfl⟩
  have interpretation := disciplined_execution.2.2 1 [failingBlock] ⟨openBlock .unset, .empty⟩
    (.error negatedNil) ⟨openBlock (.holding .nil), .empty⟩ ⟨_, rfl, rfl, rfl⟩
  exact ⟨⟨⟨rfl, rfl⟩, evaluation.2 0 (Nat.zero_le _) "a"⟩, ⟨⟨_, rfl, rfl, rfl⟩, execution⟩,
    ⟨_, rfl, rfl, rfl⟩, interpretation⟩

end BlockScript
