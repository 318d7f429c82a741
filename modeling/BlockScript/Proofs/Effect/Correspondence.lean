import BlockScript.Proofs.Effect.Change

/-!
# Machines that programs cannot tell apart

A program sees of the open scopes what it finds and what it can assign to, and it sees nothing of
the output. Machines that agree in that much stay in agreement as long as the program does the same
on both of them, and then it does the same on both of them. What agreement is may depend on how many
scopes have been opened since it began.
-/

namespace BlockScript

variable {ε σ α β : Type} {related : σ → σ → Prop}

/-- Two replies have the same value or the same stop, and leave related states. -/
inductive Alike (related : σ → σ → Prop) :
    EStateM.Result ε σ α → EStateM.Result ε σ α → Prop where
  | ok {left right : σ} (value : α) (leave : related left right) :
      Alike related (.ok value left) (.ok value right)
  | error {left right : σ} (stop : ε) (leave : related left right) :
      Alike related (.error stop left) (.error stop right)

/-- The computation replies alike in related states. -/
def Respects (related : σ → σ → Prop) (action : EStateM ε σ α) : Prop :=
  ∀ left right, related left right → Alike related (action left) (action right)

theorem respects_pure (value : α) : Respects related (pure value : EStateM ε σ α) := by
  intro left right states
  exact .ok value states

theorem respects_throw (stop : ε) : Respects related (throw stop : EStateM ε σ α) := by
  intro left right states
  exact .error stop states

theorem respects_bind {action : EStateM ε σ α} {next : α → EStateM ε σ β}
    (first : Respects related action) (second : ∀ value, Respects related (next value)) :
    Respects related (action >>= next) := by
  intro left right states
  have replies := first left right states
  simp only [bind, EStateM.bind]
  generalize action left = leftReply, action right = rightReply at replies ⊢
  cases replies with
  | ok value leave => exact second value _ _ leave
  | error stop leave => exact .error stop leave

/-- What is done with the state may depend on it, if it is done alike with related ones. -/
theorem respects_get_bind {next : σ → EStateM ε σ α}
    (alike : ∀ left right, related left right → Alike related (next left left) (next right right)) :
    Respects related (get >>= next) :=
  alike

theorem respects_blame {related : Scopes → Scopes → Prop} (token : Token)
    (outcome : Except RuntimeFault Value) : Respects related (Evaluation.blame token outcome) := by
  cases outcome with
  | ok value => exact respects_pure value
  | error fault => exact respects_throw _

/-- Agreement between stacks of scopes, for each number of scopes opened since it began, and between
outputs. Declarations need to keep it only in scopes that were opened since. -/
structure Correspondence (scopes : Nat → Scopes → Scopes → Prop)
    (output : Sink → Sink → Prop) : Prop where
  find? : ∀ {inside left right}, scopes inside left right → ∀ name,
    right.find? name = left.find? name
  assign? : ∀ {inside left right}, scopes inside left right → ∀ name value,
    Option.Rel (scopes inside) (left.assign? name value) (right.assign? name value)
  declare : ∀ {inside left right}, scopes (inside + 1) left right → ∀ name slot,
    scopes (inside + 1) (left.declare name slot) (right.declare name slot)
  enter : ∀ {inside left right}, scopes inside left right →
    scopes (inside + 1) left.enter right.enter
  leave : ∀ {inside left right}, scopes (inside + 1) left right →
    scopes inside left.leave right.leave
  writeLine : ∀ {left right}, output left right → ∀ line,
    output (left.writeLine line) (right.writeLine line)

namespace Correspondence

variable {scopes : Nat → Scopes → Scopes → Prop} {output : Sink → Sink → Prop} {inside : Nat}

structure Machines (scopes : Nat → Scopes → Scopes → Prop) (output : Sink → Sink → Prop)
    (inside : Nat) (left right : Machine) : Prop where
  scopes : scopes inside left.scopes right.scopes
  output : output left.output right.output

variable (correspondence : Correspondence scopes output)

include correspondence

/-! ## Evaluation -/

theorem respects_read (name : Token) : Respects (scopes inside) (Evaluation.read name) := by
  apply respects_get_bind
  intro left right states
  rw [correspondence.find? states name.lexeme]
  cases left.find? name.lexeme with
  | none => exact .error _ states
  | some slot =>
      cases slot with
      | unset => exact .error _ states
      | holding value => exact .ok value states

theorem respects_assign (name : Token) (value : Value) :
    Respects (scopes inside) (Evaluation.assign name value) := by
  apply respects_get_bind
  intro left right states
  have assigned := correspondence.assign? states name.lexeme value
  generalize left.assign? name.lexeme value = leftAfter,
    right.assign? name.lexeme value = rightAfter at assigned ⊢
  cases assigned with
  | none => exact .error _ states
  | some states => exact .ok () states

theorem respects_evaluate (expr : Expr) : Respects (scopes inside) expr.eval := by
  induction expr with
  | literal value => exact respects_pure value
  | «variable» name => exact correspondence.respects_read name
  | assign name value valueIH =>
      apply respects_bind valueIH
      intro result
      exact respects_bind (correspondence.respects_assign name result) fun _ => respects_pure result
  | unary operator operand operandIH =>
      apply respects_bind operandIH
      intro value
      exact respects_blame operator _
  | binary operator left right leftIH rightIH =>
      apply respects_bind leftIH
      intro leftValue
      apply respects_bind rightIH
      intro rightValue
      exact respects_blame operator _
  | logical operator left right leftIH rightIH =>
      apply respects_bind leftIH
      intro leftValue
      split
      · split
        · exact respects_pure leftValue
        · exact rightIH
      · split
        · exact rightIH
        · exact respects_pure leftValue
      · exact respects_throw _
  | ternary question condition whenTrue whenFalse conditionIH trueIH falseIH =>
      apply respects_bind conditionIH
      intro value
      split
      · exact trueIH
      · exact falseIH
      · exact respects_throw _
  | grouping inner innerIH => exact innerIH

/-! ## Execution -/

theorem respects_eval (expr : Expr) :
    Respects (Machines scopes output inside) (Execution.eval expr) := by
  intro left right machines
  have replies := correspondence.respects_evaluate expr left.scopes right.scopes machines.scopes
  simp only [Execution.eval]
  generalize expr.eval left.scopes = leftReply, expr.eval right.scopes = rightReply at replies ⊢
  cases replies with
  | ok value states => exact .ok value ⟨states, machines.output⟩
  | error fault states => exact .error _ ⟨states, machines.output⟩

theorem respects_writeLine (line : String) :
    Respects (Machines scopes output inside) (Execution.writeLine line) := by
  intro left right machines
  exact .ok () ⟨machines.scopes, correspondence.writeLine machines.output line⟩

theorem respects_declare (name : String) (slot : Slot) :
    Respects (Machines scopes output (inside + 1)) (Execution.declare name slot) := by
  intro left right machines
  exact .ok () ⟨correspondence.declare machines.scopes name slot, machines.output⟩

theorem respects_inScope {body : Execution α}
    (bodyRespects : Respects (Machines scopes output (inside + 1)) body) :
    Respects (Machines scopes output inside) (Execution.inScope body) := by
  intro left right machines
  have replies := bodyRespects ⟨left.scopes.enter, left.output⟩ ⟨right.scopes.enter, right.output⟩
    ⟨correspondence.enter machines.scopes, machines.output⟩
  simp only [Execution.inScope]
  generalize body ⟨left.scopes.enter, left.output⟩ = leftReply,
    body ⟨right.scopes.enter, right.output⟩ = rightReply at replies ⊢
  cases replies with
  | ok result inside =>
      exact .ok result ⟨correspondence.leave inside.scopes, inside.output⟩
  | error stop inside =>
      exact .error stop ⟨correspondence.leave inside.scopes, inside.output⟩

theorem respects_repeatWhile (condition : Expr) {body : Execution Completion}
    (bodyRespects : Respects (Machines scopes output inside) body) (fuel : Nat) :
    Respects (Machines scopes output inside) (Execution.repeatWhile condition body fuel) := by
  induction fuel with
  | zero => exact respects_throw _
  | succ fuel inductionHypothesis =>
      rw [Execution.repeatWhile]
      apply respects_bind (correspondence.respects_eval condition)
      intro value
      split
      · apply respects_bind bodyRespects
        intro completion
        cases completion with
        | normal => exact inductionHypothesis
        | breaking => exact respects_pure _
      · exact respects_pure _

end Correspondence

open Correspondence

variable {scopes : Nat → Scopes → Scopes → Prop} {output : Sink → Sink → Prop}

mutual

/-- A statement does the same on machines that agree, unless it declares names in a scope that was
open before the agreement began. -/
theorem Stmt.respects_exec (correspondence : Correspondence scopes output) (fuel : Nat) :
    (statement : Stmt) → {inside : Nat} → (inside = 0 → statement.exposed = []) →
    Respects (Machines scopes output inside) (statement.exec fuel)
  | .print value, _, _ => by
      rw [exec]
      apply respects_bind (correspondence.respects_eval value)
      intro result
      exact respects_bind (correspondence.respects_writeLine _) fun _ => respects_pure _
  | .expression value, _, _ => by
      rw [exec]
      exact respects_bind (correspondence.respects_eval value) fun _ => respects_pure _
  | .declare name initial, 0, enclosed => by
      cases enclosed rfl
  | .declare name none, inside + 1, _ => by
      rw [exec]
      exact respects_bind (correspondence.respects_declare _ _) fun _ => respects_pure _
  | .declare name (some initial), inside + 1, _ => by
      rw [exec]
      apply respects_bind (correspondence.respects_eval initial)
      intro value
      exact respects_bind (correspondence.respects_declare _ _) fun _ => respects_pure _
  | .block body, _, _ => by
      rw [exec]
      exact correspondence.respects_inScope
        (respects_execAll correspondence fuel body fun opened => nomatch opened)
  | .ifThen condition whenTrue, _, enclosed => by
      rw [exec]
      apply respects_bind (correspondence.respects_eval condition)
      intro value
      split
      · exact respects_exec correspondence fuel whenTrue enclosed
      · exact respects_pure _
  | .ifElse condition whenTrue whenFalse, _, enclosed => by
      rw [exec]
      apply respects_bind (correspondence.respects_eval condition)
      intro value
      split
      · exact respects_exec correspondence fuel whenTrue fun atStart =>
          (List.append_eq_nil_iff.mp (enclosed atStart)).1
      · exact respects_exec correspondence fuel whenFalse fun atStart =>
          (List.append_eq_nil_iff.mp (enclosed atStart)).2
  | .whileLoop condition body, _, enclosed => by
      rw [exec]
      exact correspondence.respects_repeatWhile condition
        (respects_exec correspondence fuel body enclosed) fuel
  | .breakLoop _, _, _ => by
      rw [exec]
      exact respects_pure _

theorem Stmt.respects_execAll (correspondence : Correspondence scopes output) (fuel : Nat) :
    (body : List Stmt) → {inside : Nat} →
    (inside = 0 → ∀ statement ∈ body, statement.exposed = []) →
    Respects (Machines scopes output inside) (execAll fuel body)
  | [], _, _ => by
      rw [execAll]
      exact respects_pure _
  | statement :: rest, _, enclosed => by
      rw [execAll]
      have first := respects_exec correspondence fuel statement fun atStart =>
        enclosed atStart statement List.mem_cons_self
      apply respects_bind first
      intro completion
      cases completion with
      | normal =>
          exact respects_execAll correspondence fuel rest fun atStart other member =>
            enclosed atStart other (List.mem_cons_of_mem statement member)
      | breaking => exact respects_pure _

end

/-- Machines with the same scopes agree if writing keeps the agreement between their outputs. -/
theorem correspondence_ofOutput
    (writeLine : ∀ {left right}, output left right → ∀ line,
      output (left.writeLine line) (right.writeLine line)) :
    Correspondence (fun _ => Eq) output where
  find? same _ := by rw [same]
  assign? same name value := by
    rw [same]
    cases Scopes.assign? name value _ with
    | none => exact .none
    | some assigned => exact .some rfl
  declare same name slot := congrArg (Scopes.declare name slot) same
  enter same := congrArg Scopes.enter same
  leave same := congrArg Scopes.leave same
  writeLine := writeLine

/-- Programs do the same on machines that they cannot tell apart at any depth. -/
theorem respects_interpret (correspondence : Correspondence scopes output) (fuel inside : Nat)
    (program : List Stmt) :
    Respects (Machines scopes output (inside + 1)) (interpret fuel program) := by
  induction program with
  | nil => exact respects_pure ()
  | cons statement rest inductionHypothesis =>
      rw [interpret]
      have first : Respects (Machines scopes output (inside + 1)) (statement.exec fuel) :=
        statement.respects_exec correspondence fuel fun isZero => absurd isZero inside.succ_ne_zero
      exact respects_bind first fun _ => inductionHypothesis

end BlockScript
