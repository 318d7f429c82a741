import BlockScript.Proofs.Resolution.Execution

/-!
# Two computations that agree

Two computations agree under a precondition if they give the same reply on every state that meets
it, and a postcondition holds of the state whenever they succeed. Agreement is put together from the
parts of the computations, so that the states in between need not be looked at.
-/

namespace BlockScript

variable {ε σ α β : Type}

/-- The computations give the same replies on what meets the precondition, and leave what meets the
postcondition. What they leave behind when they stop short does not matter. -/
def Agree (before : σ → Prop) (action other : EStateM ε σ α) (after : σ → Prop) : Prop :=
  ∀ state, before state → other state = action state ∧
    ∀ value left, action state = .ok value left → after left

section Building

variable {before between after : σ → Prop}

theorem agree_pure (value : α) (follows : ∀ state, before state → after state) :
    Agree before (pure value : EStateM ε σ α) (pure value) after := by
  intro state met
  constructor
  · rfl
  · intro result left reply
    cases reply
    exact follows state met

theorem agree_throw (stop : ε) : Agree before (throw stop : EStateM ε σ α) (throw stop) after := by
  intro state met
  constructor
  · rfl
  · intro result left reply
    cases reply

theorem agree_bind {action other : EStateM ε σ α} {next further : α → EStateM ε σ β}
    (first : Agree before action other between)
    (second : ∀ value, Agree between (next value) (further value) after) :
    Agree before (action >>= next) (other >>= further) after := by
  intro state met
  rcases first state met with ⟨same, kept⟩
  simp only [bind, EStateM.bind, same]
  cases reply : action state with
  | ok value left => exact second value left (kept value left reply)
  | error stop left =>
      constructor
      · rfl
      · intro result final absurd
        cases absurd

/-- Less may be asked for afterwards. -/
theorem Agree.weaken {action other : EStateM ε σ α} {weaker : σ → Prop}
    (agree : Agree before action other after) (follows : ∀ state, after state → weaker state) :
    Agree before action other weaker := by
  intro state met
  rcases agree state met with ⟨same, kept⟩
  exact ⟨same, fun value left reply => follows left (kept value left reply)⟩

end Building

namespace Execution

/-- A condition on the open scopes, as one on the machine. -/
abbrev OnScopes (condition : Scopes → Prop) (machine : Machine) : Prop :=
  condition machine.scopes

variable {before inside after : Scopes → Prop}

theorem agree_onScopes {evaluation other : Evaluation α}
    (agree : Agree before evaluation other after) :
    Agree (OnScopes before) (onScopes evaluation) (onScopes other) (OnScopes after) := by
  intro machine met
  rcases agree machine.scopes met with ⟨same, kept⟩
  constructor
  · simp only [onScopes, same]
  · intro value left reply
    rw [onScopes] at reply
    cases evaluated : evaluation machine.scopes with
    | ok result final =>
        rw [evaluated] at reply
        cases reply
        exact kept value final evaluated
    | error error final =>
        rw [evaluated] at reply
        cases reply

theorem agree_writeLine (line : String) :
    Agree (OnScopes before) (writeLine line) (writeLine line) (OnScopes before) := by
  intro machine met
  constructor
  · rfl
  · intro result left reply
    cases reply
    exact met

theorem agree_declare {name : String} {slot : Slot}
    (follows : ∀ scopes, before scopes → after (scopes.declare name slot)) :
    Agree (OnScopes before) (declare name slot) (declare name slot) (OnScopes after) := by
  intro machine met
  constructor
  · rfl
  · intro result left reply
    cases reply
    exact follows machine.scopes met

/-- Computations that agree inside of a scope of their own agree from outside of it. -/
theorem agree_inScope {opened closing : Scopes → Prop} {body other : Execution α}
    (entering : ∀ scopes, before scopes → opened scopes.enter)
    (agree : Agree (OnScopes opened) body other (OnScopes closing))
    (leaving : ∀ scopes, closing scopes → after scopes.leave) :
    Agree (OnScopes before) (inScope body) (inScope other) (OnScopes after) := by
  intro machine met
  rcases agree ⟨machine.scopes.enter, machine.output⟩ (entering _ met) with ⟨same, kept⟩
  constructor
  · simp only [inScope, same]
  · intro value left reply
    rw [inScope] at reply
    cases ended : body ⟨machine.scopes.enter, machine.output⟩ with
    | ok result final =>
        rw [ended] at reply
        cases reply
        exact leaving final.scopes (kept value final ended)
    | error stop final =>
        rw [ended] at reply
        cases reply

/-- Repetitions agree if their tests and their bodies agree and keep what they need. -/
theorem agree_repeatWhen {invariant : Machine → Prop} {test otherTest : Execution Value}
    {body otherBody : Execution Completion} (testAgrees : Agree invariant test otherTest invariant)
    (bodyAgrees : Agree invariant body otherBody invariant) (fuel : Nat) :
    Agree invariant (repeatWhen test body fuel) (repeatWhen otherTest otherBody fuel) invariant := by
  induction fuel with
  | zero => exact agree_throw _
  | succ fuel inductionHypothesis =>
      rw [repeatWhen, repeatWhen]
      apply agree_bind testAgrees
      intro value
      split
      · apply agree_bind bodyAgrees
        intro completion
        cases completion with
        | normal => exact inductionHypothesis
        | breaking => exact agree_pure _ (fun _ met => met)
      · exact agree_pure _ (fun _ met => met)

end Execution

end BlockScript
