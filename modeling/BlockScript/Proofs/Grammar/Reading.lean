import BlockScript.Grammar.Statement

/-!
# What replies say

A reply is indexed by the tokens that its rule was given, and carries proofs about the unread ones.
The two predicates of this module speak of the unread tokens as a plain list: `Reply.Yields` says
that a rule was followed to its end, and `Reply.Accepts` says that it was so without a fault. There
is one lemma for each way to build a reply, so that nothing else has to look inside.
-/

namespace BlockScript

variable {α β : Type} {least first : Nat} {input : List Token}

namespace Rest

/-- Unread tokens are determined as a list. -/
theorem ext {left right : Rest least input} (same : left.tokens = right.tokens) : left = right := by
  cases left
  cases right
  cases same
  rfl

end Rest

namespace Reply

/-- The reply has a value, with these faults noted and these tokens unread. -/
def Yields (reply : Reply α least input) (value : α) (noted : List SyntaxError)
    (unread : List Token) : Prop :=
  ∃ rest, reply = .parsed value noted rest ∧ rest.tokens = unread

/-- The reply has a value, without any fault and with these tokens unread. -/
def Accepts (reply : Reply α least input) (value : α) (unread : List Token) : Prop :=
  reply.Yields value [] unread

variable {value : α} {result : β} {noted : List SyntaxError} {unread : List Token}

@[simp] theorem yields_parsed {other : α} {faults : List SyntaxError} {rest : Rest least input} :
    (parsed other faults rest).Yields value noted unread ↔
      other = value ∧ faults = noted ∧ rest.tokens = unread := by
  constructor
  · intro yields
    rcases yields with ⟨further, same, rfl⟩
    cases same
    exact ⟨rfl, rfl, rfl⟩
  · intro same
    rcases same with ⟨rfl, rfl, rfl⟩
    exact ⟨rest, rfl, rfl⟩

@[simp] theorem not_yields_failed {error : SyntaxError} {faults : List SyntaxError}
    {rest : Rest 0 input} :
    ¬(failed error faults rest : Reply α least input).Yields value noted unread := by
  intro yields
  rcases yields with ⟨further, same, -⟩
  cases same

@[simp] theorem not_yields_fail {finish : Token} {fault : SyntaxFault} :
    ¬(fail finish input fault : Reply α least input).Yields value noted unread :=
  not_yields_failed

@[simp] theorem yields_done {other : α} :
    (done other : Reply α 0 input).Yields value noted unread ↔
      other = value ∧ [] = noted ∧ input = unread :=
  yields_parsed

@[simp] theorem yields_map {f : α → β} {reply : Reply α least input} :
    (reply.map f).Yields result noted unread ↔
      ∃ value, reply.Yields value noted unread ∧ f value = result := by
  cases reply with
  | parsed other faults rest =>
      simp only [map, yields_parsed]
      constructor
      · intro same
        rcases same with ⟨rfl, rfl, rfl⟩
        exact ⟨other, ⟨rfl, rfl, rfl⟩, rfl⟩
      · intro yields
        rcases yields with ⟨value, ⟨rfl, rfl, rfl⟩, rfl⟩
        exact ⟨rfl, rfl, rfl⟩
  | failed error faults rest => simp [map]

@[simp] theorem yields_within {rest : Rest first input} {reply : Reply α least rest.tokens} :
    (within rest reply).Yields value noted unread ↔ reply.Yields value noted unread := by
  cases reply with
  | parsed other faults further => simp [within]
  | failed error faults further => simp [within]

@[simp] theorem yields_past {token : Token} {reply : Reply α least input} :
    (past token reply).Yields value noted unread ↔ reply.Yields value noted unread := by
  cases reply with
  | parsed other faults rest => simp [past]
  | failed error faults rest => simp [past]

@[simp] theorem yields_note {error : SyntaxError} {reply : Reply α least input} :
    (reply.note error).Yields value noted unread ↔
      ∃ earlier, reply.Yields value earlier unread ∧ earlier ++ [error] = noted := by
  cases reply with
  | parsed other faults rest =>
      simp only [note, yields_parsed]
      constructor
      · intro same
        rcases same with ⟨rfl, rfl, rfl⟩
        exact ⟨faults, ⟨rfl, rfl, rfl⟩, rfl⟩
      · intro yields
        rcases yields with ⟨earlier, ⟨rfl, rfl, rfl⟩, rfl⟩
        exact ⟨rfl, rfl, rfl⟩
  | failed stopping faults rest => simp [note]

@[simp] theorem yields_noteFirst {earlier : List SyntaxError} {reply : Reply α least input} :
    (reply.noteFirst earlier).Yields value noted unread ↔
      ∃ later, reply.Yields value later unread ∧ earlier ++ later = noted := by
  cases reply with
  | parsed other faults rest =>
      simp only [noteFirst, yields_parsed]
      constructor
      · intro same
        rcases same with ⟨rfl, rfl, rfl⟩
        exact ⟨faults, ⟨rfl, rfl, rfl⟩, rfl⟩
      · intro yields
        rcases yields with ⟨later, ⟨rfl, rfl, rfl⟩, rfl⟩
        exact ⟨rfl, rfl, rfl⟩
  | failed stopping faults rest => simp [noteFirst]

/-- Two rules in a row yield what the second one yields on what the first one left. -/
theorem yields_bind {reply : Reply α first input}
    {next : α → (rest : Rest first input) → Reply β least rest.tokens} :
    (reply.bind next).Yields result noted unread ↔
      ∃ value earlier later, ∃ rest : Rest first input, reply.Yields value earlier rest.tokens ∧
        (next value rest).Yields result later unread ∧ earlier ++ later = noted := by
  cases reply with
  | failed error faults rest => simp [bind]
  | parsed other faults rest =>
      constructor
      · intro yields
        cases reached : next other rest with
        | failed error further last => simp [bind, reached] at yields
        | parsed made further last =>
            simp only [bind, reached, yields_parsed, Rest.tokens_trans] at yields
            rcases yields with ⟨rfl, rfl, rfl⟩
            exact ⟨other, faults, further, rest, by simp, by simp [reached], rfl⟩
      · intro inRow
        rcases inRow with ⟨value, earlier, later, same, read, continued, rfl⟩
        rcases yields_parsed.mp read with ⟨rfl, rfl, unreadSame⟩
        cases Rest.ext unreadSame
        rcases continued with ⟨last, reached, rfl⟩
        simp [bind, reached]

/-! ## Acceptance -/

@[simp] theorem accepts_done {other : α} :
    (done other : Reply α 0 input).Accepts value unread ↔ other = value ∧ input = unread := by
  simp [Accepts]

@[simp] theorem accepts_parsed {other : α} {rest : Rest least input} :
    (parsed other [] rest).Accepts value unread ↔ other = value ∧ rest.tokens = unread := by
  simp [Accepts]

@[simp] theorem not_accepts_failed {error : SyntaxError} {faults : List SyntaxError}
    {rest : Rest 0 input} :
    ¬(failed error faults rest : Reply α least input).Accepts value unread :=
  not_yields_failed

@[simp] theorem not_accepts_fail {finish : Token} {fault : SyntaxFault} :
    ¬(fail finish input fault : Reply α least input).Accepts value unread :=
  not_yields_fail

@[simp] theorem not_accepts_note {error : SyntaxError} {reply : Reply α least input} :
    ¬(reply.note error).Accepts value unread := by
  simp [Accepts]

@[simp] theorem accepts_noteFirst_nil {reply : Reply α least input} :
    (reply.noteFirst []).Accepts value unread ↔ reply.Accepts value unread := by
  simp [Accepts]

@[simp] theorem accepts_map {f : α → β} {reply : Reply α least input} :
    (reply.map f).Accepts result unread ↔ ∃ value, reply.Accepts value unread ∧ f value = result :=
  yields_map

@[simp] theorem accepts_within {rest : Rest first input} {reply : Reply α least rest.tokens} :
    (within rest reply).Accepts value unread ↔ reply.Accepts value unread :=
  yields_within

@[simp] theorem accepts_past {token : Token} {reply : Reply α least input} :
    (past token reply).Accepts value unread ↔ reply.Accepts value unread :=
  yields_past

theorem accepts_bind {reply : Reply α first input}
    {next : α → (rest : Rest first input) → Reply β least rest.tokens} :
    (reply.bind next).Accepts result unread ↔
      ∃ value, ∃ rest : Rest first input, reply.Accepts value rest.tokens ∧
        (next value rest).Accepts result unread := by
  constructor
  · intro accepts
    rcases yields_bind.mp accepts with ⟨value, earlier, later, rest, read, continued, none⟩
    rcases List.append_eq_nil_iff.mp none with ⟨rfl, rfl⟩
    exact ⟨value, rest, read, continued⟩
  · intro inRow
    rcases inRow with ⟨value, rest, read, continued⟩
    exact yields_bind.mpr ⟨value, [], [], rest, read, continued, rfl⟩

/-- To accept by two rules in a row, it is enough that the second one accepts whatever way the first
one came to leave its unread tokens. -/
theorem Accepts.bind {reply : Reply α first input}
    {next : α → (rest : Rest first input) → Reply β least rest.tokens} {middle : List Token}
    (read : reply.Accepts value middle)
    (continued : ∀ rest : Rest first input, rest.tokens = middle →
      (next value rest).Accepts result unread) :
    (reply.bind next).Accepts result unread := by
  rcases read with ⟨rest, same, left⟩
  exact accepts_bind.mpr ⟨value, rest, ⟨rest, same, rfl⟩, continued rest left⟩

end Reply

namespace Recovered

def Accepts (recovered : Recovered α least input) (value : α) (unread : List Token) : Prop :=
  recovered.value = value ∧ recovered.noted = [] ∧ recovered.rest.tokens = unread

/-- Recovery is for failed replies: without a fault, what was recovered is what was replied. -/
theorem accepts_recover {token : Token} {after unread : List Token} {value : Option α}
    {reply : Reply α 1 (token :: after)} :
    reply.recover.Accepts value unread ↔ ∃ tree, value = some tree ∧ reply.Accepts tree unread := by
  cases reply with
  | parsed tree noted rest =>
      simp only [Reply.recover, Accepts, Reply.Accepts, Reply.yields_parsed]
      constructor
      · intro same
        rcases same with ⟨rfl, rfl, rfl⟩
        exact ⟨tree, rfl, rfl, rfl, rfl⟩
      · intro recovered
        rcases recovered with ⟨other, rfl, rfl, rfl, rfl⟩
        exact ⟨rfl, rfl, rfl⟩
  | failed error noted rest => simp [Reply.recover, Accepts]

end Recovered

/-! ## Reading one token -/

/-- The next token is taken exactly if there is one of the wanted kind. -/
theorem next?_eq_some {wanted : Kind → Bool} {token : Token} {after : Rest 1 input} :
    next? wanted input = some (token, after) ↔
      wanted token.kind = true ∧ input = token :: after.tokens := by
  cases input with
  | nil => simp [next?]
  | cons head tail =>
      by_cases same : wanted head.kind = true
      · simp only [next?, same, if_true, Option.some.injEq, Prod.mk.injEq]
        constructor
        · intro same
          rcases same with ⟨rfl, rfl⟩
          exact ⟨same, rfl⟩
        · intro begins
          rcases begins with ⟨-, split⟩
          rcases List.cons.inj split with ⟨rfl, rest⟩
          exact ⟨rfl, Rest.ext rest⟩
      · simp only [next?, same, Bool.false_eq_true, if_false, reduceCtorEq, false_iff]
        intro begins
        rcases begins with ⟨wantedKind, split⟩
        rcases List.cons.inj split with ⟨rfl, -⟩
        exact same wantedKind

theorem next?_kind_eq_some {wanted : Kind} {token : Token} {after : Rest 1 input} :
    next? (· == wanted) input = some (token, after) ↔
      token.kind = wanted ∧ input = token :: after.tokens := by
  rw [next?_eq_some, beq_iff_eq]

theorem next?_eq_none {wanted : Kind → Bool} :
    next? wanted input = none ↔ ∀ token ∈ input.head?, wanted token.kind = false := by
  cases input with
  | nil => simp [next?]
  | cons head tail => by_cases same : wanted head.kind = true <;> simp [next?, same]

theorem next?_kind_of_eq_cons {wanted : Kind} {token : Token} {after : List Token}
    (split : input = token :: after) (isWanted : token.kind = wanted) :
    ∃ rest : Rest 1 input,
      next? (· == wanted) input = some (token, rest) ∧ rest.tokens = after := by
  subst split
  exact ⟨.tail token after, by simp [next?, isWanted], rfl⟩

theorem next?_cons {wanted : Kind → Bool} {token : Token} (after : List Token)
    (taken : wanted token.kind = true) :
    next? wanted (token :: after) = some (token, .tail token after) := by
  simp [next?, taken]

/-- A required token yields itself, and nothing can be noted about it. -/
theorem yields_expect {finish token : Token} {expected : Expected} {noted : List SyntaxError}
    {unread : List Token} :
    (expect finish expected input).Yields token noted unread ↔
      token.kind = expected.kind ∧ noted = [] ∧ input = token :: unread := by
  cases found : next? (· == expected.kind) input with
  | none =>
      simp only [expect, found, Reply.not_yields_fail, false_iff]
      intro begins
      rcases begins with ⟨kind, -, rfl⟩
      have absent := next?_eq_none.mp found token rfl
      simp [kind] at absent
  | some pair =>
      rcases pair with ⟨head, after⟩
      rcases next?_kind_eq_some.mp found with ⟨kind, split⟩
      simp only [expect, found, Reply.yields_parsed]
      constructor
      · intro same
        rcases same with ⟨rfl, rfl, rfl⟩
        exact ⟨kind, rfl, split⟩
      · intro begins
        rcases begins with ⟨-, rfl, same⟩
        rcases List.cons.inj (split.symm.trans same) with ⟨rfl, rest⟩
        exact ⟨rfl, rfl, rest⟩

theorem accepts_expect {finish token : Token} {expected : Expected} {unread : List Token} :
    (expect finish expected input).Accepts token unread ↔
      token.kind = expected.kind ∧ input = token :: unread := by
  simp [Reply.Accepts, yields_expect]

theorem accepts_expect_bind {finish : Token} {expected : Expected} {result : β}
    {unread : List Token} {next : Token → (rest : Rest 1 input) → Reply β least rest.tokens} :
    ((expect finish expected input).bind next).Accepts result unread ↔
      ∃ token, ∃ rest : Rest 1 input, token.kind = expected.kind ∧ input = token :: rest.tokens ∧
        (next token rest).Accepts result unread := by
  simp only [Reply.accepts_bind, accepts_expect, and_assoc]

theorem accepts_expect_map {finish : Token} {expected : Expected} {result : β} {f : Token → β}
    {unread : List Token} :
    ((expect finish expected input).map f).Accepts result unread ↔
      ∃ token, token.kind = expected.kind ∧ input = token :: unread ∧ f token = result := by
  simp only [Reply.accepts_map, accepts_expect, and_assoc]

/-! ## Reading a statement by its first token -/

/-- A statement that no keyword and no brace introduces is an expression statement. -/
theorem Grammar.statement_of_other {finish : Token} {inLoop : Bool} {token : Token}
    {after : List Token}
    (notIf : token.kind ≠ .keyword .ifWord) (notPrint : token.kind ≠ .keyword .printWord)
    (notBrace : token.kind ≠ .mark .leftBrace) (notWhile : token.kind ≠ .keyword .whileWord)
    (notFor : token.kind ≠ .keyword .forWord) (notBreak : token.kind ≠ .keyword .breakWord)
    (notContinue : token.kind ≠ .keyword .continueWord) :
    statement finish inLoop (token :: after) = expressionStatement finish (token :: after) := by
  rw [statement]
  split
  all_goals first | contradiction | rfl

end BlockScript
