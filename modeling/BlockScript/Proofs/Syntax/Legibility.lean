import BlockScript.Proofs.Failure.Provenance
import BlockScript.Proofs.Source.Spelling
import BlockScript.Proofs.Syntax.ReadBack

/-!
# Trees that are read from source texts

The trees of the grammar keep tokens as operators and names, and the values of tokens as literals.
If the tokens are spelled as source texts spell them, a tree says more than its type does: its names
are no keywords, its operators are what operators are spelled as, and its literals are values that
pieces of text write. All that is needed of the numbers is that they are finite.
-/

namespace BlockScript

/-! ## Tokens -/

/-- The token is one of a source text, and if it is a number then a finite one. -/
structure Token.Legible (token : Token) : Prop where
  spelled : token.Spelled
  finite : ∀ number, token.literal = some (.number number) → number.isFinite = true

namespace Piece.Writes

variable {piece : Piece} {value : Value}

theorem unique {other : Value} (writes : piece.Writes value) (otherWrites : piece.Writes other) :
    value = other := by
  cases writes <;> cases otherWrites <;> rfl

/-- Nothing but a number can keep a literal from being shown as one. -/
theorem isWritten (writes : piece.Writes value)
    (finite : ∀ number, value = .number number → number.isFinite = true) : value.IsWritten := by
  cases writes with
  | nilWord | trueWord | falseWord => exact True.intro
  | numeral => exact finite _ rfl
  | quoted spelled =>
      cases spelled with
      | quoted unquoted => simpa [Value.IsWritten] using unquoted

/-- A literal is shown as a piece that writes it, not always the one that it was read from. -/
theorem exists_shown (writes : piece.Writes value) (isWritten : value.IsWritten) :
    ∃ shown : Piece, shown.Writes value ∧ value.toSExpression = .atom shown.lexeme := by
  cases writes with
  | nilWord => exact ⟨_, .nilWord, rfl⟩
  | trueWord => exact ⟨_, .trueWord, rfl⟩
  | falseWord => exact ⟨_, .falseWord, rfl⟩
  | @numeral whole fraction spelled =>
      obtain ⟨shownWhole, shownFraction, shownSpelled, isText, sameNumber⟩ :=
        Number.text_eq_numeral isWritten (Number.toBits_ofDigits_lt_signBit whole fraction)
      refine ⟨.numeral shownWhole shownFraction, ?_, congrArg SExpression.atom isText⟩
      rw [← sameNumber]
      exact .numeral shownSpelled
  | @quoted contents spelled =>
      refine ⟨_, .quoted spelled, congrArg SExpression.atom ?_⟩
      apply String.toList_injective
      simp [lexeme, text]

end Piece.Writes

/-! ## Trees -/

/-- The token is one of a source text, and of a wanted kind. -/
structure Token.SpelledAs (wanted : Kind → Bool) (token : Token) : Prop where
  spelled : token.Spelled
  wanted : wanted token.kind = true

/-- All tokens of the expression are those of source texts, of kinds that can stand there, and all
literals are values that are written as they are shown. -/
inductive Expr.Legible : Expr → Prop where
  | literal {value : Value} {piece : Piece} (writes : piece.Writes value)
      (isWritten : value.IsWritten) : Legible (.literal value)
  | variable {name : Token} (named : name.SpelledAs (· == .identifier)) : Legible (.variable name)
  | assign {name : Token} {value : Expr} (named : name.SpelledAs (· == .identifier))
      (legible : value.Legible) : Legible (.assign name value)
  | unary {operator : Token} {operand : Expr} (operates : operator.SpelledAs Kind.isUnaryOperator)
      (legible : operand.Legible) : Legible (.unary operator operand)
  | binary {operator : Token} {left right : Expr}
      (operates : operator.SpelledAs Kind.isBinaryOperator) (leftLegible : left.Legible)
      (rightLegible : right.Legible) : Legible (.binary operator left right)
  | logical {operator : Token} {left right : Expr}
      (operates : operator.SpelledAs Kind.isConnective) (leftLegible : left.Legible)
      (rightLegible : right.Legible) : Legible (.logical operator left right)
  | ternary {question : Token} {condition whenTrue whenFalse : Expr}
      (asks : question.SpelledAs (· == .mark .question)) (conditionLegible : condition.Legible)
      (trueLegible : whenTrue.Legible) (falseLegible : whenFalse.Legible) :
      Legible (.ternary question condition whenTrue whenFalse)
  | grouping {inner : Expr} (legible : inner.Legible) : Legible (.grouping inner)

/-- All tokens and all literals of the statement are such as source texts hold. -/
inductive Stmt.Legible : Stmt → Prop where
  | print {value : Expr} (legible : value.Legible) : Legible (.print value)
  | expression {value : Expr} (legible : value.Legible) : Legible (.expression value)
  | declare {name : Token} {initial : Option Expr} (named : name.SpelledAs (· == .identifier))
      (legible : ∀ value ∈ initial, value.Legible) : Legible (.declare name initial)
  | block {body : List Stmt} (legible : ∀ tree ∈ body, tree.Legible) : Legible (.block body)
  | ifThen {condition : Expr} {whenTrue : Stmt} (conditionLegible : condition.Legible)
      (trueLegible : whenTrue.Legible) : Legible (.ifThen condition whenTrue)
  | ifElse {condition : Expr} {whenTrue whenFalse : Stmt} (conditionLegible : condition.Legible)
      (trueLegible : whenTrue.Legible) (falseLegible : whenFalse.Legible) :
      Legible (.ifElse condition whenTrue whenFalse)
  | whileLoop {condition : Expr} {body : Stmt} (conditionLegible : condition.Legible)
      (bodyLegible : body.Legible) : Legible (.whileLoop condition body)
  | breakLoop {keyword : Token} (named : keyword.SpelledAs (· == .keyword .breakWord)) :
      Legible (.breakLoop keyword)

/-! ## Phrases -/

namespace Token.Legible

variable {token : Token}

theorem spelledAs (legible : token.Legible) {kind : Kind} (isKind : token.kind = kind)
    {wanted : Kind → Bool} (isWanted : wanted kind = true) : token.SpelledAs wanted :=
  ⟨legible.spelled, isKind ▸ isWanted⟩

theorem literal (legible : token.Legible) (isLiteral : token.kind = .number ∨ token.kind = .text) :
    (Expr.literal token.value).Legible := by
  obtain ⟨spelled, finite⟩ := legible
  cases spelled with
  | number spelled line =>
      have writes := Piece.Writes.numeral spelled
      refine .literal writes (writes.isWritten ?_)
      intro number isNumber
      cases isNumber
      exact finite _ rfl
  | text spelled line =>
      have writes := Piece.Writes.quoted spelled
      exact .literal writes (writes.isWritten nofun)
  | mark | keyword | name | finish =>
      rcases isLiteral with isLiteral | isLiteral <;> cases isLiteral

end Token.Legible

theorem Phrase.legible {level : Level} {tokens : List Token} {tree : Expr}
    (phrase : Phrase level tokens tree) :
    (∀ token ∈ tokens, token.Legible) → tree.Legible := by
  induction phrase with
  | assign isName _ _ valueIH =>
      intro legible
      obtain ⟨name, _, value⟩ := by simpa only [List.forall_mem_cons] using legible
      exact .assign (name.spelledAs isName rfl) (valueIH value)
  | or _ isOperator _ leftIH rightIH | and _ isOperator _ leftIH rightIH =>
      intro legible
      obtain ⟨left, operator, right⟩ := by
        simpa only [List.forall_mem_append, List.forall_mem_cons] using legible
      exact .logical (operator.spelledAs isOperator rfl) (leftIH left) (rightIH right)
  | equality _ isOperator _ leftIH rightIH | sum _ isOperator _ leftIH rightIH
  | product _ isOperator _ leftIH rightIH =>
      intro legible
      obtain ⟨left, operator, right⟩ := by
        simpa only [List.forall_mem_append, List.forall_mem_cons] using legible
      rcases isOperator with kind | kind <;>
        exact .binary (operator.spelledAs kind rfl) (leftIH left) (rightIH right)
  | comparison _ isOperator _ leftIH rightIH =>
      intro legible
      obtain ⟨left, operator, right⟩ := by
        simpa only [List.forall_mem_append, List.forall_mem_cons] using legible
      rcases isOperator with kind | kind | kind | kind <;>
        exact .binary (operator.spelledAs kind rfl) (leftIH left) (rightIH right)
  | ternary _ isQuestion _ _ _ conditionIH trueIH falseIH =>
      intro legible
      obtain ⟨condition, question, whenTrue, _, whenFalse⟩ := by
        simpa only [List.forall_mem_append, List.forall_mem_cons] using legible
      exact .ternary (question.spelledAs isQuestion rfl) (conditionIH condition)
        (trueIH whenTrue) (falseIH whenFalse)
  | unary isOperator _ operandIH =>
      intro legible
      obtain ⟨operator, operand⟩ := List.forall_mem_cons.mp legible
      rcases isOperator with kind | kind <;>
        exact .unary (operator.spelledAs kind rfl) (operandIH operand)
  | trueWord => exact fun _ => .literal .trueWord True.intro
  | falseWord => exact fun _ => .literal .falseWord True.intro
  | nilWord => exact fun _ => .literal .nilWord True.intro
  | number kind => exact fun legible => (legible _ List.mem_cons_self).literal (.inl kind)
  | text kind => exact fun legible => (legible _ List.mem_cons_self).literal (.inr kind)
  | «variable» kind =>
      exact fun legible => .variable ((legible _ List.mem_cons_self).spelledAs kind rfl)
  | grouping _ _ _ innerIH =>
      intro legible
      obtain ⟨_, inner, _⟩ := by
        simpa only [List.forall_mem_append, List.forall_mem_cons] using legible
      exact .grouping (innerIH inner)
  -- What is left are phrases of a level that count as phrases of a looser one.
  | _ => assumption

section Phrases

variable {tokens : List Token}

theorem DeclarationPhrase.legible {tree : Stmt} (phrase : DeclarationPhrase tokens tree)
    (legible : ∀ token ∈ tokens, token.Legible) : tree.Legible := by
  cases phrase with
  | bare _ isName _ =>
      obtain ⟨_, name, _⟩ := by simpa only [List.forall_mem_cons] using legible
      exact .declare (name.spelledAs isName rfl) nofun
  | initialized _ isName _ initial _ =>
      obtain ⟨_, name, _, value, _⟩ := by
        simpa only [List.forall_mem_append, List.forall_mem_cons] using legible
      refine .declare (name.spelledAs isName rfl) ?_
      intro other isInitial
      cases isInitial
      exact initial.legible value

theorem ExpressionPhrase.legible {tree : Stmt} (phrase : ExpressionPhrase tokens tree)
    (legible : ∀ token ∈ tokens, token.Legible) : tree.Legible := by
  cases phrase with
  | terminated value _ => exact .expression (value.legible (List.forall_mem_append.mp legible).1)

theorem ConditionPhrase.legible {tree : Expr} (phrase : ConditionPhrase tokens tree)
    (legible : ∀ token ∈ tokens, token.Legible) : tree.Legible := by
  cases phrase with
  | parenthesized _ value _ =>
      obtain ⟨_, inner, _⟩ := by
        simpa only [List.forall_mem_append, List.forall_mem_cons] using legible
      exact value.legible inner

theorem InitialClause.legible {tree : Option Stmt} (clause : InitialClause tokens tree)
    (legible : ∀ token ∈ tokens, token.Legible) : ∀ first ∈ tree, first.Legible := by
  intro first isFirst
  cases clause with
  | absent => cases isFirst
  | declaration phrase =>
      cases isFirst
      exact phrase.legible legible
  | expression phrase =>
      cases isFirst
      exact phrase.legible legible

theorem OptionalPhrase.legible {tree : Option Expr} (phrase : OptionalPhrase tokens tree)
    (legible : ∀ token ∈ tokens, token.Legible) : ∀ value ∈ tree, value.Legible := by
  intro value isValue
  cases phrase with
  | absent => cases isValue
  | present phrase =>
      cases isValue
      exact phrase.legible legible

end Phrases

theorem LoopTree.legible {initial : Option Stmt} {condition increment : Option Expr}
    {body tree : Stmt} (loop : LoopTree initial condition increment body tree) :
    (∀ first ∈ initial, first.Legible) → (∀ value ∈ condition, value.Legible) →
      (∀ value ∈ increment, value.Legible) → body.Legible → tree.Legible := by
  induction loop with
  | endless => exact fun _ _ _ bodyLegible => .whileLoop (.literal .trueWord True.intro) bodyLegible
  | tested => exact fun _ tested _ bodyLegible => .whileLoop (tested _ rfl) bodyLegible
  | stepped _ inductionHypothesis =>
      intro noInitial tested stepped bodyLegible
      have incrementLegible : Stmt.Legible (.expression _) := .expression (stepped _ rfl)
      refine inductionHypothesis noInitial tested nofun (.block ?_)
      exact List.forall_mem_cons.mpr ⟨bodyLegible, List.forall_mem_singleton.mpr incrementLegible⟩
  | started _ inductionHypothesis =>
      intro started tested stepped bodyLegible
      have loop := inductionHypothesis nofun tested stepped bodyLegible
      exact .block (List.forall_mem_cons.mpr ⟨started _ rfl, List.forall_mem_singleton.mpr loop⟩)

mutual

theorem Sentence.legible {inLoop dangling : Bool} {tokens : List Token} {tree : Stmt} :
    Sentence inLoop dangling tokens tree → (∀ token ∈ tokens, token.Legible) → tree.Legible
  | .ifThen _ condition whenTrue, legible => by
      obtain ⟨_, test, body⟩ := by
        simpa only [List.forall_mem_append, List.forall_mem_cons] using legible
      exact .ifThen (condition.legible test) (whenTrue.legible body)
  | .ifElse _ condition whenTrue _ whenFalse, legible => by
      obtain ⟨_, test, first, _, second⟩ := by
        simpa only [List.forall_mem_append, List.forall_mem_cons] using legible
      exact .ifElse (condition.legible test) (whenTrue.legible first) (whenFalse.legible second)
  | .print _ value _, legible => by
      obtain ⟨_, inner, _⟩ := by
        simpa only [List.forall_mem_append, List.forall_mem_cons] using legible
      exact .print (value.legible inner)
  | .block _ body _, legible => by
      obtain ⟨_, inner, _⟩ := by
        simpa only [List.forall_mem_append, List.forall_mem_cons] using legible
      exact .block (body.legible inner)
  | .whileLoop _ condition body, legible => by
      obtain ⟨_, test, inner⟩ := by
        simpa only [List.forall_mem_append, List.forall_mem_cons] using legible
      exact .whileLoop (condition.legible test) (body.legible inner)
  | .forLoop _ _ initial condition _ increment _ body loop, legible => by
      obtain ⟨_, _, start, test, _, step, _, inner⟩ := by
        simpa only [List.forall_mem_append, List.forall_mem_cons] using legible
      exact loop.legible (initial.legible start) (condition.legible test)
        (increment.legible step) (body.legible inner)
  | .breakLoop isBreak _, legible =>
      .breakLoop ((legible _ List.mem_cons_self).spelledAs isBreak rfl)
  | .expression statement, legible => statement.legible legible

theorem Sentences.legible {inLoop : Bool} {tokens : List Token} {trees : List Stmt} :
    Sentences inLoop tokens trees → (∀ token ∈ tokens, token.Legible) →
      ∀ tree ∈ trees, tree.Legible
  | .nil, _ => nofun
  | .declaration phrase rest, legible => by
      obtain ⟨first, others⟩ := List.forall_mem_append.mp legible
      exact List.forall_mem_cons.mpr ⟨phrase.legible first, rest.legible others⟩
  | .statement sentence rest, legible => by
      obtain ⟨first, others⟩ := List.forall_mem_append.mp legible
      exact List.forall_mem_cons.mpr ⟨sentence.legible first, rest.legible others⟩

end

def Lexed.Finite (source : String) : Prop :=
  ∀ token ∈ (ofText source).tokens, ∀ number, token.literal = some (.number number) →
    number.isFinite = true

theorem Program.legible_ofText {source : String} (clean : History.isClean source = true)
    (finite : Lexed.Finite source) : ∀ tree ∈ (ofText source).statements, tree.Legible := by
  have faultless := (isClean_iff.mp clean).2
  rw [ofText, Lexed.tokens_eq_append_finish] at faultless ⊢
  have phrase := phrase_of_errors_eq_nil rfl
    (fun _ => Lexed.kind_ne_finish_of_mem_dropLast) faultless
  apply phrase.legible
  intro token member
  have inText := List.dropLast_subset _ member
  exact ⟨Lexed.spelled_of_mem inText, finite token inText⟩

end BlockScript
