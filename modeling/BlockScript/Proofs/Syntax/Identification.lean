import BlockScript.Proofs.Syntax.Legibility
import BlockScript.Proofs.Syntax.UniqueReading

/-!
# The text of a tree identifies the tree

A legible tree can be told from the text that shows it, but for the lines of its tokens. The text
tells the s-expression, since atoms are pieces of text and heads are operators or words. The
s-expression tells the tree: no name is spelled as a literal, no operator as a head that stands for
something else, and a minus sign with one operand is not one with two.
-/

namespace BlockScript

open SExpression (IsAtom isPlain)

/-! ## Atoms and heads -/

theorem isPlain_of_continuesWord {char : Char} (continues : continuesWord char = true) :
    isPlain char = true := by
  by_contra notPlain
  have special : char = ' ' ∨ char = '(' ∨ char = ')' ∨ char = '"' := by
    simp only [isPlain, Bool.and_eq_true, bne_iff_ne, not_and_or, not_not, or_assoc] at notPlain
    exact notPlain
  rcases special with rfl | rfl | rfl | rfl <;> cases continues

theorem isPlain_of_isDigit {char : Char} (digit : isDigit char = true) : isPlain char = true :=
  isPlain_of_continuesWord (by simp [continuesWord, digit])

namespace Piece.Spelled

theorem isPlain_word {letters : List Char} (spelled : (Piece.word letters).Spelled) :
    ∀ char ∈ letters, isPlain char = true := by
  cases spelled with
  | word starts continues =>
      refine List.forall_mem_cons.mpr ⟨?_, fun char member => ?_⟩
      · exact isPlain_of_continuesWord (by simp [continuesWord, starts])
      · exact isPlain_of_continuesWord (continues char member)

theorem isPlain_numeral {whole fraction : List Char}
    (spelled : (Piece.numeral whole fraction).Spelled) :
    ∀ char ∈ (Piece.numeral whole fraction).text, isPlain char = true := by
  cases spelled with
  | numeral digits places =>
      have plainDigits := fun char member => isPlain_of_isDigit (digits char member)
      have plainPlaces := fun char member => isPlain_of_isDigit (places char member)
      cases fraction with
      | nil => exact plainDigits
      | cons =>
          exact List.forall_mem_append.mpr ⟨plainDigits, List.forall_mem_cons.mpr ⟨rfl, plainPlaces⟩⟩

end Piece.Spelled

theorem Piece.Writes.isAtom {piece : Piece} {value : Value} (writes : piece.Writes value) :
    IsAtom piece.text := by
  have spelled := writes.spelled
  cases writes with
  | nilWord | trueWord | falseWord => exact .plain (List.cons_ne_nil _ _) spelled.isPlain_word
  | numeral => exact .plain spelled.text_ne_nil spelled.isPlain_numeral
  | quoted =>
      cases spelled with
      | quoted unquoted => exact .quoted unquoted

namespace Token.SpelledAs

variable {wanted : Kind → Bool} {token : Token}

theorem kind_ne (as : token.SpelledAs wanted) {kind : Kind} (unwanted : wanted kind = false) :
    token.kind ≠ kind := by
  intro isKind
  have isWanted := as.wanted
  rw [isKind, unwanted] at isWanted
  cases isWanted

/-- What is neither a parenthesis nor a string is spelled plainly. -/
theorem isPlain_lexeme (as : token.SpelledAs wanted)
    (noLeft : wanted (.mark .leftParen) = false) (noRight : wanted (.mark .rightParen) = false)
    (noText : wanted .text = false) : ∀ char ∈ token.lexeme.toList, isPlain char = true := by
  have notLeft := as.kind_ne noLeft
  have notRight := as.kind_ne noRight
  have notText := as.kind_ne noText
  cases as.spelled with
  | mark sign line =>
      rw [String.toList_ofList]
      cases sign
      case leftParen => exact absurd rfl notLeft
      case rightParen => exact absurd rfl notRight
      all_goals exact List.all_eq_true.mp rfl
  | keyword reserved line => exact reserved.spelled_word.isPlain_word
  | name spelled => simpa using spelled.isPlain_word
  | number spelled => simpa [Piece.lexeme] using spelled.isPlain_numeral
  | text => exact absurd rfl notText
  | finish => exact List.forall_mem_nil _

theorem isAtom (as : token.SpelledAs (· == .identifier)) : IsAtom token.lexeme.toList := by
  have plain := as.isPlain_lexeme rfl rfl rfl
  refine .plain ?_ plain
  obtain ⟨spelled, isName⟩ := as
  cases spelled with
  | name spelled => simpa [Piece.text] using spelled.text_ne_nil
  | _ => cases isName

end Token.SpelledAs

/-! ## S-expressions of legible trees -/

theorem Expr.Legible.toSExpression {expr : Expr} (legible : expr.Legible) :
    expr.toSExpression.Legible := by
  induction legible with
  | literal writes isWritten =>
      obtain ⟨shown, shownWrites, isShown⟩ := writes.exists_shown isWritten
      rw [Expr.toSExpression, isShown]
      exact .atom (by simpa [Piece.lexeme] using shownWrites.isAtom)
  | «variable» named => exact .atom named.isAtom
  | assign named _ valueIH =>
      refine .node (List.all_eq_true.mp rfl) ?_
      simpa using ⟨.atom named.isAtom, valueIH⟩
  | unary operates _ operandIH =>
      exact .node (operates.isPlain_lexeme rfl rfl rfl) (by simpa using operandIH)
  | binary operates _ _ leftIH rightIH | logical operates _ _ leftIH rightIH =>
      exact .node (operates.isPlain_lexeme rfl rfl rfl) (by simpa using ⟨leftIH, rightIH⟩)
  | ternary _ _ _ _ conditionIH trueIH falseIH =>
      exact .node (List.all_eq_true.mp rfl) (by simpa using ⟨conditionIH, trueIH, falseIH⟩)
  | grouping _ innerIH => exact .node (List.all_eq_true.mp rfl) (by simpa using innerIH)

theorem Stmt.Legible.toSExpression {statement : Stmt} (legible : statement.Legible) :
    statement.toSExpression.Legible := by
  induction legible with
  | print legible | expression legible =>
      exact .node (List.all_eq_true.mp rfl) (by simpa using legible.toSExpression)
  | @declare name initial named legible =>
      cases initial with
      | none => exact .node (List.all_eq_true.mp rfl) (by simpa using .atom named.isAtom)
      | some value =>
          refine .node (List.all_eq_true.mp rfl) ?_
          simpa using ⟨.atom named.isAtom, (legible value rfl).toSExpression⟩
  | block _ bodyIH => exact .node (List.all_eq_true.mp rfl) (by simpa using bodyIH)
  | ifThen condition _ trueIH =>
      exact .node (List.all_eq_true.mp rfl) (by simpa using ⟨condition.toSExpression, trueIH⟩)
  | ifElse condition _ _ trueIH falseIH =>
      refine .node (List.all_eq_true.mp rfl) ?_
      simpa using ⟨condition.toSExpression, trueIH, falseIH⟩
  | whileLoop condition _ bodyIH =>
      exact .node (List.all_eq_true.mp rfl) (by simpa using ⟨condition.toSExpression, bodyIH⟩)
  | breakLoop => exact .node (List.all_eq_true.mp rfl) nofun

/-! ## Trees of legible s-expressions -/

/-- Tokens that are spelled alike are of one kind. -/
theorem Token.Spelled.kind_eq {left right : Token} (leftSpelled : left.Spelled)
    (rightSpelled : right.Spelled) (same : left.lexeme = right.lexeme) :
    left.kind = right.kind := by
  simpa using congrArg Token.kind (leftSpelled.unique rightSpelled same)

theorem Token.SpelledAs.lexeme_ne_name {wanted : Kind → Bool} {token : Token}
    (as : token.SpelledAs wanted) (noName : wanted .identifier = false) {letters : List Char}
    (spelled : (Piece.word letters).Spelled)
    (free : Kind.ofWord (.ofList letters) = .identifier) : token.lexeme ≠ .ofList letters := by
  intro same
  exact as.kind_ne noName (as.spelled.kind_eq (.name spelled free 0) same)

section Operators

variable {wanted : Kind → Bool} {operator : Token} (operates : operator.SpelledAs wanted)
  (noName : wanted .identifier = false)

include operates noName

theorem Token.SpelledAs.lexeme_ne_assign : operator.lexeme ≠ "assign" := by
  have assign : (Piece.word ['a', 's', 's', 'i', 'g', 'n']).Spelled :=
    .word rfl (List.all_eq_true.mp rfl)
  exact operates.lexeme_ne_name noName assign rfl

theorem Token.SpelledAs.lexeme_ne_group : operator.lexeme ≠ "group" := by
  have group : (Piece.word ['g', 'r', 'o', 'u', 'p']).Spelled :=
    .word rfl (List.all_eq_true.mp rfl)
  exact operates.lexeme_ne_name noName group rfl

end Operators

namespace Piece.Writes

variable {piece other : Piece} {value otherValue : Value}

theorem toSExpression_ne_name (writes : piece.Writes value) (isWritten : value.IsWritten)
    {name : Token} (named : name.SpelledAs (· == .identifier)) :
    value.toSExpression ≠ .atom name.lexeme := by
  obtain ⟨shown, shownWrites, isShown⟩ := writes.exists_shown isWritten
  obtain ⟨spelled, isName⟩ := named
  rw [isShown]
  intro same
  cases spelled with
  | name spelled free line =>
      have sameText := String.ofList_injective (SExpression.atom.inj same)
      cases shownWrites.spelled.unique spelled sameText
      cases shownWrites <;> cases free
  | _ => cases isName

theorem value_eq (writes : piece.Writes value) (isWritten : value.IsWritten)
    (otherWrites : other.Writes otherValue) (otherIsWritten : otherValue.IsWritten)
    (same : value.toSExpression = otherValue.toSExpression) : value = otherValue := by
  obtain ⟨shown, shownWrites, isShown⟩ := writes.exists_shown isWritten
  obtain ⟨otherShown, otherShownWrites, otherIsShown⟩ := otherWrites.exists_shown otherIsWritten
  rw [isShown, otherIsShown] at same
  have sameText := String.ofList_injective (SExpression.atom.inj same)
  cases shownWrites.spelled.unique otherShownWrites.spelled sameText
  exact shownWrites.unique otherShownWrites

end Piece.Writes

theorem Value.toSExpression_ne_node (value : Value) (head : String) (arguments : List SExpression) :
    value.toSExpression ≠ .node head arguments := by
  cases value <;> nofun

/-- Tokens of a kind that is spelled in one way only are the same, but for lines. -/
theorem Token.SpelledAs.relocate_eq {kind : Kind} {left right : Token}
    (leftAs : left.SpelledAs (· == kind)) (rightAs : right.SpelledAs (· == kind))
    (fixed : kind ≠ .identifier ∧ kind ≠ .number ∧ kind ≠ .text) :
    left.relocate nowhere = right.relocate nowhere := by
  obtain ⟨leftSpelled, isLeft⟩ := leftAs
  obtain ⟨rightSpelled, isRight⟩ := rightAs
  rw [beq_iff_eq] at isLeft isRight
  apply leftSpelled.unique rightSpelled
  subst isLeft
  cases leftSpelled with
  | mark | keyword | finish =>
      cases rightSpelled <;> cases isRight
      rfl
  | name => exact absurd rfl fixed.1
  | number => exact absurd rfl fixed.2.1
  | text => exact absurd rfl fixed.2.2

/-- A connective is no other operator. -/
theorem Token.SpelledAs.lexeme_ne_connective {operator connective : Token}
    (operates : operator.SpelledAs Kind.isBinaryOperator)
    (connects : connective.SpelledAs Kind.isConnective) : operator.lexeme ≠ connective.lexeme := by
  intro same
  have both := connects.wanted
  rw [← operates.spelled.kind_eq connects.spelled same] at both
  have isBinary := operates.wanted
  cases kind : operator.kind with
  | mark sign =>
      rw [kind] at both
      cases sign <;> cases both
  | keyword reserved =>
      rw [kind] at isBinary
      cases reserved <;> cases isBinary
  | identifier | text | number | finish =>
      rw [kind] at both
      cases both

/-- Legible expressions with the same s-expression are the same, but for lines. -/
theorem Expr.Legible.relocate_eq {left right : Expr} (leftLegible : left.Legible)
    (rightLegible : right.Legible) (same : left.toSExpression = right.toSExpression) :
    left.relocate nowhere = right.relocate nowhere := by
  -- Trees of two forms differ in how many operands they have or in how their heads are spelled.
  induction leftLegible generalizing right with
  | literal writes isWritten =>
      cases rightLegible with
      | literal otherWrites otherIsWritten =>
          rw [writes.value_eq isWritten otherWrites otherIsWritten same]
      | «variable» named => exact absurd same (writes.toSExpression_ne_name isWritten named)
      | _ => exact absurd same (Value.toSExpression_ne_node _ _ _)
  | «variable» named =>
      cases rightLegible with
      | literal writes isWritten =>
          exact absurd same.symm (writes.toSExpression_ne_name isWritten named)
      | «variable» otherNamed =>
          have sameName := named.spelled.unique otherNamed.spelled (SExpression.atom.inj same)
          rw [relocate, relocate, sameName]
      | _ => cases same
  | assign named _ valueIH =>
      cases rightLegible with
      | literal => exact absurd same.symm (Value.toSExpression_ne_node _ _ _)
      | assign otherNamed legible =>
          simp only [Expr.toSExpression, SExpression.node.injEq, List.cons.injEq,
            SExpression.atom.injEq, and_true, true_and] at same
          rw [relocate, relocate, named.spelled.unique otherNamed.spelled same.1,
            valueIH legible same.2]
      | binary operates | logical operates =>
          exact absurd (SExpression.node.inj same).1.symm (operates.lexeme_ne_assign rfl)
      | _ => simp [Expr.toSExpression] at same
  | unary operates _ operandIH =>
      cases rightLegible with
      | literal => exact absurd same.symm (Value.toSExpression_ne_node _ _ _)
      | unary otherOperates legible =>
          simp only [Expr.toSExpression, SExpression.node.injEq, List.cons.injEq, and_true] at same
          rw [relocate, relocate, operates.spelled.unique otherOperates.spelled same.1,
            operandIH legible same.2]
      | grouping => exact absurd (SExpression.node.inj same).1 (operates.lexeme_ne_group rfl)
      | _ => simp [Expr.toSExpression] at same
  | binary operates _ _ leftIH rightIH =>
      cases rightLegible with
      | literal => exact absurd same.symm (Value.toSExpression_ne_node _ _ _)
      | assign => exact absurd (SExpression.node.inj same).1 (operates.lexeme_ne_assign rfl)
      | binary otherOperates leftLegible rightLegible =>
          simp only [Expr.toSExpression, SExpression.node.injEq, List.cons.injEq, and_true] at same
          rw [relocate, relocate, operates.spelled.unique otherOperates.spelled same.1,
            leftIH leftLegible same.2.1, rightIH rightLegible same.2.2]
      | logical connects =>
          exact absurd (SExpression.node.inj same).1 (operates.lexeme_ne_connective connects)
      | _ => simp [Expr.toSExpression] at same
  | logical connects _ _ leftIH rightIH =>
      cases rightLegible with
      | literal => exact absurd same.symm (Value.toSExpression_ne_node _ _ _)
      | assign => exact absurd (SExpression.node.inj same).1 (connects.lexeme_ne_assign rfl)
      | binary operates =>
          exact absurd (SExpression.node.inj same).1.symm (operates.lexeme_ne_connective connects)
      | logical otherConnects leftLegible rightLegible =>
          simp only [Expr.toSExpression, SExpression.node.injEq, List.cons.injEq, and_true] at same
          rw [relocate, relocate, connects.spelled.unique otherConnects.spelled same.1,
            leftIH leftLegible same.2.1, rightIH rightLegible same.2.2]
      | _ => simp [Expr.toSExpression] at same
  | ternary asks _ _ _ conditionIH trueIH falseIH =>
      cases rightLegible with
      | literal => exact absurd same.symm (Value.toSExpression_ne_node _ _ _)
      | ternary otherAsks conditionLegible trueLegible falseLegible =>
          simp only [Expr.toSExpression, SExpression.node.injEq, List.cons.injEq, and_true,
            true_and] at same
          rw [relocate, relocate, asks.relocate_eq otherAsks (by decide),
            conditionIH conditionLegible same.1, trueIH trueLegible same.2.1,
            falseIH falseLegible same.2.2]
      | _ => simp [Expr.toSExpression] at same
  | grouping _ innerIH =>
      cases rightLegible with
      | literal => exact absurd same.symm (Value.toSExpression_ne_node _ _ _)
      | unary operates =>
          exact absurd (SExpression.node.inj same).1.symm (operates.lexeme_ne_group rfl)
      | grouping legible =>
          simp only [Expr.toSExpression, SExpression.node.injEq, List.cons.injEq, and_true,
            true_and] at same
          rw [relocate, relocate, innerIH legible same]
      | _ => simp [Expr.toSExpression] at same

/-- What an optional expression is shown as tells it, too. -/
theorem Expr.Legible.map_relocate_eq {left right : Option Expr}
    (leftLegible : ∀ value ∈ left, value.Legible) (rightLegible : ∀ value ∈ right, value.Legible)
    (same : left.toList.map Expr.toSExpression = right.toList.map Expr.toSExpression) :
    left.map (·.relocate nowhere) = right.map (·.relocate nowhere) := by
  cases left with
  | none =>
      cases right with
      | none => rfl
      | some => cases same
  | some value =>
      cases right with
      | none => cases same
      | some other =>
          have sameValue := (List.cons.inj same).1
          have legible := leftLegible value rfl
          exact congrArg some (legible.relocate_eq (rightLegible other rfl) sameValue)

theorem Stmt.toSExpression_declare (name : Token) (initial : Option Expr) :
    (declare name initial).toSExpression =
      .node "var" (.atom name.lexeme :: initial.toList.map Expr.toSExpression) := by
  cases initial <;> rfl

mutual

/-- Legible statements with the same s-expression are the same, but for lines. -/
theorem Stmt.relocate_eq : (left : Stmt) → {right : Stmt} → left.Legible → right.Legible →
    left.toSExpression = right.toSExpression → left.relocate nowhere = right.relocate nowhere
  | .print value, right, .print legible, rightLegible, same => by
      cases rightLegible with
      | print otherLegible =>
          simp only [toSExpression, SExpression.node.injEq, List.cons.injEq, and_true,
            true_and] at same
          rw [relocate, relocate, legible.relocate_eq otherLegible same]
      | declare => simp [toSExpression_declare, toSExpression] at same
      | _ => simp [toSExpression] at same
  | .expression value, right, .expression legible, rightLegible, same => by
      cases rightLegible with
      | expression otherLegible =>
          simp only [toSExpression, SExpression.node.injEq, List.cons.injEq, and_true,
            true_and] at same
          rw [relocate, relocate, legible.relocate_eq otherLegible same]
      | declare => simp [toSExpression_declare, toSExpression] at same
      | _ => simp [toSExpression] at same
  | .declare name initial, right, .declare named legible, rightLegible, same => by
      cases rightLegible with
      | declare otherNamed otherLegible =>
          simp only [toSExpression_declare, SExpression.node.injEq, List.cons.injEq,
            SExpression.atom.injEq, true_and] at same
          rw [relocate, relocate, named.spelled.unique otherNamed.spelled same.1,
            Expr.Legible.map_relocate_eq legible otherLegible same.2]
      | _ => simp [toSExpression_declare, toSExpression] at same
  | .block body, right, .block legible, rightLegible, same => by
      cases rightLegible with
      | block otherLegible =>
          simp only [toSExpression, SExpression.node.injEq, true_and] at same
          rw [relocate, relocate, relocateAll_eq body legible otherLegible same]
      | declare => simp [toSExpression_declare, toSExpression] at same
      | _ => simp [toSExpression] at same
  | .ifThen condition whenTrue, right, .ifThen legible trueLegible, rightLegible, same => by
      cases rightLegible with
      | ifThen otherLegible otherTrueLegible =>
          simp only [toSExpression, SExpression.node.injEq, List.cons.injEq, and_true,
            true_and] at same
          rw [relocate, relocate, legible.relocate_eq otherLegible same.1,
            Stmt.relocate_eq whenTrue trueLegible otherTrueLegible same.2]
      | declare => simp [toSExpression_declare, toSExpression] at same
      | _ => simp [toSExpression] at same
  | .ifElse condition whenTrue whenFalse, right, .ifElse legible trueLegible falseLegible,
      rightLegible, same => by
      cases rightLegible with
      | ifElse otherLegible otherTrueLegible otherFalseLegible =>
          simp only [toSExpression, SExpression.node.injEq, List.cons.injEq, and_true,
            true_and] at same
          rw [relocate, relocate, legible.relocate_eq otherLegible same.1,
            Stmt.relocate_eq whenTrue trueLegible otherTrueLegible same.2.1,
            Stmt.relocate_eq whenFalse falseLegible otherFalseLegible same.2.2]
      | declare => simp [toSExpression_declare, toSExpression] at same
      | _ => simp [toSExpression] at same
  | .whileLoop condition body, right, .whileLoop legible bodyLegible, rightLegible, same => by
      cases rightLegible with
      | whileLoop otherLegible otherBodyLegible =>
          simp only [toSExpression, SExpression.node.injEq, List.cons.injEq, and_true,
            true_and] at same
          rw [relocate, relocate, legible.relocate_eq otherLegible same.1,
            Stmt.relocate_eq body bodyLegible otherBodyLegible same.2]
      | declare => simp [toSExpression_declare, toSExpression] at same
      | _ => simp [toSExpression] at same
  | .breakLoop keyword, right, .breakLoop named, rightLegible, same => by
      cases rightLegible with
      | breakLoop otherNamed =>
          rw [relocate, relocate, named.relocate_eq otherNamed (by decide)]
      | declare => simp [toSExpression_declare, toSExpression] at same
      | _ => simp [toSExpression] at same

theorem Stmt.relocateAll_eq : (left : List Stmt) → {right : List Stmt} →
    (∀ tree ∈ left, tree.Legible) → (∀ tree ∈ right, tree.Legible) →
    toSExpressions left = toSExpressions right →
      relocateAll nowhere left = relocateAll nowhere right
  | [], [], _, _, _ => rfl
  | [], _ :: _, _, _, same => nomatch same
  | _ :: _, [], _, _, same => nomatch same
  | statement :: rest, other :: others, legible, otherLegible, same => by
      rw [List.forall_mem_cons] at legible otherLegible
      obtain ⟨sameStatement, sameRest⟩ := List.cons.inj same
      rw [relocateAll, relocateAll,
        Stmt.relocate_eq statement legible.1 otherLegible.1 sameStatement,
        relocateAll_eq rest legible.2 otherLegible.2 sameRest]

end

/-! ## Programs -/

theorem Stmt.Legible.toSExpression_eq {left right : Stmt} (leftLegible : left.Legible)
    (rightLegible : right.Legible) (same : left.render = right.render) :
    left.toSExpression = right.toSExpression :=
  leftLegible.toSExpression.eq_of_render_eq rightLegible.toSExpression same

theorem Stmt.toSExpressions_eq {left right : List Stmt} (leftLegible : ∀ tree ∈ left, tree.Legible)
    (rightLegible : ∀ tree ∈ right, tree.Legible)
    (same : left.map Stmt.render = right.map Stmt.render) :
    toSExpressions left = toSExpressions right := by
  induction left generalizing right with
  | nil =>
      cases right with
      | nil => rfl
      | cons => cases same
  | cons statement rest inductionHypothesis =>
      cases right with
      | nil => cases same
      | cons other others =>
          rw [List.forall_mem_cons] at leftLegible rightLegible
          obtain ⟨sameText, sameTexts⟩ := List.cons.inj same
          rw [toSExpressions, toSExpressions,
            leftLegible.1.toSExpression_eq rightLegible.1 sameText,
            inductionHypothesis leftLegible.2 rightLegible.2 sameTexts]

/-- Clean texts without infinite numbers whose statements are shown by the same texts are read as
the same statements, but for the lines of their tokens. -/
theorem Program.statements_eq_of_render_eq {first second : String}
    (firstClean : History.isClean first = true) (secondClean : History.isClean second = true)
    (firstFinite : Lexed.Finite first) (secondFinite : Lexed.Finite second)
    (same : (ofText first).statements.map Stmt.render = (ofText second).statements.map Stmt.render) :
    (ofText first).statements.map (·.relocate nowhere) =
      (ofText second).statements.map (·.relocate nowhere) := by
  have firstLegible := legible_ofText firstClean firstFinite
  have secondLegible := legible_ofText secondClean secondFinite
  have sameTrees := Stmt.toSExpressions_eq firstLegible secondLegible same
  have sameStatements := Stmt.relocateAll_eq _ firstLegible secondLegible sameTrees
  rwa [Stmt.relocateAll_eq_map, Stmt.relocateAll_eq_map] at sameStatements

def oneAndHalf : Float :=
  .ofBits 0x3FF8000000000000

/-- The tokens of a program that prints the negated number, which is spelled in some way and stands
on some line. -/
def negatedTokens (numeral : String) (line : Nat) : List Token :=
  [⟨.keyword .printWord, "print", none, 1⟩, ⟨.mark .minus, "-", none, 1⟩,
    ⟨.number, numeral, some (.number oneAndHalf), line⟩, ⟨.mark .semicolon, ";", none, line⟩]

def printNegated : Stmt :=
  .print (.unary ⟨.mark .minus, "-", none, 1⟩ (.literal (.number oneAndHalf)))

theorem ofTokens_negatedTokens (numeral : String) (line : Nat) :
    Program.ofTokens (negatedTokens numeral line ++ [.finish line]) = ⟨[printNegated], []⟩ := by
  have expression : Phrase .unary [⟨.mark .minus, "-", none, 1⟩,
      ⟨.number, numeral, some (.number oneAndHalf), line⟩]
      (.unary ⟨.mark .minus, "-", none, 1⟩ (.literal (.number oneAndHalf))) :=
    .unary (.inr rfl) (.unaryPrimary (.number rfl))
  have program : ProgramPhrase (negatedTokens numeral line) [printNegated] :=
    .statement (.print rfl expression.ofUnary rfl) .nil
  exact Program.ofTokens_of_phrase rfl (by simp [negatedTokens]) program

/-- A zero at the end of a numeral and a comment within an expression are not part of the tree. -/
theorem statements_eq_afterComment :
    (History.isClean "print -1.50;" = true ∧ History.isClean "print - // a\n1.5;" = true) ∧
      (Lexed.Finite "print -1.50;" ∧ Lexed.Finite "print - // a\n1.5;") ∧
      (Program.ofText "print -1.50;").statements.map Stmt.render =
        (Program.ofText "print - // a\n1.5;").statements.map Stmt.render ∧
      (Program.ofText "print -1.50;").statements.map (·.relocate nowhere) =
        (Program.ofText "print - // a\n1.5;").statements.map (·.relocate nowhere) := by
  have lexed : Lexed.ofText "print -1.50;" = ⟨negatedTokens "1.50" 1 ++ [.finish 1], []⟩ := by
    decide +kernel
  have otherLexed : Lexed.ofText "print - // a\n1.5;" =
      ⟨negatedTokens "1.5" 2 ++ [.finish 2], []⟩ := by
    decide +kernel
  have read : Program.ofText "print -1.50;" = ⟨[printNegated], []⟩ := by
    rw [Program.ofText, lexed, ofTokens_negatedTokens]
  have otherRead : Program.ofText "print - // a\n1.5;" = ⟨[printNegated], []⟩ := by
    rw [Program.ofText, otherLexed, ofTokens_negatedTokens]
  have clean : History.isClean "print -1.50;" = true :=
    isClean_iff.mpr ⟨by rw [lexed], by rw [read]⟩
  have otherClean : History.isClean "print - // a\n1.5;" = true :=
    isClean_iff.mpr ⟨by rw [otherLexed], by rw [otherRead]⟩
  have isFinite : oneAndHalf.isFinite = true := by decide +kernel
  have finite : Lexed.Finite "print -1.50;" := by
    rw [Lexed.Finite, lexed]
    simp [negatedTokens, Token.finish, isFinite]
  have otherFinite : Lexed.Finite "print - // a\n1.5;" := by
    rw [Lexed.Finite, otherLexed]
    simp [negatedTokens, Token.finish, isFinite]
  have same : (Program.ofText "print -1.50;").statements.map Stmt.render =
      (Program.ofText "print - // a\n1.5;").statements.map Stmt.render := by
    rw [read, otherRead]
  exact ⟨⟨clean, otherClean⟩, ⟨finite, otherFinite⟩, same,
    Program.statements_eq_of_render_eq clean otherClean finite otherFinite same⟩

end BlockScript
