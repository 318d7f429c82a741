import BlockScript.Proofs.Source.LongestMatch
import BlockScript.Syntax.SExpression

/-!
# S-expressions can be told from their texts

The text of an s-expression says where each atom and each list ends, as long as atoms are quoted or
hold no character that means something: no space, no parenthesis and no quote. So two such
s-expressions with the same text are the same. The induction needs more: what follows the text can
be told from it too.
-/

namespace BlockScript.SExpression

/-! ## Atoms -/

/-- A character that separates nothing, encloses nothing and quotes nothing. -/
def isPlain (char : Char) : Bool :=
  char != ' ' && char != '(' && char != ')' && char != '"'

/-- The texts of atoms: plain characters, or a quoted text. -/
inductive IsAtom : List Char → Prop where
  | plain {text : List Char} (nonempty : text ≠ []) (plain : ∀ char ∈ text, isPlain char = true) :
      IsAtom text
  | quoted {contents : List Char} (unquoted : '"' ∉ contents) :
      IsAtom ('"' :: (contents ++ ['"']))

def Stops (rest : List Char) : Prop :=
  ∀ char ∈ rest.head?, isPlain char = false

theorem stops_nil : Stops [] := nofun

theorem stops_cons {char : Char} (notPlain : isPlain char = false) (rest : List Char) :
    Stops (char :: rest) := by
  intro next isNext
  cases isNext
  exact notPlain

section Plain

variable {first second rest others : List Char}

theorem takeWhile_isPlain (plain : ∀ char ∈ first, isPlain char = true) (stops : Stops rest) :
    (first ++ rest).takeWhile isPlain = first := by
  rw [List.takeWhile_append_of_pos plain]
  cases rest with
  | nil => rw [List.takeWhile_nil, List.append_nil]
  | cons char after => rw [List.takeWhile_cons, stops char rfl, if_neg Bool.false_ne_true,
      List.append_nil]

/-- Plain texts end where something else comes next. -/
theorem plain_append_inj (firstPlain : ∀ char ∈ first, isPlain char = true)
    (secondPlain : ∀ char ∈ second, isPlain char = true) (restStops : Stops rest)
    (othersStop : Stops others) (same : first ++ rest = second ++ others) :
    first = second ∧ rest = others := by
  have sameFirst : first = second := by
    rw [← takeWhile_isPlain firstPlain restStops, same, takeWhile_isPlain secondPlain othersStop]
  subst sameFirst
  exact ⟨rfl, List.append_cancel_left same⟩

theorem plain_ne_quote (nonempty : first ≠ []) (plain : ∀ char ∈ first, isPlain char = true) :
    first ++ rest ≠ '"' :: others := by
  obtain ⟨char, after, rfl⟩ := List.exists_cons_of_ne_nil nonempty
  intro same
  cases List.head_eq_of_cons_eq same
  cases plain '"' List.mem_cons_self

/-- Atoms end where something else comes next. -/
theorem IsAtom.append_inj (firstAtom : IsAtom first) (secondAtom : IsAtom second)
    (restStops : Stops rest) (othersStop : Stops others) (same : first ++ rest = second ++ others) :
    first = second ∧ rest = others := by
  cases firstAtom with
  | plain nonempty plain =>
      cases secondAtom with
      | plain _ otherPlain => exact plain_append_inj plain otherPlain restStops othersStop same
      | quoted _ => exact absurd same (plain_ne_quote nonempty plain)
  | @quoted contents unquoted =>
      cases secondAtom with
      | plain nonempty plain => exact absurd same.symm (plain_ne_quote nonempty plain)
      | @quoted otherContents otherUnquoted =>
          have sameQuotes : contents ++ '"' :: rest = otherContents ++ '"' :: others := by
            simpa using same
          have sameReading := congrArg Piece.ofQuote sameQuotes
          rw [Piece.ofQuote_closed unquoted, Piece.ofQuote_closed otherUnquoted] at sameReading
          cases sameReading
          exact ⟨rfl, rfl⟩

theorem IsAtom.append_ne_paren (isAtom : IsAtom first) : first ++ rest ≠ '(' :: others := by
  intro same
  cases isAtom with
  | plain nonempty plain =>
      obtain ⟨char, after, rfl⟩ := List.exists_cons_of_ne_nil nonempty
      cases List.head_eq_of_cons_eq same
      cases plain '(' List.mem_cons_self
  | quoted unquoted => cases List.head_eq_of_cons_eq same

end Plain

/-! ## Lists -/

/-- All atoms of the s-expression end where their texts say so, and so do the heads of its lists. -/
inductive Legible : SExpression → Prop where
  | atom {text : String} (isAtom : IsAtom text.toList) : Legible (.atom text)
  | node {head : String} {arguments : List SExpression}
      (plain : ∀ char ∈ head.toList, isPlain char = true)
      (legible : ∀ argument ∈ arguments, argument.Legible) : Legible (.node head arguments)

theorem toList_render_node (head : String) (arguments : List SExpression) (rest : List Char) :
    (node head arguments).render.toList ++ rest =
      '(' :: (head.toList ++ ((renderArguments arguments).toList ++ ')' :: rest)) := by
  simp [render]

theorem toList_renderArguments_cons (argument : SExpression) (others : List SExpression)
    (rest : List Char) :
    (renderArguments (argument :: others)).toList ++ ')' :: rest =
      ' ' :: (argument.render.toList ++ ((renderArguments others).toList ++ ')' :: rest)) := by
  simp [renderArguments]

theorem stops_renderArguments (arguments : List SExpression) (rest : List Char) :
    Stops ((renderArguments arguments).toList ++ ')' :: rest) := by
  cases arguments with
  | nil => exact stops_cons rfl rest
  | cons argument others =>
      rw [toList_renderArguments_cons]
      exact stops_cons rfl _

mutual

/-- The text of a legible s-expression tells the s-expression, and where its text ends. -/
theorem render_append_inj : (left : SExpression) → {right : SExpression} →
    {rest others : List Char} → left.Legible → right.Legible → Stops rest → Stops others →
    left.render.toList ++ rest = right.render.toList ++ others → left = right ∧ rest = others
  | .atom text, right, rest, others, .atom isAtom, rightLegible, restStops, othersStop, same => by
      cases rightLegible with
      | atom otherAtom =>
          rw [render, render] at same
          obtain ⟨sameText, sameRest⟩ := isAtom.append_inj otherAtom restStops othersStop same
          exact ⟨congrArg atom (String.toList_injective sameText), sameRest⟩
      | node =>
          rw [toList_render_node, render] at same
          exact absurd same isAtom.append_ne_paren
  -- A list ends at its parenthesis, whatever follows.
  | .node head arguments, right, rest, others, .node plain legible, rightLegible, _, _, same => by
      rw [toList_render_node] at same
      cases rightLegible with
      | atom otherAtom =>
          rw [render] at same
          exact absurd same.symm otherAtom.append_ne_paren
      | node otherPlain otherLegible =>
          rw [toList_render_node] at same
          obtain ⟨sameHead, sameRest⟩ := plain_append_inj plain otherPlain
            (stops_renderArguments _ _) (stops_renderArguments _ _) (List.cons.inj same).2
          obtain ⟨rfl, rfl⟩ := renderArguments_append_inj arguments legible otherLegible sameRest
          exact ⟨congrArg (node · arguments) (String.toList_injective sameHead), rfl⟩

theorem renderArguments_append_inj : (left : List SExpression) → {right : List SExpression} →
    {rest others : List Char} → (∀ argument ∈ left, argument.Legible) →
    (∀ argument ∈ right, argument.Legible) →
    (renderArguments left).toList ++ ')' :: rest = (renderArguments right).toList ++ ')' :: others →
    left = right ∧ rest = others
  | [], [], _, _, _, _, same => ⟨rfl, (List.cons.inj same).2⟩
  | [], _ :: _, _, _, _, _, same => by
      rw [toList_renderArguments_cons] at same
      cases List.head_eq_of_cons_eq same
  | _ :: _, [], _, _, _, _, same => by
      rw [toList_renderArguments_cons] at same
      cases List.head_eq_of_cons_eq same
  | argument :: others, other :: more, _, _, legible, otherLegible, same => by
      rw [toList_renderArguments_cons, toList_renderArguments_cons] at same
      rw [List.forall_mem_cons] at legible otherLegible
      obtain ⟨rfl, sameRest⟩ := render_append_inj argument legible.1 otherLegible.1
        (stops_renderArguments _ _) (stops_renderArguments _ _) (List.cons.inj same).2
      obtain ⟨rfl, rfl⟩ := renderArguments_append_inj others legible.2 otherLegible.2 sameRest
      exact ⟨rfl, rfl⟩

end

theorem Legible.eq_of_render_eq {left right : SExpression} (leftLegible : left.Legible)
    (rightLegible : right.Legible) (same : left.render = right.render) : left = right :=
  (render_append_inj left leftLegible rightLegible stops_nil stops_nil
    (congrArg (·.toList ++ []) same)).1

end BlockScript.SExpression
