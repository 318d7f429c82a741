import BlockScript.Grammar.Reply

/-!
# Recovery from syntax errors

A statement at fault is given up, and reading goes on at the next place where a statement can start:
after a semicolon, or at a keyword that starts a statement. At least one token is given up, so that
reading makes progress even if the token at fault could itself start a statement.
-/

namespace BlockScript

/-- The kinds of token at which recovery stops because a statement starts there. -/
def Kind.startsStatement : Kind → Bool
  | .keyword .classWord | .keyword .forWord | .keyword .funWord | .keyword .ifWord
  | .keyword .printWord | .keyword .returnWord | .keyword .varWord | .keyword .whileWord => true
  | _ => false

namespace Grammar

/-- Skips tokens up to the next place where a statement can start, given the kind of the token
skipped last. -/
def skip (last : Kind) : List Token → List Token
  | [] => []
  | token :: after =>
      if last = .mark .semicolon || token.kind.startsStatement then
        token :: after
      else
        skip token.kind after

theorem skip_suffix (last : Kind) (input : List Token) : skip last input <:+ input := by
  induction input generalizing last with
  | nil => exact List.suffix_refl []
  | cons token after inductionHypothesis =>
      unfold skip
      split
      · exact List.suffix_refl _
      · exact (inductionHypothesis token.kind).trans (List.suffix_cons token after)

/-- Gives up the token at fault, and further tokens up to the next place where a statement can
start. -/
def resume : List Token → List Token
  | [] => []
  | token :: after => skip token.kind after

theorem resume_suffix (input : List Token) : resume input <:+ input := by
  cases input with
  | nil => exact List.suffix_refl []
  | cons token after => exact (skip_suffix token.kind after).trans (List.suffix_cons token after)

/-- Recovery gives up a token, unless there is none left. -/
theorem length_resume_le (input : List Token) : (resume input).length ≤ input.length - 1 := by
  cases input with
  | nil => exact Nat.le_refl 0
  | cons token after => exact (skip_suffix token.kind after).length_le

end Grammar

/-- A reading that cannot fail, because it notes its faults and reads on. -/
structure Recovered (α : Type) (least : Nat) (input : List Token) where
  value : α
  noted : List SyntaxError
  rest : Rest least input

/-- Turns a failed reply into a recovered one. The fault that stopped the rule is the last one
noted, and there is no value. -/
def Reply.recover : Reply α 1 (token :: after) → Recovered (Option α) 1 (token :: after)
  | parsed value noted rest => ⟨some value, noted, rest⟩
  | failed error noted rest =>
      { value := none
        noted := noted ++ [error]
        rest :=
          { tokens := Grammar.resume rest.tokens
            isSuffix := (Grammar.resume_suffix rest.tokens).trans rest.isSuffix
            shorter := by
              have resumed := Grammar.length_resume_le rest.tokens
              have unread := rest.isSuffix.length_le
              simp only [List.length_cons] at unread ⊢
              omega } }

end BlockScript
