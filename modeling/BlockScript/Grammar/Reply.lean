import BlockScript.Grammar.Fault

/-!
# Replies of the grammar

A rule of the grammar reads some tokens at the front of a list and replies with what it made of
them, or with the fault that stopped it. In both cases the reply says which tokens are still
unread, and carries the proof that these are the end of the list. A rule that calls itself on
unread tokens therefore shows by its types that it comes to an end.

Some faults do not stop a rule. They are noted in the reply, in the order in which they were found.
-/

namespace BlockScript

/-- The unread tokens of a list, with at least `least` tokens read. -/
structure Rest (least : Nat) (input : List Token) where
  tokens : List Token
  isSuffix : tokens <:+ input
  shorter : tokens.length + least ≤ input.length

namespace Rest

grind_pattern Rest.shorter => self.tokens

def all (input : List Token) : Rest 0 input :=
  ⟨input, List.suffix_refl input, Nat.le_refl _⟩

def tail (token : Token) (after : List Token) : Rest 1 (token :: after) :=
  ⟨after, List.suffix_cons token after, Nat.le_refl _⟩

/-- Forgets how many tokens have been read. -/
def weaken (rest : Rest least input) : Rest 0 input :=
  ⟨rest.tokens, rest.isSuffix, Nat.le_trans (Nat.le_add_right _ _) rest.shorter⟩

/-- Reads on: what is unread of the unread tokens is unread of the whole list. -/
def trans (rest : Rest first input) (further : Rest least rest.tokens) : Rest least input :=
  ⟨further.tokens, further.isSuffix.trans rest.isSuffix,
    Nat.le_trans further.shorter rest.isSuffix.length_le⟩

/-- Reads on after a first token, so that at least that token has been read. -/
def past (token : Token) (rest : Rest least after) : Rest 1 (token :: after) :=
  ⟨rest.tokens, rest.isSuffix.trans (List.suffix_cons token after),
    Nat.succ_le_succ rest.isSuffix.length_le⟩

@[simp] theorem tokens_all (input : List Token) : (all input).tokens = input := rfl

@[simp] theorem tokens_tail (token : Token) (after : List Token) :
    (tail token after).tokens = after := rfl

@[simp] theorem tokens_weaken (rest : Rest least input) : rest.weaken.tokens = rest.tokens := rfl

@[simp] theorem tokens_trans (rest : Rest first input) (further : Rest least rest.tokens) :
    (rest.trans further).tokens = further.tokens := rfl

@[simp] theorem tokens_past (token : Token) (rest : Rest least after) :
    (rest.past token).tokens = rest.tokens := rfl

end Rest

/-- What a rule of the grammar replies. -/
inductive Reply (α : Type) (least : Nat) (input : List Token) where
  /-- The rule was followed to its end and read at least `least` tokens. -/
  | parsed (value : α) (noted : List SyntaxError) (rest : Rest least input)
  /-- A fault stopped the rule with these tokens unread. Recovery gives up at least the first. -/
  | failed (error : SyntaxError) (noted : List SyntaxError) (rest : Rest 0 input)

namespace Reply

/-- Replies with a value for which nothing more is read. -/
def done (value : α) : Reply α 0 input :=
  .parsed value [] (.all input)

/-- Replies with a fault of the next token. At the end of the list, that is the token that marks
the end. -/
def fail (finish : Token) (input : List Token) (fault : SyntaxFault) : Reply α least input :=
  .failed ⟨input.headD finish, fault⟩ [] (.all input)

/-- Adds a fault that does not stop the rule. -/
def note (error : SyntaxError) : Reply α least input → Reply α least input
  | parsed value noted rest => .parsed value (noted ++ [error]) rest
  | failed stopping noted rest => .failed stopping (noted ++ [error]) rest

/-- Puts faults noted earlier before those of a reply. -/
def noteFirst (earlier : List SyntaxError) : Reply α least input → Reply α least input
  | parsed value noted rest => .parsed value (earlier ++ noted) rest
  | failed error noted rest => .failed error (earlier ++ noted) rest

def map (f : α → β) : Reply α least input → Reply β least input
  | parsed value noted rest => .parsed (f value) noted rest
  | failed error noted rest => .failed error noted rest

/-- Takes a reply about unread tokens as a reply about the whole list. -/
def within (rest : Rest first input) : Reply α least rest.tokens → Reply α least input
  | parsed value noted further => .parsed value noted (rest.trans further)
  | failed error noted further => .failed error noted (rest.trans further)

/-- Takes a reply about what follows a token as a reply that has read this token too. -/
def past (token : Token) : Reply α least after → Reply α 1 (token :: after)
  | parsed value noted rest => .parsed value noted (rest.past token)
  | failed error noted rest => .failed error noted (rest.past token).weaken

/-- Follows one rule by another, which starts where the first one ended. A fault of the first rule
stops both. -/
def bind (reply : Reply α first input)
    (next : α → (rest : Rest first input) → Reply β least rest.tokens) : Reply β least input :=
  match reply with
  | parsed value noted rest =>
      match next value rest with
      | parsed result further last => .parsed result (noted ++ further) (rest.trans last)
      | failed error further last => .failed error (noted ++ further) (rest.trans last)
  | failed error noted rest => .failed error noted rest

end Reply

/-- The next token, if it is of a wanted kind. -/
def next? (wanted : Kind → Bool) : (input : List Token) → Option (Token × Rest 1 input)
  | [] => none
  | token :: after => if wanted token.kind then some (token, .tail token after) else none

/-- Reads the one kind of token that can stand at a place. -/
def expect (finish : Token) (expected : Expected) (input : List Token) : Reply Token 1 input :=
  match next? (· == expected.kind) input with
  | some (token, rest) => .parsed token [] rest
  | none => .fail finish input (.missing expected)

end BlockScript
