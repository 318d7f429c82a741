import BlockScript.Proofs.Recovery.Locality
import BlockScript.Proofs.Session.Joining

/-!
# Recovery is local

Reading goes on after a faulty statement as if the statement had not been there, if recovery can tell
where it ends. `Program.ofTokens_flatten` says so for programs in segments: a segment that is flat may
have any faults, and every other segment has to be free of faults by itself. The program comes to what
its segments come to one by one, statements and faults alike.
-/

namespace BlockScript

/-- A segment of which recovery can tell the end. It ends in its only semicolon, it opens and closes
no blocks, and no token but its first one starts a statement. -/
structure Flat (segment : List Token) : Prop where
  endsInSemicolon : ∃ front semicolon, segment = front ++ [semicolon] ∧
    semicolon.kind = .mark .semicolon ∧ ∀ token ∈ front, token.kind ≠ .mark .semicolon
  without : ∀ token ∈ segment, token.kind ∉ [.mark .leftBrace, .mark .rightBrace,
    .keyword .ifWord, .keyword .whileWord, .keyword .forWord, .finish]
  notElse : ∀ token ∈ segment.head?, token.kind ≠ .keyword .elseWord
  onlyFirst : ∀ token ∈ segment.tail, token.kind ∉ [.keyword .classWord, .keyword .funWord,
    .keyword .varWord, .keyword .printWord, .keyword .returnWord]

theorem Flat.oneSemicolon {segment : List Token} (flat : Flat segment) : OneSemicolon segment := by
  obtain ⟨front, semicolon, rfl, isSemicolon, noOther⟩ := flat.endsInSemicolon
  clear flat
  induction front with
  | nil => exact .last isSemicolon
  | cons token front inductionHypothesis =>
      have ⟨notSemicolon, noOther⟩ := List.forall_mem_cons.mp noOther
      exact .cons notSemicolon (inductionHypothesis noOther)

/-- After the first token of a flat segment no statement starts. -/
theorem Flat.startsStatement_eq_false {token : Token} {after : List Token}
    (flat : Flat (token :: after)) : ∀ other ∈ after, other.kind.startsStatement = false := by
  intro other member
  have first := flat.without other (List.mem_cons_of_mem token member)
  have second := flat.onlyFirst other member
  rw [← Bool.not_eq_true]
  intro starts
  rw [Kind.startsStatement.eq_def] at starts
  split at starts <;> simp_all

namespace Grammar

/-! ## Recovery -/

theorem skip_semicolon (input : List Token) : skip (.mark .semicolon) input = input := by
  cases input <;> simp [skip]

/-- Where no statement starts, tokens are skipped up to the semicolon. -/
theorem skip_of_oneSemicolon {input : List Token} (more : List Token) (one : OneSemicolon input)
    (noStart : ∀ token ∈ input, token.kind.startsStatement = false) {last : Kind}
    (notYet : last ≠ .mark .semicolon) : skip last (input ++ more) = more := by
  induction one generalizing last with
  | last isSemicolon => simp [skip, notYet, isSemicolon, Kind.startsStatement, skip_semicolon]
  | cons notSemicolon _ inductionHypothesis =>
      obtain ⟨noStartHere, noStartLater⟩ := List.forall_mem_cons.mp noStart
      rw [List.cons_append, skip, if_neg (by simp [notYet, noStartHere])]
      exact inductionHypothesis noStartLater notSemicolon

/-- From a fault in a flat segment reading resumes right after the segment. -/
theorem resume_of_oneSemicolon {input : List Token} (more : List Token) (one : OneSemicolon input)
    (noStart : ∀ token ∈ input.tail, token.kind.startsStatement = false) :
    resume (input ++ more) = more := by
  cases one with
  | last isSemicolon => rw [List.cons_append, resume, isSemicolon, List.nil_append, skip_semicolon]
  | cons notSemicolon one => exact skip_of_oneSemicolon more one noStart notSemicolon

end Grammar

/-- A rule that has read a flat segment, or has stopped in it, leaves what comes after it. -/
theorem Reply.Extends.recover {α : Type} {token : Token} {after more : List Token}
    {reply : Reply α 1 (token :: after)} {otherReply : Reply α 1 (token :: (after ++ more))}
    (extension : Reply.Extends more (· = []) reply otherReply)
    (noStart : ∀ other ∈ after, other.kind.startsStatement = false) :
    otherReply.recover.value = reply.recover.value ∧
      otherReply.recover.noted = reply.recover.noted ∧ otherReply.recover.rest.tokens = more := by
  cases extension with
  | parsed value noted unread left =>
      rw [left, List.nil_append] at unread
      exact ⟨rfl, rfl, unread⟩
  | @failed error noted rest otherRest unread left =>
      have noStartLeft : ∀ other ∈ rest.tokens.tail, other.kind.startsStatement = false := by
        rcases List.suffix_cons_iff.mp rest.isSuffix with all | some
        · rw [all]
          exact noStart
        · exact fun other member => noStart other (some.subset (List.mem_of_mem_tail member))
      have resumed := Grammar.resume_of_oneSemicolon more left noStartLeft
      rw [← unread] at resumed
      exact ⟨rfl, rfl, resumed⟩

namespace Grammar

/-! ## The items of a segment -/

variable {finish : Token}

theorem items_cons (finish : Token) (inLoop : Bool) {token : Token} {after rest : List Token}
    (unread : (declaration finish inLoop token after).rest.tokens = rest) :
    (items finish inLoop false (token :: after)).value =
        (declaration finish inLoop token after).value.toList ++ (items finish inLoop false rest).value ∧
      (items finish inLoop false (token :: after)).noted =
        (declaration finish inLoop token after).noted ++ (items finish inLoop false rest).noted := by
  subst unread
  constructor
  · conv => lhs; rw [items, if_neg (by simp)]
  · conv => lhs; rw [items, if_neg (by simp)]

/-- The reader makes these statements and these faults of the segment, whatever comes after it,
unless that is an else. -/
structure Separates (finish : Token) (segment : List Token) (trees : List Stmt)
    (faults : List SyntaxError) : Prop where
  noElse : ∀ {rest : List Token}, NoElse rest → NoElse (segment ++ rest)
  value : ∀ {rest : List Token}, NoElse rest → (items finish false false (segment ++ rest)).value =
    trees ++ (items finish false false rest).value
  noted : ∀ {rest : List Token}, NoElse rest → (items finish false false (segment ++ rest)).noted =
    faults ++ (items finish false false rest).noted

namespace Separates

variable {segment first second : List Token} {trees others : List Stmt}
variable {faults further : List SyntaxError}

theorem nil : Separates finish [] [] [] :=
  ⟨id, fun _ => rfl, fun _ => rfl⟩

theorem append (firstSeparates : Separates finish first trees faults)
    (secondSeparates : Separates finish second others further) :
    Separates finish (first ++ second) (trees ++ others) (faults ++ further) := by
  constructor
  all_goals
    intro rest noElse
    have between := secondSeparates.noElse noElse
    rw [List.append_assoc]
  · exact firstSeparates.noElse between
  · rw [firstSeparates.value between, secondSeparates.value noElse, List.append_assoc]
  · rw [firstSeparates.noted between, secondSeparates.noted noElse, List.append_assoc]

/-- By itself, a segment that separates is read as what it is read as among others. -/
theorem ofTokens (separates : Separates finish segment trees faults)
    (isEnd : finish.kind = .finish) (only : ∀ token ∈ segment, token.kind ≠ .finish) :
    Program.ofTokens (segment ++ [finish]) = ⟨trees, faults⟩ := by
  have noElse : NoElse ([] : List Token) := nofun
  have value := separates.value noElse
  have noted := separates.noted noElse
  rw [List.append_nil] at value noted
  rw [Program.ofTokens, Program.ahead_append_finish isEnd only,
    Program.ending_append_finish isEnd only]
  simp [value, noted, items]

/-- One item by itself is a segment that separates, if it leaves all that comes after it. -/
theorem ofItem {token : Token} {after : List Token} (tree : Option Stmt)
    (noElse : NoElse (token :: after))
    (item : ∀ {rest : List Token}, NoElse rest →
      (declaration finish false token (after ++ rest)).value = tree ∧
      (declaration finish false token (after ++ rest)).noted = faults ∧
      (declaration finish false token (after ++ rest)).rest.tokens = rest) :
    Separates finish (token :: after) tree.toList faults := by
  refine ⟨fun _ => noElse, fun noElse => ?_, fun noElse => ?_⟩
  · have ⟨value, _, unread⟩ := item noElse
    rw [List.cons_append, (items_cons finish false unread).1, value]
  · have ⟨_, noted, unread⟩ := item noElse
    rw [List.cons_append, (items_cons finish false unread).2, noted]

/-! ## Segments without faults -/

theorem ofDeclarationPhrase {tree : Stmt} (phrase : DeclarationPhrase segment tree) :
    Separates finish segment [tree] [] := by
  have noElse := phrase.begins.noElse rfl
  obtain ⟨token, after, rfl, _⟩ := phrase.begins
  exact ofItem (some tree) noElse fun _ => accepts_declaration_of_phrase phrase rfl

theorem ofSentence {dangling : Bool} {tree : Stmt}
    (sentence : Sentence false dangling segment tree) : Separates finish segment [tree] [] := by
  have begins := sentence.begins
  obtain ⟨token, after, rfl, _⟩ := sentence.begins
  refine ofItem (some tree) (begins.noElse rfl) fun noElse => ?_
  exact accepts_declaration_of_begins (begins.append _)
    (readsStatement_of_sentence finish sentence (fun _ => noElse) rfl)

/-- A program of the grammar separates. -/
theorem ofPhrase : {segment : List Token} → {trees : List Stmt} → ProgramPhrase segment trees →
    Separates finish segment trees []
  | _, _, .nil => nil
  | _, _, .declaration phrase others => (ofDeclarationPhrase phrase).append (ofPhrase others)
  | _, _, .statement sentence others => (ofSentence sentence).append (ofPhrase others)

end Separates

/-! ## Flat segments -/

/-- A statement that stands in a flat segment is told by its first token. -/
theorem statement_extends (finish : Token) {token : Token} {after : List Token}
    (flat : Flat (token :: after)) (more : List Token) :
    Reply.Extends more (· = []) (statement finish false (token :: after))
      (statement finish false (token :: (after ++ more))) := by
  have one := flat.oneSemicolon
  have without := flat.without token List.mem_cons_self
  by_cases isPrint : token.kind = .keyword .printWord
  · simp only [statement, isPrint]
    exact ((terminated_extends finish rfl rfl (one.tail (by simp [isPrint]))).map _).past token
  by_cases isBreak : token.kind = .keyword .breakWord
  · simp only [statement, isBreak]
    exact Reply.Extends.past token (.failed _ [] rfl (one.tail (by simp [isBreak])))
  by_cases isContinue : token.kind = .keyword .continueWord
  · simp only [statement, isContinue]
    exact Reply.extends_fail finish _ rfl one
  · have other : ∀ input, statement finish false (token :: input) =
        expressionStatement finish (token :: input) := by
      intro input
      apply statement_of_other <;> simp_all
    rw [other, other]
    exact expressionStatement_extends finish rfl one

theorem declaration_flat (finish : Token) {token : Token} {after : List Token}
    (flat : Flat (token :: after)) (more : List Token) :
    (declaration finish false token (after ++ more)).value =
        (declaration finish false token after).value ∧
      (declaration finish false token (after ++ more)).noted =
        (declaration finish false token after).noted ∧
      (declaration finish false token (after ++ more)).rest.tokens = more := by
  have noStart := flat.startsStatement_eq_false
  unfold declaration
  split
  · next isVar =>
      have one := flat.oneSemicolon.tail (by simp [isVar])
      exact ((declarationTail_extends finish rfl one).past token).recover noStart
  · exact (statement_extends finish flat more).recover noStart

/-- A flat segment separates, whatever its faults are. -/
theorem Separates.ofFlat {segment : List Token} (flat : Flat segment) :
    ∃ trees faults, Separates finish segment trees faults := by
  cases segment with
  | nil => cases flat.oneSemicolon
  | cons token after =>
      exact ⟨_, _, ofItem _ flat.notElse fun _ => declaration_flat finish flat _⟩

/-- Segments that separate one by one separate from each other. -/
theorem Separates.flatten {segments : List (List Token)} (isEnd : finish.kind = .finish)
    (only : ∀ segment ∈ segments, ∀ token ∈ segment, token.kind ≠ .finish)
    (each : ∀ segment ∈ segments, ∃ trees faults, Separates finish segment trees faults) :
    Separates finish segments.flatten
      (segments.flatMap fun segment => (Program.ofTokens (segment ++ [finish])).statements)
      (segments.flatMap fun segment => (Program.ofTokens (segment ++ [finish])).errors) := by
  induction segments with
  | nil => exact .nil
  | cons segment others inductionHypothesis =>
      have ⟨onlyHere, onlyLater⟩ := List.forall_mem_cons.mp only
      have ⟨⟨trees, faults, here⟩, later⟩ := List.forall_mem_cons.mp each
      have alone := here.ofTokens isEnd onlyHere
      simp only [List.flatten_cons, List.flatMap_cons, alone]
      exact here.append (inductionHypothesis onlyLater later)

end Grammar

/-- A program in segments comes to what its segments come to one by one, provided that each of them
is flat or free of faults. -/
theorem Program.ofTokens_flatten {finish : Token} (isEnd : finish.kind = .finish)
    {segments : List (List Token)}
    (only : ∀ segment ∈ segments, ∀ token ∈ segment, token.kind ≠ .finish)
    (each : ∀ segment ∈ segments,
      Flat segment ∨ (ofTokens (segment ++ [finish])).errors = []) :
    ofTokens (segments.flatten ++ [finish]) =
      ⟨segments.flatMap fun segment => (ofTokens (segment ++ [finish])).statements,
        segments.flatMap fun segment => (ofTokens (segment ++ [finish])).errors⟩ := by
  have separates : ∀ segment ∈ segments,
      ∃ trees faults, Grammar.Separates finish segment trees faults := by
    intro segment member
    rcases each segment member with flat | faultless
    · exact Grammar.Separates.ofFlat flat
    · exact ⟨_, _, .ofPhrase (phrase_of_errors_eq_nil isEnd (only segment member) faultless)⟩
  have onlyAtEnd : ∀ token ∈ segments.flatten, token.kind ≠ .finish := by
    intro token member
    obtain ⟨segment, isSegment, inside⟩ := List.mem_flatten.mp member
    exact only segment isSegment token inside
  exact (Grammar.Separates.flatten isEnd only separates).ofTokens isEnd onlyAtEnd

/-- A print statement without a value, an if without an else, and a declaration without a name. -/
def faultyNeighbours : List (List Token) :=
  [[plainToken (.keyword .printWord) "print", plainToken (.mark .semicolon) ";"],
    [plainToken (.keyword .ifWord) "if", plainToken (.mark .leftParen) "(",
      plainToken .identifier "a", plainToken (.mark .rightParen) ")",
      plainToken .identifier "b", plainToken (.mark .semicolon) ";"],
    [plainToken (.keyword .varWord) "var", plainToken (.mark .equal) "=",
      plainToken (.mark .semicolon) ";"]]

/-- Of three statements in a row the middle one is read, although there are faults on both of its
sides, and each of the others has one fault. -/
theorem ofTokens_faultyNeighbours :
    (∀ segment ∈ faultyNeighbours, ∀ token ∈ segment, token.kind ≠ .finish) ∧
      (∀ segment ∈ faultyNeighbours,
        Flat segment ∨ (Program.ofTokens (segment ++ [.finish 1])).errors = []) ∧
      Program.ofTokens (faultyNeighbours.flatten ++ [.finish 1]) =
        ⟨[.ifThen (.variable (plainToken .identifier "a"))
            (.expression (.variable (plainToken .identifier "b")))],
          [⟨plainToken (.mark .semicolon) ";", .missingExpression⟩,
            ⟨plainToken (.mark .equal) "=", .missing .variableName⟩]⟩ := by
  have only : ∀ segment ∈ faultyNeighbours, ∀ token ∈ segment, token.kind ≠ .finish := by
    simp [faultyNeighbours, plainToken]
  have printFlat : Flat [plainToken (.keyword .printWord) "print",
      plainToken (.mark .semicolon) ";"] :=
    ⟨⟨[_], _, rfl, rfl, by simp [plainToken]⟩, by simp [plainToken], by simp [plainToken],
      by simp [plainToken]⟩
  have varFlat : Flat [plainToken (.keyword .varWord) "var", plainToken (.mark .equal) "=",
      plainToken (.mark .semicolon) ";"] :=
    ⟨⟨[_, _], _, rfl, rfl, by simp [plainToken]⟩, by simp [plainToken], by simp [plainToken],
      by simp [plainToken]⟩
  have ifClean : (Program.ofTokens ([plainToken (.keyword .ifWord) "if",
      plainToken (.mark .leftParen) "(", plainToken .identifier "a",
      plainToken (.mark .rightParen) ")", plainToken .identifier "b",
      plainToken (.mark .semicolon) ";"] ++ [.finish 1])).errors = [] := by
    cbv
  have each : ∀ segment ∈ faultyNeighbours,
      Flat segment ∨ (Program.ofTokens (segment ++ [.finish 1])).errors = [] := by
    simpa [faultyNeighbours] using ⟨.inl printFlat, .inr ifClean, .inl varFlat⟩
  refine ⟨only, each, ?_⟩
  rw [Program.ofTokens_flatten rfl only each]
  cbv

end BlockScript
