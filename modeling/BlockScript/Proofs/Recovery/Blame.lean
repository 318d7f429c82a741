import BlockScript.Proofs.Cursor.Walk
import BlockScript.Proofs.Grammar.Reading
import BlockScript.Session.Report

/-!
# What errors are blamed on

A syntax error is blamed on a token, and this token is left behind: reading goes on after it, so that
no later error can be blamed on it. Only the end token is never left behind, and only an assignment to
what is no variable is noted later than the errors in what is assigned. `Blamed` says how errors are
found, the rules of the grammar find them in this way only, and `Program.blames_ofTokens` says what
this means for all the errors of a program.
-/

namespace BlockScript

variable {α β : Type} {least first : Nat} {finish : Token} {input : List Token}

/-! ## How errors are found -/

/-- Reading from some tokens up to unread ones can find these errors. -/
inductive Blamed (finish : Token) : List Token → List Token → List SyntaxError → Prop where
  | nothing {input unread : List Token} (isSuffix : unread <:+ input) : Blamed finish input unread []
  /-- The token to blame is the next one, and it is given up. At the end of the tokens there is none
  to give up. -/
  | next {input place unread : List Token} (fault : SyntaxFault) (isSuffix : place <:+ input)
      (givenUp : unread <:+ place.tail) : Blamed finish input unread [⟨place.headD finish, fault⟩]
  /-- The equals sign of an assignment is blamed when what is assigned has been read. -/
  | target {input after unread : List Token} {equals : Token} {errors : List SyntaxError}
      (isSuffix : equals :: after <:+ input) (value : Blamed finish after unread errors) :
      Blamed finish input unread (errors ++ [⟨equals, .invalidAssignmentTarget⟩])
  | trans {input middle unread : List Token} {errors more : List SyntaxError}
      (first : Blamed finish input middle errors) (second : Blamed finish middle unread more) :
      Blamed finish input unread (errors ++ more)

namespace Blamed

variable {unread source : List Token} {errors : List SyntaxError}

theorem isSuffix (blamed : Blamed finish input unread errors) : unread <:+ input := by
  induction blamed with
  | nothing isSuffix => exact isSuffix
  | next fault isSuffix givenUp => exact givenUp.trans ((List.tail_suffix _).trans isSuffix)
  | target isSuffix value inductionHypothesis =>
      exact inductionHypothesis.trans ((List.suffix_cons _ _).trans isSuffix)
  | trans first second firstIH secondIH => exact secondIH.trans firstIH

/-- Reading can as well start earlier. -/
theorem extend (blamed : Blamed finish input unread errors) (isSuffix : input <:+ source) :
    Blamed finish source unread errors :=
  .trans (.nothing isSuffix) blamed

end Blamed

theorem Grammar.resume_suffix_tail (input : List Token) : resume input <:+ input.tail := by
  cases input with
  | nil => exact List.suffix_refl []
  | cons token after => exact skip_suffix token.kind after

/-! ## Replies -/

namespace Reply

/-- The errors of the reply are found in what it has read or, if it has failed, in what is given
up. -/
def Blames (finish : Token) : Reply α least input → Prop
  | parsed _ noted rest => Blamed finish input rest.tokens noted
  | failed error noted rest =>
      Blamed finish input (Grammar.resume rest.tokens) (noted ++ [error])

variable {reply : Reply α least input}

theorem blames_done (value : α) : (done value : Reply α 0 input).Blames finish :=
  .nothing (List.suffix_refl input)

theorem blames_fail (fault : SyntaxFault) :
    (fail finish input fault : Reply α least input).Blames finish :=
  .next fault (List.suffix_refl input) (Grammar.resume_suffix_tail input)

theorem Blames.map {f : α → β} (blames : reply.Blames finish) : (reply.map f).Blames finish := by
  cases reply with
  | parsed value noted rest => exact blames
  | failed error noted rest => exact blames

theorem Blames.within {rest : Rest first input} {reply : Reply α least rest.tokens}
    (blames : reply.Blames finish) : (within rest reply).Blames finish := by
  cases reply with
  | parsed value noted further => exact blames.extend rest.isSuffix
  | failed error noted further => exact blames.extend rest.isSuffix

theorem Blames.past {token : Token} {after : List Token} {reply : Reply α least after}
    (blames : reply.Blames finish) : (past token reply).Blames finish := by
  cases reply with
  | parsed value noted rest => exact blames.extend (List.suffix_cons token after)
  | failed error noted rest => exact blames.extend (List.suffix_cons token after)

theorem Blames.noteFirst {earlier : List SyntaxError} {rest : Rest first input}
    {reply : Reply α least rest.tokens} (blames : reply.Blames finish)
    (found : Blamed finish input rest.tokens earlier) :
    (Reply.within rest (reply.noteFirst earlier)).Blames finish := by
  cases reply with
  | parsed value noted further => exact found.trans blames
  | failed error noted further =>
      have both := found.trans blames
      rwa [← List.append_assoc] at both

theorem Blames.bind {reply : Reply α first input}
    {next : α → (rest : Rest first input) → Reply β least rest.tokens}
    (blames : reply.Blames finish) (continued : ∀ value rest, (next value rest).Blames finish) :
    (reply.bind next).Blames finish := by
  cases reply with
  | failed error noted rest => exact blames
  | parsed value noted rest =>
      have found := continued value rest
      rw [Reply.bind]
      cases reached : next value rest with
      | parsed result further last =>
          rw [reached] at found
          exact Blamed.trans blames found
      | failed error further last =>
          rw [reached] at found
          have both := Blamed.trans blames found
          rwa [← List.append_assoc] at both

/-- A value is read before it is found that nothing can be assigned to the target. -/
theorem Blames.target {equals : Token} {after : Rest 1 input} {target : β}
    {reply : Reply α least after.tokens} (split : input = equals :: after.tokens)
    (blames : reply.Blames finish) :
    (Reply.within after (reply.bind fun _ _ =>
      (Reply.done target).note ⟨equals, .invalidAssignmentTarget⟩)).Blames finish := by
  cases reply with
  | failed error noted rest => exact Blamed.extend blames after.isSuffix
  | parsed value noted rest =>
      exact Blamed.target ⟨[], split.symm⟩ blames

end Reply

theorem expect_blames (expected : Expected) : (expect finish expected input).Blames finish := by
  rw [expect]
  split
  · next token rest found => exact .nothing rest.isSuffix
  · exact Reply.blames_fail _

/-! ## Expressions -/

namespace Grammar

/-- The errors of an expression are found in its tokens, at every level. -/
theorem expression_blames (finish : Token) (level : Level) (input : List Token) :
    (expression finish level input).Blames finish := by
  refine expression.induct
    (fun level input => (expression finish level input).Blames finish)
    (fun chain left input => (joined finish chain left input).Blames finish)
    ?assignment ?chain ?ternary ?noOperator ?operator ?nothing ?leaf ?grouping ?other ?finished
    ?continued level input
  case assignment =>
    intro input orIH valueIH
    rw [expression]
    apply orIH.bind
    intro target rest
    split
    · exact Reply.blames_done target
    · next equals after found =>
        have value := valueIH rest after
        cases target with
        | «variable» name => exact (value.bind fun _ _ => Reply.blames_done _).within
        | _ => exact value.target (next?_eq_some.mp found).2
  case chain =>
    intro input chain operandIH joinedIH
    rw [expression]
    exact operandIH.bind fun left rest => joinedIH left rest
  case ternary =>
    intro input equalityIH trueIH falseIH
    rw [expression]
    apply equalityIH.bind
    intro condition rest
    split
    · exact Reply.blames_done condition
    · next question after _ =>
        apply Reply.Blames.within
        apply (trueIH rest after).bind
        intro whenTrue branchRest
        apply (expect_blames _).bind
        intro colon colonRest
        exact (falseIH rest after branchRest colonRest).bind fun _ _ => Reply.blames_done _
  case noOperator =>
    intro input absent primaryIH
    rw [expression, absent]
    exact primaryIH
  case operator =>
    intro input operator after found operandIH
    rw [expression, found]
    exact (operandIH.bind fun _ _ => Reply.blames_done _).within
  case nothing =>
    rw [expression]
    exact Reply.blames_fail _
  case leaf =>
    intro token after leaf found
    rw [expression, found]
    exact (Reply.blames_done leaf).within
  case grouping =>
    intro token after noLeaf isOpening innerIH
    rw [expression, noLeaf, if_pos isOpening]
    apply Reply.Blames.within
    apply innerIH.bind
    intro inner rest
    exact (expect_blames _).bind fun _ _ => Reply.blames_done _
  case other =>
    intro token after noLeaf noParen
    rw [expression, noLeaf, if_neg noParen]
    exact Reply.blames_fail _
  case finished =>
    intro chain left input absent
    rw [joined, absent]
    exact Reply.blames_done left
  case continued =>
    intro chain left input operator after found operandIH joinedIH
    rw [joined, found]
    apply Reply.Blames.within
    exact operandIH.bind fun right rest => joinedIH right rest

/-! ## Statements -/

theorem terminated_blames (semicolon : Expected) : (terminated finish semicolon input).Blames finish :=
  (expression_blames finish _ input).bind fun _ _ => (expect_blames _).map

theorem expressionStatement_blames : (expressionStatement finish input).Blames finish :=
  (terminated_blames _).map

theorem declarationTail_blames : (declarationTail finish input).Blames finish := by
  apply (expect_blames _).bind
  intro name rest
  split
  · exact (terminated_blames _).map.within
  · exact (expect_blames _).map

theorem condition_blames (opening closing : Expected) :
    (condition finish opening closing input).Blames finish := by
  apply (expect_blames _).bind
  intro _ rest
  exact (expression_blames finish _ rest.tokens).bind fun _ _ => (expect_blames _).map

theorem initialClause_blames : (initialClause finish input).Blames finish := by
  rw [initialClause]
  split
  · next semicolon after _ => exact .nothing after.isSuffix
  · split
    · exact declarationTail_blames.map.within
    · exact expressionStatement_blames.map

theorem optionalClause_blames (closing : Expected) :
    (optionalClause finish closing input).Blames finish := by
  rw [optionalClause]
  split
  · next token after _ => exact .nothing after.isSuffix
  · exact (expression_blames finish _ input).bind fun _ _ => (expect_blames _).map

theorem clauses_blames : (clauses finish input).Blames finish := by
  apply (expect_blames _).bind
  intro _ rest
  apply initialClause_blames.bind
  intro initial rest
  apply (optionalClause_blames _).bind
  intro condition rest
  exact (optionalClause_blames _).map

end Grammar

theorem Reply.Blames.recover {token : Token} {after : List Token} {reply : Reply α 1 (token :: after)}
    (blames : reply.Blames finish) :
    Blamed finish (token :: after) reply.recover.rest.tokens reply.recover.noted := by
  cases reply with
  | parsed value noted rest => exact blames
  | failed error noted rest => exact blames

namespace Grammar

/-- The errors of statements are found in their tokens and in those that are given up. -/
theorem statements_blame (finish : Token) :
    (∀ inLoop input, (statement finish inLoop input).Blames finish) ∧
    (∀ inLoop inBlock input, Blamed finish input (items finish inLoop inBlock input).rest.tokens
      (items finish inLoop inBlock input).noted) ∧
    (∀ inLoop token after, Blamed finish (token :: after)
      (declaration finish inLoop token after).rest.tokens
      (declaration finish inLoop token after).noted) := by
  refine statement.mutual_induct finish
    (fun inLoop input => (statement finish inLoop input).Blames finish)
    (fun inLoop inBlock input => Blamed finish input
      (items finish inLoop inBlock input).rest.tokens (items finish inLoop inBlock input).noted)
    (fun inLoop token after => Blamed finish (token :: after)
      (declaration finish inLoop token after).rest.tokens
      (declaration finish inLoop token after).noted)
    ?nothing ?ifWord ?printWord ?block ?whileWord ?forWord ?breakWord ?continueWord ?expression
    ?noItems ?closing ?item ?variableDeclaration ?otherDeclaration
  case nothing =>
    intro inLoop
    rw [statement]
    exact expressionStatement_blames
  case ifWord =>
    intro inLoop token after isIf trueIH falseIH
    rw [statement, isIf]
    apply Reply.Blames.past
    apply (condition_blames _ _).bind
    intro test rest
    apply (trueIH rest).bind
    intro whenTrue further
    split
    · exact Reply.blames_done _
    · next elseWord last _ =>
        apply Reply.Blames.within
        exact (falseIH rest further last).bind fun _ _ => Reply.blames_done _
  case printWord =>
    intro inLoop token after isPrint
    rw [statement, isPrint]
    exact (terminated_blames _).map.past
  case block =>
    intro inLoop token after isOpening itemsIH
    rw [statement, isOpening]
    exact ((expect_blames _).map.noteFirst itemsIH).past
  case whileWord =>
    intro inLoop token after isWhile bodyIH
    rw [statement, isWhile]
    apply Reply.Blames.past
    apply (condition_blames _ _).bind
    intro test rest
    exact (bodyIH rest).map
  case forWord =>
    intro inLoop token after isFor bodyIH
    rw [statement, isFor]
    apply Reply.Blames.past
    apply clauses_blames.bind
    intro parts rest
    exact (bodyIH rest).map
  case breakWord =>
    intro inLoop token after isBreak
    rw [statement, isBreak]
    cases inLoop with
    | true => exact (expect_blames _).map.past
    | false =>
        -- The keyword has been read when it is blamed, so that recovery gives up what follows it.
        have isNext : token :: after <:+ token :: after := List.suffix_refl _
        exact .next _ isNext (resume_suffix after)
  case continueWord =>
    intro inLoop token after isContinue
    rw [statement, isContinue]
    exact Reply.blames_fail _
  case expression =>
    intro inLoop token after notIf notPrint notBrace notWhile notFor notBreak notContinue
    rw [statement_of_other notIf notPrint notBrace notWhile notFor notBreak notContinue]
    exact expressionStatement_blames
  case noItems =>
    intro inLoop inBlock
    rw [items]
    exact .nothing (List.suffix_refl [])
  case closing =>
    intro inLoop inBlock token after isClosing
    rw [items, if_pos isClosing]
    exact .nothing (List.suffix_refl _)
  case item =>
    intro inLoop inBlock token after notClosing item itemIH othersIH
    rw [items, if_neg notClosing]
    exact itemIH.trans othersIH
  case variableDeclaration =>
    intro inLoop token after isVar
    rw [declaration, if_pos isVar]
    exact declarationTail_blames.past.recover
  case otherDeclaration =>
    intro inLoop token after notVar statementIH
    rw [declaration, if_neg notVar]
    exact statementIH.recover

end Grammar

/-! ## Positions -/

/-- An error and the position of the token that it is blamed on. -/
structure Blame where
  position : Nat
  error : SyntaxError

namespace Blame

def aboutTarget (blame : Blame) : Bool :=
  blame.error.fault.message == "Invalid assignment target."

/-- The errors are blamed on tokens of the list, and no token is blamed twice unless it is an end
token. Errors about targets apart, they are found in the order of the tokens to blame. -/
structure Fair (tokens : List Token) (errors : List SyntaxError) (blames : List Blame) : Prop where
  assigned : blames.map (·.error) = errors
  atToken : ∀ blame ∈ blames, ∃ token, tokens[blame.position]? = some token ∧
    blame.error.token = token ∧ blame.error.report = .atToken token blame.error.fault.message
  notBeyond : ∀ blame ∈ blames, blame.position ≤ tokens.findIdx (·.kind == .finish)
  once : blames.Pairwise fun first second =>
    first.position = second.position → first.error.token.kind = .finish
  ascending : (blames.filter (!·.aboutTarget)).Pairwise fun first second =>
    first.position ≤ second.position

/-- The blamed token is one of those that were unread at first and are read or given up later. -/
structure Between (tokens input unread : List Token) (blame : Blame) : Prop where
  fromInput : (Program.ahead tokens).length ≤ blame.position + input.length
  upToUnread : blame.position + unread.length ≤ (Program.ahead tokens).length
  /-- Only an end token can still be unread when it has been blamed. -/
  givenUp : blame.position + unread.length = (Program.ahead tokens).length →
    blame.error.token.kind = .finish

variable {tokens middle unread : List Token} {errors more : List SyntaxError}
variable {blames others : List Blame} {blame : Blame}

theorem Fair.nil : Fair tokens [] [] where
  assigned := rfl
  atToken := by simp
  notBeyond := by simp
  once := .nil
  ascending := .nil

theorem Fair.append (first : Fair tokens errors blames) (second : Fair tokens more others)
    (once : ∀ blame ∈ blames, ∀ other ∈ others,
      blame.position = other.position → blame.error.token.kind = .finish)
    (ascending : ∀ blame ∈ blames, ∀ other ∈ others,
      other.aboutTarget = false → blame.position ≤ other.position) :
    Fair tokens (errors ++ more) (blames ++ others) where
  assigned := by rw [List.map_append, first.assigned, second.assigned]
  atToken := List.forall_mem_append.mpr ⟨first.atToken, second.atToken⟩
  notBeyond := List.forall_mem_append.mpr ⟨first.notBeyond, second.notBeyond⟩
  once := List.pairwise_append.mpr ⟨first.once, second.once, once⟩
  ascending := by
    rw [List.filter_append]
    refine List.pairwise_append.mpr ⟨first.ascending, second.ascending, ?_⟩
    intro blame isBlame other isOther
    rw [List.mem_filter] at isBlame isOther
    exact ascending blame isBlame.1 other isOther.1 (by simpa using isOther.2)

/-- An error of the next token is blamed on the token where reading stands. -/
theorem Fair.singleton (finishes : ∃ token ∈ tokens, token.kind = .finish)
    (left : input <:+ Program.ahead tokens) (fault : SyntaxFault) {position : Nat}
    (stands : position + input.length = (Program.ahead tokens).length) :
    Fair tokens [⟨input.headD (Program.ending tokens), fault⟩]
      [⟨position, ⟨input.headD (Program.ending tokens), fault⟩⟩] where
  assigned := rfl
  atToken := List.forall_mem_singleton.mpr
    ⟨_, Program.getElem?_of_suffix finishes left stands, rfl, rfl⟩
  notBeyond := by
    rw [List.forall_mem_singleton, ← Program.length_ahead]
    exact Nat.le_of_add_right_le (Nat.le_of_eq stands)
  once := List.pairwise_singleton _ _
  ascending := (List.pairwise_singleton _ _).filter _

/-- The next token is left behind, unless it is the end token. -/
theorem Between.next (finishes : ∃ token ∈ tokens, token.kind = .finish) (fault : SyntaxFault)
    {position : Nat} (stands : position + input.length = (Program.ahead tokens).length)
    (givenUp : unread <:+ input.tail) :
    Between tokens input unread ⟨position, ⟨input.headD (Program.ending tokens), fault⟩⟩ := by
  have shorter := givenUp.length_le
  rw [List.length_tail] at shorter
  refine ⟨Nat.le_of_eq stands.symm, ?_, ?_⟩
  · dsimp only
    omega
  · intro isLast
    cases input with
    | nil => exact (Program.eq_ahead_append finishes).1
    | cons token after =>
        simp only [List.length_cons, Nat.add_sub_cancel] at shorter stands isLast
        omega

theorem Between.extend (between : Between tokens middle unread blame) (isSuffix : middle <:+ input) :
    Between tokens input unread blame where
  fromInput := between.fromInput.trans (Nat.add_le_add_left isSuffix.length_le _)
  upToUnread := between.upToUnread
  givenUp := between.givenUp

theorem Between.readOn (between : Between tokens input middle blame) (isSuffix : unread <:+ middle) :
    Between tokens input unread blame where
  fromInput := between.fromInput
  upToUnread := (Nat.add_le_add_left isSuffix.length_le _).trans between.upToUnread
  givenUp := by
    intro isLast
    have shorter := isSuffix.length_le
    have inTime := between.upToUnread
    exact between.givenUp (by omega)

/-- What is read first is blamed on earlier tokens, or on the end token like what is read later. -/
theorem Between.apart {other : Blame} (between : Between tokens input middle blame)
    (otherBetween : Between tokens middle unread other) :
    blame.position ≤ other.position ∧
      (blame.position = other.position → blame.error.token.kind = .finish) := by
  have inTime := between.upToUnread
  have later := otherBetween.fromInput
  exact ⟨by omega, fun same => between.givenUp (by omega)⟩

end Blame

/-- Errors that can be found between some tokens and unread ones are fairly blamed on what stands
between these. -/
theorem Blamed.fair {tokens unread : List Token} {errors : List SyntaxError}
    (finishes : ∃ token ∈ tokens, token.kind = .finish)
    (blamed : Blamed (Program.ending tokens) input unread errors)
    (left : input <:+ Program.ahead tokens) :
    ∃ blames, Blame.Fair tokens errors blames ∧
      ∀ blame ∈ blames, blame.Between tokens input unread := by
  induction blamed with
  | nothing isSuffix => exact ⟨[], .nil, by simp⟩
  | next fault isSuffix givenUp =>
      have stands := Nat.sub_add_cancel (isSuffix.trans left).length_le
      have between := Blame.Between.next finishes fault stands givenUp
      exact ⟨_, .singleton finishes (isSuffix.trans left) fault stands,
        List.forall_mem_singleton.mpr (between.extend isSuffix)⟩
  | @target input after unread equals errors isSuffix value inductionHypothesis =>
      have inValue := (List.suffix_cons equals after).trans isSuffix
      obtain ⟨blames, fair, between⟩ := inductionHypothesis (inValue.trans left)
      have stands := Nat.sub_add_cancel (isSuffix.trans left).length_le
      have equalsFair := Blame.Fair.singleton finishes (isSuffix.trans left)
        .invalidAssignmentTarget stands
      have equalsBetween := Blame.Between.next finishes .invalidAssignmentTarget stands value.isSuffix
      refine ⟨_, fair.append equalsFair ?once ?ascending, List.forall_mem_append.mpr ⟨?_, ?_⟩⟩
      case once =>
        -- The value comes after its equals sign, which is therefore not blamed by it.
        intro blame isBlame
        rw [List.forall_mem_singleton]
        intro same
        have behind := (between blame isBlame).fromInput
        simp only [List.length_cons] at same stands
        omega
      case ascending =>
        intro blame _
        rw [List.forall_mem_singleton]
        intro notTarget
        cases notTarget
      · exact fun blame isBlame => (between blame isBlame).extend inValue
      · exact List.forall_mem_singleton.mpr (equalsBetween.extend isSuffix)
  | trans first second firstIH secondIH =>
      obtain ⟨blames, fair, between⟩ := firstIH left
      obtain ⟨others, othersFair, othersBetween⟩ := secondIH (first.isSuffix.trans left)
      refine ⟨_, fair.append othersFair ?once ?ascending, List.forall_mem_append.mpr ⟨?_, ?_⟩⟩
      case once =>
        intro blame isBlame other isOther
        exact ((between blame isBlame).apart (othersBetween other isOther)).2
      case ascending =>
        intro blame isBlame other isOther _
        exact ((between blame isBlame).apart (othersBetween other isOther)).1
      · exact fun blame isBlame => (between blame isBlame).readOn second.isSuffix
      · exact fun other isOther => (othersBetween other isOther).extend first.isSuffix

/-- The errors of a token list with an end are blamed on tokens up to the first end token, on no
other token twice, and, those about targets apart, in the order of the tokens. -/
theorem Program.blames_ofTokens {tokens : List Token}
    (finishes : ∃ token ∈ tokens, token.kind = .finish) :
    ∃ blames, Blame.Fair tokens (ofTokens tokens).errors blames := by
  have blamed := (Grammar.statements_blame (ending tokens)).2.1 false false (ahead tokens)
  obtain ⟨blames, fair, -⟩ := blamed.fair finishes (List.suffix_refl _)
  exact ⟨blames, fair⟩

/-- The tokens of two blocks that are never closed. The outer one assigns to a literal, and the inner
one has a stray parenthesis. -/
def openBlocks : List Token :=
  [⟨.mark .leftBrace, "\x7b", none, 1⟩, ⟨.keyword .nilWord, "nil", none, 2⟩,
    ⟨.mark .equal, "=", none, 2⟩, ⟨.keyword .trueWord, "true", none, 2⟩,
    ⟨.mark .semicolon, ";", none, 2⟩, ⟨.mark .leftBrace, "\x7b", none, 3⟩,
    ⟨.mark .rightParen, ")", none, 4⟩, .finish 5]

/-- Both blocks blame the end token, and no other token is blamed twice. -/
theorem Program.blames_openBlocks :
    (∃ token ∈ openBlocks, token.kind = .finish) ∧
      (ofTokens openBlocks).errors =
        [⟨⟨.mark .equal, "=", none, 2⟩, .invalidAssignmentTarget⟩,
          ⟨⟨.mark .rightParen, ")", none, 4⟩, .missingExpression⟩,
          ⟨.finish 5, .missing .closeBraceAfterBlock⟩,
          ⟨.finish 5, .missing .closeBraceAfterBlock⟩] ∧
      ∃ blames, Blame.Fair openBlocks (ofTokens openBlocks).errors blames := by
  have finishes : ∃ token ∈ openBlocks, token.kind = .finish := by decide
  have read : (ofTokens openBlocks).errors =
      [⟨⟨.mark .equal, "=", none, 2⟩, .invalidAssignmentTarget⟩,
        ⟨⟨.mark .rightParen, ")", none, 4⟩, .missingExpression⟩,
        ⟨.finish 5, .missing .closeBraceAfterBlock⟩,
        ⟨.finish 5, .missing .closeBraceAfterBlock⟩] := by
    cbv
  exact ⟨finishes, read, blames_ofTokens finishes⟩

end BlockScript
