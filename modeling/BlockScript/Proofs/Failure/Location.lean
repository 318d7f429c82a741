import BlockScript.Proofs.Failure.Provenance
import BlockScript.Proofs.Grammar.Phrase
import BlockScript.Proofs.Semantics.Interpretation
import BlockScript.Proofs.Session.Law
import BlockScript.Proofs.Session.Writing
import BlockScript.Proofs.Source.Accounting

/-!
# Where runs fail

A run fails at a token of its source, and the wording of the failure fits the kind of that token. No
run of a program that has been read fails because of a token that is no operator, since the reader
puts no such token where an operator belongs.
-/

namespace BlockScript

/-- The failures that runs of a program from the source tokens can end with. -/
inductive Failure.LocatedIn (source : List Token) : Failure → Prop where
  | notNumber {operator : Token} (member : operator ∈ source)
      (kind : operator.kind = .mark .minus) :
      LocatedIn source ⟨operator, "Operand must be a number."⟩
  | notNumbers {operator : Token} (member : operator ∈ source)
      (kind : operator.kind ∈ [.mark .minus, .mark .star, .mark .slash, .mark .greater,
        .mark .greaterEqual, .mark .less, .mark .lessEqual]) :
      LocatedIn source ⟨operator, "Operands must be numbers."⟩
  | notAddable {operator : Token} (member : operator ∈ source) (kind : operator.kind = .mark .plus) :
      LocatedIn source ⟨operator, "Operands must be two numbers or two strings."⟩
  | notBoolean {question : Token} (member : question ∈ source)
      (kind : question.kind = .mark .question) :
      LocatedIn source ⟨question, "Ternary condition must be a boolean."⟩
  | undefined {name : Token} (member : name ∈ source) (kind : name.kind = .identifier) :
      LocatedIn source ⟨name, "Undefined variable '" ++ name.lexeme ++ "'."⟩
  | uninitialized {name : Token} (member : name ∈ source) (kind : name.kind = .identifier) :
      LocatedIn source ⟨name, "Cannot access uninitialized variable '" ++ name.lexeme ++ "'."⟩

variable {source : List Token} {failure : Failure}

namespace Failure.LocatedIn

theorem member (located : failure.LocatedIn source) : failure.token ∈ source := by
  cases located <;> assumption

theorem mono {larger : List Token} (located : failure.LocatedIn source)
    (within : ∀ token ∈ source, token ∈ larger) : failure.LocatedIn larger := by
  cases located with
  | notNumber member kind => exact .notNumber (within _ member) kind
  | notNumbers member kind => exact .notNumbers (within _ member) kind
  | notAddable member kind => exact .notAddable (within _ member) kind
  | notBoolean member kind => exact .notBoolean (within _ member) kind
  | undefined member kind => exact .undefined (within _ member) kind
  | uninitialized member kind => exact .uninitialized (within _ member) kind

/-- An unknown operator is not among these failures: the wordings differ in their first letters. -/
theorem ne_unknown (located : failure.LocatedIn source) (operator : Token) :
    failure ≠ operator.unknown := by
  intro same
  have letters := congrArg (fun failure : Failure => failure.message.toList.take 3) same
  cases located <;> simp [Token.unknown] at letters

end Failure.LocatedIn

/-! ## Operators -/

/-- A binary operator that does not look at the types of its operands computes or compares. -/
theorem Kind.cases_isBinaryOperator {kind : Kind} (isOperator : kind.isBinaryOperator = true) :
    Generic kind ∨ (∃ compute, Arithmetic kind compute) ∨ ∃ relation, Comparison kind relation := by
  simp only [Kind.isBinaryOperator, Bool.or_eq_true, Chain.joins_iff_mem_operators, Chain.operators,
    List.mem_cons, List.not_mem_nil, or_false] at isOperator
  rcases isOperator with (((rfl | rfl) | (rfl | rfl | rfl | rfl)) | (rfl | rfl)) | (rfl | rfl)
  · exact .inl .inequality
  · exact .inl .equality
  · exact .inr (.inr ⟨_, .greater⟩)
  · exact .inr (.inr ⟨_, .greaterEqual⟩)
  · exact .inr (.inr ⟨_, .less⟩)
  · exact .inr (.inr ⟨_, .lessEqual⟩)
  · exact .inr (.inl ⟨_, .difference⟩)
  · exact .inl .sum
  · exact .inr (.inl ⟨_, .quotient⟩)
  · exact .inr (.inl ⟨_, .product⟩)

theorem Kind.isConnective_iff {kind : Kind} :
    kind.isConnective = true ↔ kind = .keyword .orWord ∨ kind = .keyword .andWord := by
  simp [Kind.isConnective, Chain.joins_iff_mem_operators, Chain.operators]

theorem UnaryResult.locatedIn {operator : Token} {value : Value}
    (operation : UnaryResult operator value (.error failure))
    (stands : operator.StandsIn source Kind.isUnaryOperator) : failure.LocatedIn source := by
  cases operation with
  | notNegatable isMinus _ => exact .notNumber stands.member isMinus
  | unknown notMinus notBang =>
      rcases Kind.isUnaryOperator_iff.mp stands.wanted with isBang | isMinus
      · exact absurd isBang notBang
      · exact absurd isMinus notMinus

theorem BinaryResult.locatedIn {operator : Token} {left right : Value}
    (operation : BinaryResult operator left right (.error failure))
    (stands : operator.StandsIn source Kind.isBinaryOperator) : failure.LocatedIn source := by
  have cases_operator := Kind.cases_isBinaryOperator stands.wanted
  cases operation with
  | notAddable isPlus _ _ => exact .notAddable stands.member isPlus
  | notNumbers numeric _ =>
      refine .notNumbers stands.member ?_
      obtain generic | ⟨compute, arithmetic⟩ | ⟨relation, comparison⟩ := cases_operator
      · exact absurd generic numeric
      · generalize operator.kind = kind at arithmetic
        cases arithmetic <;> decide
      · generalize operator.kind = kind at comparison
        cases comparison <;> decide
  | unknown first second numeric notArithmetic notComparison =>
      obtain generic | ⟨compute, arithmetic⟩ | ⟨relation, comparison⟩ := cases_operator
      · exact absurd generic numeric
      · exact absurd arithmetic (notArithmetic compute)
      · exact absurd comparison (notComparison relation)

/-! ## Evaluation and execution -/

theorem Evaluates.locatedIn {expr : Expr} {before after : Scopes} {result : Except Failure Value}
    (evaluated : Evaluates expr before result after) (made : expr.MadeOf source)
    (failed : result = .error failure) : failure.LocatedIn source := by
  induction evaluated with
  | literal | decided | «variable» | assign => cases failed
  | grouping _ innerIH =>
      cases made with
      | grouping innerMade => exact innerIH innerMade failed
  | uninitialized _ =>
      cases failed
      cases made with
      | «variable» stands => exact .uninitialized stands.member (by simpa using stands.wanted)
  | undefined _ =>
      cases failed
      cases made with
      | «variable» stands => exact .undefined stands.member (by simpa using stands.wanted)
  | assignUndefined _ _ _ =>
      cases failed
      cases made with
      | assign stands _ => exact .undefined stands.member (by simpa using stands.wanted)
  | assignFails _ valueIH =>
      cases made with
      | assign _ valueMade => exact valueIH valueMade failed
  | unary _ operation _ =>
      cases made with
      | unary stands _ => exact (failed ▸ operation).locatedIn stands
  | unaryFails _ operandIH =>
      cases made with
      | unary _ operandMade => exact operandIH operandMade failed
  | binary _ _ operation _ _ =>
      cases made with
      | binary stands _ _ => exact (failed ▸ operation).locatedIn stands
  | binaryFailsLeft _ leftIH =>
      cases made with
      | binary _ leftMade _ => exact leftIH leftMade failed
  | binaryFailsRight _ _ _ rightIH =>
      cases made with
      | binary _ _ rightMade => exact rightIH rightMade failed
  | deferred _ _ _ _ rightIH =>
      cases made with
      | logical _ _ rightMade => exact rightIH rightMade failed
  | noConnective _ notOr notAnd _ =>
      cases made with
      | logical stands _ _ =>
          rcases Kind.isConnective_iff.mp stands.wanted with isOr | isAnd
          · exact absurd isOr notOr
          · exact absurd isAnd notAnd
  | logicalFails _ leftIH =>
      cases made with
      | logical _ leftMade _ => exact leftIH leftMade failed
  | chosenTrue _ _ _ branchIH =>
      cases made with
      | ternary _ _ trueMade _ => exact branchIH trueMade failed
  | chosenFalse _ _ _ branchIH =>
      cases made with
      | ternary _ _ _ falseMade => exact branchIH falseMade failed
  | notBoolean _ _ _ =>
      cases failed
      cases made with
      | ternary stands _ _ _ => exact .notBoolean stands.member (by simpa using stands.wanted)
  | ternaryFails _ conditionIH =>
      cases made with
      | ternary _ conditionMade _ _ => exact conditionIH conditionMade failed

mutual

theorem Executes.locatedIn : {statement : Stmt} → {before after : Machine} →
    {result : Except Failure Completion} → Executes statement before result after →
    statement.MadeOf source → result = .error failure → failure.LocatedIn source
  | _, _, _, _, .print _, _, failed | _, _, _, _, .expression _, _, failed
  | _, _, _, _, .declare _, _, failed | _, _, _, _, .declareHolding _ _, _, failed
  | _, _, _, _, .ifThenSkips _ _, _, failed | _, _, _, _, .whileEnds _ _, _, failed
  | _, _, _, _, .whileBroken _ _ _, _, failed | _, _, _, _, .breakLoop, _, failed => nomatch failed
  | _, _, _, _, .printFails evaluated, made, failed => by
      cases made with
      | print made => exact evaluated.locatedIn made (by simpa using failed)
  | _, _, _, _, .expressionFails evaluated, made, failed => by
      cases made with
      | expression made => exact evaluated.locatedIn made (by simpa using failed)
  | _, _, _, _, .declareFails evaluated, made, failed => by
      cases made with
      | declare made => exact evaluated.locatedIn (made _ rfl) (by simpa using failed)
  | _, _, _, _, .block executed, made, failed => by
      cases made with
      | block made => exact executed.locatedIn made failed
  | _, _, _, _, .ifThen _ _ executed, made, failed => by
      cases made with
      | ifThen _ made => exact executed.locatedIn made failed
  | _, _, _, _, .ifThenFails evaluated, made, failed => by
      cases made with
      | ifThen made _ => exact evaluated.locatedIn made (by simpa using failed)
  | _, _, _, _, .ifElseTrue _ _ executed, made, failed => by
      cases made with
      | ifElse _ made _ => exact executed.locatedIn made failed
  | _, _, _, _, .ifElseFalse _ _ executed, made, failed => by
      cases made with
      | ifElse _ _ made => exact executed.locatedIn made failed
  | _, _, _, _, .ifElseFails evaluated, made, failed => by
      cases made with
      | ifElse made _ _ => exact evaluated.locatedIn made (by simpa using failed)
  | _, _, _, _, .whileFails evaluated, made, failed => by
      cases made with
      | whileLoop made _ => exact evaluated.locatedIn made (by simpa using failed)
  | _, _, _, _, .whileRepeats _ _ _ repeated, made, failed => repeated.locatedIn made failed
  | _, _, _, _, .whileBodyFails _ _ executed, made, failed => by
      cases made with
      | whileLoop _ made => exact executed.locatedIn made (by simpa using failed)

theorem ExecutesAll.locatedIn : {body : List Stmt} → {before after : Machine} →
    {result : Except Failure Completion} → ExecutesAll body before result after →
    (∀ tree ∈ body, tree.MadeOf source) → result = .error failure → failure.LocatedIn source
  | _, _, _, _, .nil, _, failed | _, _, _, _, .broken _, _, failed => nomatch failed
  | _, _, _, _, .next _ others, made, failed =>
      others.locatedIn (List.forall_mem_cons.mp made).2 failed
  | _, _, _, _, .fails executed, made, failed =>
      executed.locatedIn (List.forall_mem_cons.mp made).1 (by simpa using failed)

end

theorem Runs.locatedIn {program : List Stmt} {before after : Machine} {result : Except Failure Unit}
    (runs : Runs program before result after) (made : ∀ tree ∈ program, tree.MadeOf source)
    (failed : result = .error failure) : failure.LocatedIn source := by
  induction runs with
  | nil _ => cases failed
  | next _ _ othersIH => exact othersIH (List.forall_mem_cons.mp made).2 failed
  | fails statementFailed =>
      cases failed
      exact statementFailed.locatedIn (List.forall_mem_cons.mp made).1 rfl

/-- Whatever tokens a program is read from, it fails at one of them, and at no unknown operator. -/
theorem locatedIn_of_interpret {tokens : List Token} {fuel : Nat} {before after : Machine}
    {error : RuntimeError}
    (failed : interpret fuel (Program.ofTokens tokens).statements before =
      .error (.error error) after) :
    error.failure.LocatedIn tokens ∧ error.fault ≠ .unknownOperator := by
  have runs := runs_of_ends fuel (ends_of_error failed rfl)
  have located := runs.locatedIn (Program.madeOf_ofTokens tokens) rfl
  have ahead : ∀ token ∈ Program.ahead tokens, token ∈ tokens :=
    (List.takeWhile_prefix _).subset
  refine ⟨located.mono ahead, fun isUnknown => located.ne_unknown error.token ?_⟩
  rw [← RuntimeFault.failure_unknownOperator, ← isUnknown, RuntimeFault.failure]

/-! ## Sessions -/

/-- A program that a session shows before it runs it fails where it would fail without that. -/
theorem Session.interpret_of_launch {fuel : Nat} {echoing : Bool} {statements : List Stmt}
    {before after : Machine} {stop : Stop}
    (failed : launch fuel echoing statements before = .error stop after) :
    ∃ shown, interpret fuel statements shown = .error stop after := by
  obtain ⟨scopes, sink⟩ := before
  rw [launch_eq] at failed
  exact ⟨_, failed⟩

/-- The session executes the source text, since there has been no static error, and the execution
ends with a runtime error. -/
structure Session.Raises (fuel : Nat) (session : Session) (source : String) (error : RuntimeError)
    (after : Machine) : Prop where
  executes : (session.log.add (staticReports source)).hadError = false
  fails : launch fuel session.echoing (Program.ofText source).statements session.machine =
    .error (.error error) after

/-- A runtime error ends the run and is reported after the static errors. -/
theorem Session.Raises.run_eq {fuel : Nat} {session : Session} {source : String}
    {error : RuntimeError} {after : Machine} (raises : session.Raises fuel source error after) :
    session.run fuel source = some ⟨after, (session.log.add (staticReports source)).add [error.report],
      session.echoing⟩ := by
  obtain ⟨executes, fails⟩ := raises
  cases session with
  | mk machine log echoing =>
      simp only [staticReports, Program.ofText] at executes fails
      simp [run, staticReports, Program.ofText, executes, fails]

/-- A run reports the static errors, and besides them at most the runtime error that it ends with. -/
theorem Session.reports_of_run {fuel : Nat} {session next : Session} {source : String}
    (run : session.run fuel source = some next) :
    next.log.reports = session.log.reports ++ staticReports source ∨
      ∃ error after, session.Raises fuel source error after ∧
        next.log.reports = session.log.reports ++ staticReports source ++ [error.report] := by
  cases session with
  | mk machine log echoing =>
      rw [Session.run] at run
      split at run
      · cases run
        exact .inl rfl
      · next clean =>
          rw [Bool.not_eq_true] at clean
          split at run
          · cases run
            exact .inl rfl
          · next error after fails =>
              cases run
              exact .inr ⟨error, after, ⟨clean, fails⟩, rfl⟩
          · cases run

/-- An execution fails at one of the tokens that its source text was read as, on one of the lines of
that text, and in a way that fits the kind of the token. It never fails because of an operator that
is unknown, and neither does any other program that has been read. A run that executes a text reports
the failure, and there is no other way for a runtime error to be reported. -/
theorem failures_located (fuel : Nat) (session : Session) (source : String) :
    (∀ error after, session.Raises fuel source error after →
      (error.failure.LocatedIn (Lexed.ofText source).tokens ∧ error.fault ≠ .unknownOperator) ∧
      (1 ≤ error.token.line ∧ error.token.line ≤ 1 + source.toList.count '\n') ∧
      session.run fuel source = some ⟨after,
        (session.log.add (staticReports source)).add [error.report], session.echoing⟩) ∧
    (∀ next, session.run fuel source = some next →
      next.log.reports = session.log.reports ++ staticReports source ∨
        ∃ error after, session.Raises fuel source error after ∧
          next.log.reports = session.log.reports ++ staticReports source ++ [error.report]) ∧
    ∀ tokens before error after,
      interpret fuel (Program.ofTokens tokens).statements before = .error (.error error) after →
      error.failure.LocatedIn tokens ∧ error.fault ≠ .unknownOperator := by
  refine ⟨fun error after raises => ?_, fun next => Session.reports_of_run, fun _ _ _ _ =>
    locatedIn_of_interpret⟩
  obtain ⟨shown, interpreted⟩ := Session.interpret_of_launch raises.fails
  have located := locatedIn_of_interpret interpreted
  exact ⟨located, Lexed.line_bounds located.1.member, raises.run_eq⟩

/-- A text that is executed and fails at the minus sign on its second line. -/
theorem failures_located_negation :
    ∃ error after, (Session.fresh .empty).Raises 0 "print\n-nil;" error after ∧
      (error.failure.LocatedIn (Lexed.ofText "print\n-nil;").tokens ∧
        error.fault ≠ .unknownOperator) ∧
      1 ≤ error.token.line ∧ error.token.line ≤ 1 + "print\n-nil;".toList.count '\n' := by
  have lexed : Lexed.ofText "print\n-nil;" =
      ⟨[⟨.keyword .printWord, "print", none, 1⟩, ⟨.mark .minus, "-", none, 2⟩,
        ⟨.keyword .nilWord, "nil", none, 2⟩, ⟨.mark .semicolon, ";", none, 2⟩, .finish 2], []⟩ := by
    decide +kernel
  have read : Program.ofTokens
      [⟨.keyword .printWord, "print", none, 1⟩, ⟨.mark .minus, "-", none, 2⟩,
        ⟨.keyword .nilWord, "nil", none, 2⟩, ⟨.mark .semicolon, ";", none, 2⟩, .finish 2] =
        ⟨[.print (.unary ⟨.mark .minus, "-", none, 2⟩ (.literal .nil))], []⟩ := by
    cbv
  have raises : (Session.fresh .empty).Raises 0 "print\n-nil;"
      ⟨⟨.mark .minus, "-", none, 2⟩, .operandNotNumber⟩ (.initial .empty) := by
    constructor
    · simp only [staticReports, Program.ofText, lexed, read]
      rfl
    · simp only [Program.ofText, lexed, read]
      rfl
  obtain ⟨located, line, _⟩ := (failures_located 0 _ _).1 _ _ raises
  exact ⟨_, _, raises, located, line⟩

end BlockScript
