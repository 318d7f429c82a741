import BlockScript.Proofs.Semantics.Binding
import BlockScript.Proofs.Semantics.Operation
import BlockScript.Run.Execution

/-!
# What programs do

A big-step semantics of the language. It relates an expression and the open scopes to what comes of
evaluating it, and a statement and a machine to what comes of executing it. It knows neither fuel
nor the functions that run programs: a program that does not end is simply related to nothing.
-/

namespace BlockScript

/-- A connective whose left operand decides: the right one is left alone. -/
inductive Decides : Kind → Value → Prop where
  | disjunction {value : Value} (truthy : ¬ value.Falsey) : Decides (.keyword .orWord) value
  | conjunction {value : Value} (falsey : value.Falsey) : Decides (.keyword .andWord) value

/-- A connective whose left operand does not decide: the right one does. -/
inductive Defers : Kind → Value → Prop where
  | disjunction {value : Value} (falsey : value.Falsey) : Defers (.keyword .orWord) value
  | conjunction {value : Value} (truthy : ¬ value.Falsey) : Defers (.keyword .andWord) value

/-- What comes of evaluating an expression among open scopes, and the scopes afterwards. -/
inductive Evaluates : Expr → Scopes → Except Failure Value → Scopes → Prop where
  | literal (value : Value) (scopes : Scopes) : Evaluates (.literal value) scopes (.ok value) scopes
  | grouping {inner : Expr} {before after : Scopes} {result : Except Failure Value}
      (evaluated : Evaluates inner before result after) :
      Evaluates (.grouping inner) before result after
  | variable {name : Token} {value : Value} {scopes : Scopes}
      (bound : scopes.Bound name.lexeme (.holding value)) :
      Evaluates (.variable name) scopes (.ok value) scopes
  | uninitialized {name : Token} {scopes : Scopes} (bound : scopes.Bound name.lexeme .unset) :
      Evaluates (.variable name) scopes
        (.error ⟨name, "Cannot access uninitialized variable '" ++ name.lexeme ++ "'."⟩) scopes
  | undefined {name : Token} {scopes : Scopes} (free : ∀ slot, ¬ scopes.Bound name.lexeme slot) :
      Evaluates (.variable name) scopes
        (.error ⟨name, "Undefined variable '" ++ name.lexeme ++ "'."⟩) scopes
  | assign {name : Token} {expr : Expr} {value : Value} {before between after : Scopes}
      (evaluated : Evaluates expr before (.ok value) between)
      (assigned : between.Assigned name.lexeme value after) :
      Evaluates (.assign name expr) before (.ok value) after
  | assignUndefined {name : Token} {expr : Expr} {value : Value} {before after : Scopes}
      (evaluated : Evaluates expr before (.ok value) after)
      (free : ∀ slot, ¬ after.Bound name.lexeme slot) :
      Evaluates (.assign name expr) before
        (.error ⟨name, "Undefined variable '" ++ name.lexeme ++ "'."⟩) after
  | assignFails {name : Token} {expr : Expr} {failure : Failure} {before after : Scopes}
      (failed : Evaluates expr before (.error failure) after) :
      Evaluates (.assign name expr) before (.error failure) after
  | unary {operator : Token} {operand : Expr} {value : Value} {result : Except Failure Value}
      {before after : Scopes} (evaluated : Evaluates operand before (.ok value) after)
      (operation : UnaryResult operator value result) :
      Evaluates (.unary operator operand) before result after
  | unaryFails {operator : Token} {operand : Expr} {failure : Failure} {before after : Scopes}
      (failed : Evaluates operand before (.error failure) after) :
      Evaluates (.unary operator operand) before (.error failure) after
  | binary {operator : Token} {left right : Expr} {leftValue rightValue : Value}
      {result : Except Failure Value} {before between after : Scopes}
      (leftEvaluated : Evaluates left before (.ok leftValue) between)
      (rightEvaluated : Evaluates right between (.ok rightValue) after)
      (operation : BinaryResult operator leftValue rightValue result) :
      Evaluates (.binary operator left right) before result after
  | binaryFailsLeft {operator : Token} {left right : Expr} {failure : Failure}
      {before after : Scopes} (failed : Evaluates left before (.error failure) after) :
      Evaluates (.binary operator left right) before (.error failure) after
  | binaryFailsRight {operator : Token} {left right : Expr} {leftValue : Value} {failure : Failure}
      {before between after : Scopes} (leftEvaluated : Evaluates left before (.ok leftValue) between)
      (failed : Evaluates right between (.error failure) after) :
      Evaluates (.binary operator left right) before (.error failure) after
  | decided {operator : Token} {left right : Expr} {value : Value} {before after : Scopes}
      (evaluated : Evaluates left before (.ok value) after) (decides : Decides operator.kind value) :
      Evaluates (.logical operator left right) before (.ok value) after
  | deferred {operator : Token} {left right : Expr} {value : Value}
      {result : Except Failure Value} {before between after : Scopes}
      (evaluated : Evaluates left before (.ok value) between) (defers : Defers operator.kind value)
      (rightEvaluated : Evaluates right between result after) :
      Evaluates (.logical operator left right) before result after
  | noConnective {operator : Token} {left right : Expr} {value : Value} {before after : Scopes}
      (evaluated : Evaluates left before (.ok value) after)
      (notOr : operator.kind ≠ .keyword .orWord) (notAnd : operator.kind ≠ .keyword .andWord) :
      Evaluates (.logical operator left right) before (.error operator.unknown) after
  | logicalFails {operator : Token} {left right : Expr} {failure : Failure} {before after : Scopes}
      (failed : Evaluates left before (.error failure) after) :
      Evaluates (.logical operator left right) before (.error failure) after
  | chosenTrue {question : Token} {condition whenTrue whenFalse : Expr}
      {result : Except Failure Value} {before between after : Scopes}
      (holds : Evaluates condition before (.ok (.boolean true)) between)
      (evaluated : Evaluates whenTrue between result after) :
      Evaluates (.ternary question condition whenTrue whenFalse) before result after
  | chosenFalse {question : Token} {condition whenTrue whenFalse : Expr}
      {result : Except Failure Value} {before between after : Scopes}
      (fails : Evaluates condition before (.ok (.boolean false)) between)
      (evaluated : Evaluates whenFalse between result after) :
      Evaluates (.ternary question condition whenTrue whenFalse) before result after
  | notBoolean {question : Token} {condition whenTrue whenFalse : Expr} {value : Value}
      {before after : Scopes} (evaluated : Evaluates condition before (.ok value) after)
      (notBoolean : ∀ truth, value ≠ .boolean truth) :
      Evaluates (.ternary question condition whenTrue whenFalse) before
        (.error ⟨question, "Ternary condition must be a boolean."⟩) after
  | ternaryFails {question : Token} {condition whenTrue whenFalse : Expr} {failure : Failure}
      {before after : Scopes} (failed : Evaluates condition before (.error failure) after) :
      Evaluates (.ternary question condition whenTrue whenFalse) before (.error failure) after

mutual

/-- What comes of executing a statement on a machine, and the machine afterwards. -/
inductive Executes : Stmt → Machine → Except Failure Completion → Machine → Prop where
  | print {expr : Expr} {value : Value} {before after : Scopes} {output : Sink}
      (evaluated : Evaluates expr before (.ok value) after) :
      Executes (.print expr) ⟨before, output⟩ (.ok .normal) ⟨after, output.writeLine value.display⟩
  | printFails {expr : Expr} {failure : Failure} {before after : Scopes} {output : Sink}
      (failed : Evaluates expr before (.error failure) after) :
      Executes (.print expr) ⟨before, output⟩ (.error failure) ⟨after, output⟩
  | expression {expr : Expr} {value : Value} {before after : Scopes} {output : Sink}
      (evaluated : Evaluates expr before (.ok value) after) :
      Executes (.expression expr) ⟨before, output⟩ (.ok .normal) ⟨after, output⟩
  | expressionFails {expr : Expr} {failure : Failure} {before after : Scopes} {output : Sink}
      (failed : Evaluates expr before (.error failure) after) :
      Executes (.expression expr) ⟨before, output⟩ (.error failure) ⟨after, output⟩
  | declare {name : Token} {before after : Scopes} {output : Sink}
      (declared : before.Declared name.lexeme .unset after) :
      Executes (.declare name none) ⟨before, output⟩ (.ok .normal) ⟨after, output⟩
  | declareHolding {name : Token} {initial : Expr} {value : Value} {before between after : Scopes}
      {output : Sink} (evaluated : Evaluates initial before (.ok value) between)
      (declared : between.Declared name.lexeme (.holding value) after) :
      Executes (.declare name (some initial)) ⟨before, output⟩ (.ok .normal) ⟨after, output⟩
  | declareFails {name : Token} {initial : Expr} {failure : Failure} {before after : Scopes}
      {output : Sink} (failed : Evaluates initial before (.error failure) after) :
      Executes (.declare name (some initial)) ⟨before, output⟩ (.error failure) ⟨after, output⟩
  /-- The body runs in a scope of its own. However it ends, that scope is dropped and the scopes
  around it stay as the body leaves them. -/
  | block {body : List Stmt} {result : Except Failure Completion} {before after : Scopes}
      {dropped : Scope} {output written : Sink}
      (executed : ExecutesAll body ⟨.inner .empty before, output⟩ result
        ⟨.inner dropped after, written⟩) :
      Executes (.block body) ⟨before, output⟩ result ⟨after, written⟩
  | ifThen {condition : Expr} {whenTrue : Stmt} {value : Value}
      {result : Except Failure Completion} {before between : Scopes} {output : Sink}
      {after : Machine} (evaluated : Evaluates condition before (.ok value) between)
      (truthy : ¬ value.Falsey) (executed : Executes whenTrue ⟨between, output⟩ result after) :
      Executes (.ifThen condition whenTrue) ⟨before, output⟩ result after
  | ifThenSkips {condition : Expr} {whenTrue : Stmt} {value : Value} {before after : Scopes}
      {output : Sink} (evaluated : Evaluates condition before (.ok value) after)
      (falsey : value.Falsey) :
      Executes (.ifThen condition whenTrue) ⟨before, output⟩ (.ok .normal) ⟨after, output⟩
  | ifThenFails {condition : Expr} {whenTrue : Stmt} {failure : Failure} {before after : Scopes}
      {output : Sink} (failed : Evaluates condition before (.error failure) after) :
      Executes (.ifThen condition whenTrue) ⟨before, output⟩ (.error failure) ⟨after, output⟩
  | ifElseTrue {condition : Expr} {whenTrue whenFalse : Stmt} {value : Value}
      {result : Except Failure Completion} {before between : Scopes} {output : Sink}
      {after : Machine} (evaluated : Evaluates condition before (.ok value) between)
      (truthy : ¬ value.Falsey) (executed : Executes whenTrue ⟨between, output⟩ result after) :
      Executes (.ifElse condition whenTrue whenFalse) ⟨before, output⟩ result after
  | ifElseFalse {condition : Expr} {whenTrue whenFalse : Stmt} {value : Value}
      {result : Except Failure Completion} {before between : Scopes} {output : Sink}
      {after : Machine} (evaluated : Evaluates condition before (.ok value) between)
      (falsey : value.Falsey) (executed : Executes whenFalse ⟨between, output⟩ result after) :
      Executes (.ifElse condition whenTrue whenFalse) ⟨before, output⟩ result after
  | ifElseFails {condition : Expr} {whenTrue whenFalse : Stmt} {failure : Failure}
      {before after : Scopes} {output : Sink}
      (failed : Evaluates condition before (.error failure) after) :
      Executes (.ifElse condition whenTrue whenFalse) ⟨before, output⟩ (.error failure)
        ⟨after, output⟩
  | whileEnds {condition : Expr} {body : Stmt} {value : Value} {before after : Scopes}
      {output : Sink} (evaluated : Evaluates condition before (.ok value) after)
      (falsey : value.Falsey) :
      Executes (.whileLoop condition body) ⟨before, output⟩ (.ok .normal) ⟨after, output⟩
  | whileFails {condition : Expr} {body : Stmt} {failure : Failure} {before after : Scopes}
      {output : Sink} (failed : Evaluates condition before (.error failure) after) :
      Executes (.whileLoop condition body) ⟨before, output⟩ (.error failure) ⟨after, output⟩
  | whileRepeats {condition : Expr} {body : Stmt} {value : Value}
      {result : Except Failure Completion} {before between : Scopes} {output : Sink}
      {middle after : Machine} (evaluated : Evaluates condition before (.ok value) between)
      (truthy : ¬ value.Falsey) (executed : Executes body ⟨between, output⟩ (.ok .normal) middle)
      (repeated : Executes (.whileLoop condition body) middle result after) :
      Executes (.whileLoop condition body) ⟨before, output⟩ result after
  /-- The loop takes the break for its own end, so what follows the loop is executed. -/
  | whileBroken {condition : Expr} {body : Stmt} {value : Value} {before between : Scopes}
      {output : Sink} {after : Machine} (evaluated : Evaluates condition before (.ok value) between)
      (truthy : ¬ value.Falsey)
      (executed : Executes body ⟨between, output⟩ (.ok .breaking) after) :
      Executes (.whileLoop condition body) ⟨before, output⟩ (.ok .normal) after
  | whileBodyFails {condition : Expr} {body : Stmt} {value : Value} {failure : Failure}
      {before between : Scopes} {output : Sink} {after : Machine}
      (evaluated : Evaluates condition before (.ok value) between) (truthy : ¬ value.Falsey)
      (failed : Executes body ⟨between, output⟩ (.error failure) after) :
      Executes (.whileLoop condition body) ⟨before, output⟩ (.error failure) after
  | breakLoop {keyword : Token} {machine : Machine} :
      Executes (.breakLoop keyword) machine (.ok .breaking) machine

/-- What comes of executing statements in order. A break and a failure skip what follows. -/
inductive ExecutesAll : List Stmt → Machine → Except Failure Completion → Machine → Prop where
  | nil {machine : Machine} : ExecutesAll [] machine (.ok .normal) machine
  | next {statement : Stmt} {rest : List Stmt} {result : Except Failure Completion}
      {before between after : Machine} (first : Executes statement before (.ok .normal) between)
      (others : ExecutesAll rest between result after) :
      ExecutesAll (statement :: rest) before result after
  | broken {statement : Stmt} {rest : List Stmt} {before after : Machine}
      (first : Executes statement before (.ok .breaking) after) :
      ExecutesAll (statement :: rest) before (.ok .breaking) after
  | fails {statement : Stmt} {rest : List Stmt} {failure : Failure} {before after : Machine}
      (failed : Executes statement before (.error failure) after) :
      ExecutesAll (statement :: rest) before (.error failure) after

end

/-- What comes of a program. There is no loop around its statements, so a break that reaches the top
level ends the statement that it is part of and nothing else. -/
inductive Runs : List Stmt → Machine → Except Failure Unit → Machine → Prop where
  | nil (machine : Machine) : Runs [] machine (.ok ()) machine
  | next {statement : Stmt} {rest : List Stmt} {completion : Completion}
      {result : Except Failure Unit} {before between after : Machine}
      (first : Executes statement before (.ok completion) between)
      (others : Runs rest between result after) : Runs (statement :: rest) before result after
  | fails {statement : Stmt} {rest : List Stmt} {failure : Failure} {before after : Machine}
      (failed : Executes statement before (.error failure) after) :
      Runs (statement :: rest) before (.error failure) after

end BlockScript
