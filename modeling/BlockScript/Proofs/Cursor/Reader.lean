import BlockScript.Grammar.Program

/-!
# Reading programs with a cursor

The grammar is read here from a list of tokens and a position in it, the way a machine does it. The
list is indexed at each step, and an index outside of it is a crash. So is leaving a loop that was
not entered. The functions call each other with no measure that would make them end, so they carry
fuel, of which each further call has less. To run out of fuel is a crash too.

Nothing in this module says that there are no crashes, or that the grammar makes the same of the
tokens.
-/

namespace BlockScript

/-- Where a reader is, and what it has found so far. -/
structure Cursor where
  /-- The index of the next token. -/
  current : Nat
  /-- The highest index that the next token has had. -/
  farthest : Nat
  /-- How many loops there are around the next token. -/
  loopDepth : Nat
  errors : List SyntaxError
  deriving DecidableEq, Repr

namespace Cursor

def start : Cursor :=
  ⟨0, 0, 0, []⟩

def step (cursor : Cursor) : Cursor :=
  { cursor with
    current := cursor.current + 1
    farthest := max cursor.farthest (cursor.current + 1) }

def note (error : SyntaxError) (cursor : Cursor) : Cursor :=
  { cursor with errors := cursor.errors ++ [error] }

end Cursor

/-- What a reader must never do. -/
inductive Crash where
  | indexOutOfRange
  | negativeDepth
  | outOfFuel
  deriving DecidableEq, Repr

/-- A part of a reading that no fault can stop. It moves the cursor, or it crashes. -/
abbrev Walk := StateT Cursor (Except Crash)

/-- A part of a reading that a fault can stop. It is a walk to a value or to that fault. -/
abbrev Attempt := ExceptT SyntaxError Walk

namespace Walk

/-- The walk ends without a crash. -/
def Ends (walk : Walk α) (before : Cursor) (value : α) (after : Cursor) : Prop :=
  walk.run before = .ok (value, after)

def outOfFuel : Walk α :=
  throw .outOfFuel

def loopDepth : Walk Nat := do
  return (← get).loopDepth

def enterLoop : Walk Unit :=
  modify fun cursor => { cursor with loopDepth := cursor.loopDepth + 1 }

def leaveLoop : Walk Unit := do
  match ← loopDepth with
  | 0 => throw .negativeDepth
  | depth + 1 => modify fun cursor => { cursor with loopDepth := depth }

/-- Reads the body of a loop. The loop is left again even if a fault has stopped the body. -/
def inLoop (body : Attempt α) : Attempt α :=
  (do
    enterLoop
    let outcome ← body.run
    leaveLoop
    return outcome : Walk (Except SyntaxError α))

variable (tokens : List Token)

def tokenAt (index : Nat) : Walk Token :=
  match tokens[index]? with
  | some token => pure token
  | none => throw .indexOutOfRange

def peek : Walk Token := do
  tokenAt tokens (← get).current

/-- The token read last, or the first one if none has been read. -/
def previous : Walk Token := do
  tokenAt tokens ((← get).current - 1)

def atEnd : Walk Bool := do
  return (← peek tokens).kind == .finish

/-- Reads the next token, unless it is the one that ends the list. -/
def advance : Walk Token := do
  unless ← atEnd tokens do
    modify Cursor.step
  previous tokens

def fail (fault : SyntaxFault) : Attempt α := do
  throw ⟨← peek tokens, fault⟩

/-- Reads the one kind of token that can stand at a place. -/
def consume (expected : Expected) : Attempt Token := do
  if (← peek tokens).kind == expected.kind then
    advance tokens
  else
    fail tokens (.missing expected)

/-! ## Expressions -/

mutual

def expression : (fuel : Nat) → (level : Level) → Attempt Expr
  | 0, _ => do outOfFuel
  | fuel + 1, .assignment => do
      let target ← expression fuel (.chain .or)
      if (← peek tokens).kind == .mark .equal then
        let equals ← advance tokens
        let value ← expression fuel .assignment
        match target with
        | .variable name => return .assign name value
        | _ =>
            modify (Cursor.note ⟨equals, .invalidAssignmentTarget⟩)
            return target
      else
        return target
  | fuel + 1, .chain chain => do
      let left ← expression fuel chain.operand
      joined fuel chain left
  | fuel + 1, .ternary => do
      let condition ← expression fuel (.chain .equality)
      if (← peek tokens).kind == .mark .question then
        let question ← advance tokens
        let whenTrue ← expression fuel .assignment
        let _ ← consume tokens .colonAfterThenBranch
        let whenFalse ← expression fuel .ternary
        return .ternary question condition whenTrue whenFalse
      else
        return condition
  | fuel + 1, .unary => do
      if (← peek tokens).kind.isUnaryOperator then
        let operator ← advance tokens
        let operand ← expression fuel .unary
        return .unary operator operand
      else
        expression fuel .primary
  | fuel + 1, .primary => do
      let token ← peek tokens
      match Expr.ofToken? token with
      | some leaf =>
          let _ ← advance tokens
          return leaf
      | none =>
          if token.kind == .mark .leftParen then
            let _ ← advance tokens
            let inner ← expression fuel .assignment
            let _ ← consume tokens .closeParenAfterExpression
            return .grouping inner
          else
            fail tokens .missingExpression

def joined : (fuel : Nat) → (chain : Chain) → (left : Expr) → Attempt Expr
  | 0, _, _ => do outOfFuel
  | fuel + 1, chain, left => do
      if chain.joins (← peek tokens).kind then
        let operator ← advance tokens
        let right ← expression fuel chain.operand
        joined fuel chain (chain.join operator left right)
      else
        return left

end

def terminated (fuel : Nat) (semicolon : Expected) : Attempt Expr := do
  let value ← expression tokens fuel .assignment
  let _ ← consume tokens semicolon
  return value

/-! ## Statements -/

def expressionStatement (fuel : Nat) : Attempt Stmt := do
  return .expression (← terminated tokens fuel .semicolonAfterExpression)

def declarationTail (fuel : Nat) : Attempt Stmt := do
  let name ← consume tokens .variableName
  if (← peek tokens).kind == .mark .equal then
    let _ ← advance tokens
    return .declare name (some (← terminated tokens fuel .semicolonAfterDeclaration))
  else
    let _ ← consume tokens .semicolonAfterDeclaration
    return .declare name none

def condition (fuel : Nat) (opening closing : Expected) : Attempt Expr := do
  let _ ← consume tokens opening
  let value ← expression tokens fuel .assignment
  let _ ← consume tokens closing
  return value

def initialClause (fuel : Nat) : Attempt (Option Stmt) := do
  if (← peek tokens).kind == .mark .semicolon then
    let _ ← advance tokens
    return none
  else if (← peek tokens).kind == .keyword .varWord then
    let _ ← advance tokens
    return some (← declarationTail tokens fuel)
  else
    return some (← expressionStatement tokens fuel)

def optionalClause (fuel : Nat) (closing : Expected) : Attempt (Option Expr) := do
  let clause ←
    if (← peek tokens).kind == closing.kind then
      pure none
    else
      some <$> expression tokens fuel .assignment
  let _ ← consume tokens closing
  return clause

def clauses (fuel : Nat) : Attempt Grammar.Clauses := do
  let _ ← consume tokens .openParenAfterFor
  let initial ← initialClause tokens fuel
  let condition ← optionalClause tokens fuel .semicolonAfterLoopCondition
  let increment ← optionalClause tokens fuel .closeParenAfterForClauses
  return ⟨initial, condition, increment⟩

/-- Reads on until a semicolon has been read or a statement can start. -/
def skip : (fuel : Nat) → Walk Unit
  | 0 => outOfFuel
  | fuel + 1 => do
      unless ← atEnd tokens do
        if (← previous tokens).kind == .mark .semicolon then
          return
        if (← peek tokens).kind.startsStatement then
          return
        let _ ← advance tokens
        skip fuel

/-- Gives up the next token, and further tokens up to the next place where a statement can start. -/
def synchronize (fuel : Nat) : Walk Unit := do
  let _ ← advance tokens
  skip tokens fuel

/-- Notes the fault that stopped an attempt, and reads on from there. -/
def recover (fuel : Nat) (attempt : Attempt α) : Walk (Option α) := do
  match ← attempt.run with
  | .ok value => return some value
  | .error error =>
      modify (Cursor.note error)
      synchronize tokens fuel
      return none

mutual

def statement : (fuel : Nat) → Attempt Stmt
  | 0 => do outOfFuel
  | fuel + 1 => do
      match (← peek tokens).kind with
      | .keyword .ifWord =>
          let _ ← advance tokens
          let test ← condition tokens fuel .openParenAfterIf .closeParenAfterIfCondition
          let whenTrue ← statement fuel
          if (← peek tokens).kind == .keyword .elseWord then
            let _ ← advance tokens
            return .ifElse test whenTrue (← statement fuel)
          else
            return .ifThen test whenTrue
      | .keyword .printWord =>
          let _ ← advance tokens
          return .print (← terminated tokens fuel .semicolonAfterValue)
      | .mark .leftBrace =>
          let _ ← advance tokens
          let body ← items fuel true
          let _ ← consume tokens .closeBraceAfterBlock
          return .block body
      | .keyword .whileWord =>
          let _ ← advance tokens
          let test ← condition tokens fuel .openParenAfterWhile .closeParenAfterCondition
          return .whileLoop test (← inLoop (statement fuel))
      | .keyword .forWord =>
          let _ ← advance tokens
          let parts ← clauses tokens fuel
          let body ← inLoop (statement fuel)
          return .countingLoop parts.initial parts.condition parts.increment body
      | .keyword .breakWord =>
          let keyword ← advance tokens
          if (← loopDepth) = 0 then
            throw ⟨keyword, .breakOutsideLoop⟩
          let _ ← consume tokens .semicolonAfterBreak
          return .breakLoop keyword
      | .keyword .continueWord => fail tokens .continueUnsupported
      | _ => expressionStatement tokens fuel

def declaration : (fuel : Nat) → Walk (Option Stmt)
  | 0 => outOfFuel
  | fuel + 1 => recover tokens fuel do
      if (← peek tokens).kind == .keyword .varWord then
        let _ ← advance tokens
        declarationTail tokens fuel
      else
        statement fuel

def items : (fuel : Nat) → (inBlock : Bool) → Walk (List Stmt)
  | 0, _ => outOfFuel
  | fuel + 1, inBlock => do
      if ← atEnd tokens then
        return []
      if inBlock && (← peek tokens).kind == .mark .rightBrace then
        return []
      let item ← declaration fuel
      return item.toList ++ (← items fuel inBlock)

end

def parse (fuel : Nat) : Walk (List Stmt) :=
  items tokens fuel false

end Walk
end BlockScript
