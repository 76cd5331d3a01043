import Scriptlet.Grammar.Tape

/-!
Reading programs. One procedure stands for each rule of the grammar and looks one token ahead. A procedure
never gives up on a fault: it reports the fault and goes on. The first declaration that ends after the fault is
dropped, and the next statement is looked for.

All procedures count down a budget. Between two tokens that are read, procedures nest only as deep as the
grammar has tiers, so a budget in proportion to the number of tokens never runs out.
-/

namespace Scriptlet.Grammar

class Place (σ : Type) where
  current : σ → Token
  previous : σ → Token
  sees : σ → Token.Kind → Bool
  atEnd : σ → Bool
  recovering : σ → Bool
  nextId : σ → UseId
  history : σ → List Episode
  advance : σ → σ
  report : σ → Token → Fault → σ
  enter : σ → σ
  leave : σ → σ
  takeId : σ → σ
  begin : σ → σ
  conclude : σ → List Episode → σ

instance {tokens : Tokens} : Place (Tape tokens) where
  current := Tape.current
  previous := Tape.previous
  sees := Tape.sees
  atEnd := Tape.atEnd
  recovering := Tape.recovering
  nextId := Tape.nextId
  history := Tape.history
  advance := Tape.advance
  report := Tape.report
  enter t := { t with depth := t.depth + 1 }
  leave t := { t with depth := t.depth - 1 }
  takeId t := { t with nextId := t.nextId + 1 }
  begin t := { t with history := [] }
  conclude := Tape.conclude

abbrev Reader (σ : Type) := StateT σ Option

variable {σ : Type} [Place σ]

namespace Reader

def atEnd : Reader σ Bool :=
  return Place.atEnd (← get)

def sees (kind : Token.Kind) : Reader σ Bool :=
  return Place.sees (← get) kind

def current : Reader σ Token :=
  return Place.current (← get)

/-- The token read last. After a failed expectation this is the token before the missing one. -/
def previous : Reader σ Token :=
  return Place.previous (← get)

def advance : Reader σ Unit :=
  modify Place.advance

def report (token : Token) (fault : Fault) : Reader σ Unit :=
  modify (Place.report · token fault)

def reportHere (fault : Fault) : Reader σ Unit :=
  modify fun s => Place.report s (Place.current s) fault

def expect (slot : Slot) : Reader σ Unit :=
  modify fun s => if Place.sees s slot.kind then Place.advance s else Place.report s (Place.current s) (.missing slot)

def accept (kind : Token.Kind) : Reader σ Bool :=
  modifyGet fun s => if Place.sees s kind then (true, Place.advance s) else (false, s)

def acceptAny (kinds : List Token.Kind) : Reader σ Bool :=
  modifyGet fun s => if kinds.any (Place.sees s) then (true, Place.advance s) else (false, s)

def unlessSees {α : Type} (closing : Token.Kind) (absent : α) (r : Reader σ α) : Reader σ α := do
  if ← sees closing then return absent else r

def ifAccepted {α : Type} (opening : Token.Kind) (absent : α) (r : Reader σ α) : Reader σ α := do
  if ← accept opening then r else return absent

def limit (count : Nat) (fault : Fault) : Reader σ Unit :=
  if maxArguments ≤ count then reportHere fault else pure ()

def freshId : Reader σ UseId :=
  modifyGet fun s => (Place.nextId s, Place.takeId s)

def begin : Reader σ (List Episode) :=
  modifyGet fun s => (Place.history s, Place.begin s)

def conclude (before : List Episode) : Reader σ Bool :=
  modifyGet fun s => (!Place.recovering s, Place.conclude s before)

end Reader

open Reader

structure Tier where
  operators : List Token.Kind
  logical : Bool

/-- From the loosest to the tightest. -/
def Tier.all : List Tier :=
  [⟨[.orWord], true⟩, ⟨[.andWord], true⟩, ⟨[.equal, .notEqual], false⟩,
    ⟨[.less, .lessEqual, .greater, .greaterEqual], false⟩, ⟨[.plus, .minus], false⟩,
    ⟨[.times, .divide], false⟩]

def Tier.node (tier : Tier) (operator : Token) (left right : Expr) : Expr :=
  if tier.logical then .logical operator left right else .binary operator left right

inductive Operand
  | constant (value : Constant)
  | variable
  | group
  | unknown (fault : Fault)

def Operand.ofToken (t : Token) : Operand :=
  match t.kind with
  | .falseWord => .constant (.boolean false)
  | .trueWord => .constant (.boolean true)
  | .nilWord => .constant .nil
  | .number | .text =>
    match t.payload with
    | some payload => .constant (Constant.ofPayload payload)
    | none => .unknown .missingPayload
  | .identifier => .variable
  | .leftParen => .group
  | _ => .unknown .missingExpression

def placeholder : Expr :=
  .constant .nil

mutual

/-- An assignment groups to the right. Its left side is read as an expression first, and what is no variable
is refused afterwards; then the right side is dropped. -/
def expression : Nat → Reader σ Expr
  | 0 => failure
  | n + 1 => do
    let target ← operation n Tier.all
    if ← accept .assign then
      let equals ← previous
      let value ← expression n
      match target with
      | .read _ name => return .assign (← freshId) name value
      | other =>
        report equals .invalidTarget
        return other
    else return target

def operation : Nat → List Tier → Reader σ Expr
  | 0, _ => failure
  | n + 1, [] => unary n
  | n + 1, tier :: tighter => do
    let left ← operation n tighter
    operationRest n tier tighter left

def operationRest : Nat → Tier → List Tier → Expr → Reader σ Expr
  | 0, _, _, _ => failure
  | n + 1, tier, tighter, left => do
    if ← acceptAny tier.operators then
      let operator ← previous
      let right ← operation n tighter
      operationRest n tier tighter (tier.node operator left right)
    else return left

def unary : Nat → Reader σ Expr
  | 0 => failure
  | n + 1 => do
    if ← acceptAny [.minus, .not] then
      let operator ← previous
      return .unary operator (← unary n)
    else
      let callee ← primary n
      suffixes n callee

def suffixes : Nat → Expr → Reader σ Expr
  | 0, _ => failure
  | n + 1, target => do
    if ← accept .leftParen then
      let arguments ← unlessSees .rightParen [] (arguments n 1)
      expect .argumentsEnd
      suffixes n (.call target (← previous) arguments)
    else if ← accept .leftSquare then
      let bracket ← previous
      let place ← expression n
      expect .indexEnd
      suffixes n (.index target bracket place)
    else return target

def arguments : Nat → Nat → Reader σ (List Expr)
  | 0, _ => failure
  | n + 1, count => do
    let argument ← expression n
    if ← accept .comma then
      limit count .tooManyArguments
      return argument :: (← arguments n (count + 1))
    else return [argument]

/-- Whatever token stands here is read, so that recovery cannot get stuck at it. -/
def primary : Nat → Reader σ Expr
  | 0 => failure
  | n + 1 => do
    if ← atEnd then
      reportHere .missingExpression
      return placeholder
    else
      let t ← current
      advance
      match Operand.ofToken t with
      | .constant value => return .constant value
      | .variable => return .read (← freshId) t
      | .group =>
        let inner ← expression n
        expect .groupEnd
        return .group inner
      | .unknown fault =>
        report t fault
        return placeholder

end

def expressionUnless (n : Nat) (closing : Token.Kind) : Reader σ (Option Expr) :=
  unlessSees closing none (some <$> expression n)

def expressionStatement (n : Nat) : Reader σ Stmt := do
  let value ← expression n
  expect .expressionEnd
  return .expression value

def printStatement (n : Nat) : Reader σ Stmt := do
  let value ← expression n
  expect .printEnd
  return .print value

def returnStatement (n : Nat) : Reader σ Stmt := do
  let keyword ← previous
  let value ← expressionUnless n .semicolon
  expect .returnEnd
  return .leave keyword value

def variableDeclaration (n : Nat) : Reader σ Stmt := do
  expect .variableName
  let name ← previous
  let initial ← ifAccepted .assign none (some <$> expression n)
  expect .declarationEnd
  return .declare name initial

def forInitial (n : Nat) : Reader σ (Option Stmt) := do
  if ← accept .semicolon then return none
  else if ← accept .varWord then some <$> variableDeclaration n
  else some <$> expressionStatement n

def parameters : Nat → Nat → Reader σ (List Token)
  | 0, _ => failure
  | n + 1, count => do
    limit count .tooManyParameters
    expect .parameterName
    let name ← previous
    if ← accept .comma then return name :: (← parameters n (count + 1)) else return [name]

mutual

def declaration : Nat → Reader σ (Option Stmt)
  | 0 => failure
  | n + 1 => do
    let before ← begin
    let stmt ← anyDeclaration n
    if ← conclude before then return some stmt else return none

def anyDeclaration : Nat → Reader σ Stmt
  | 0 => failure
  | n + 1 => do
    if ← accept .varWord then variableDeclaration n
    else if ← accept .funWord then functionDeclaration n
    else statement n

def functionDeclaration : Nat → Reader σ Stmt
  | 0 => failure
  | n + 1 => do
    expect .functionName
    let name ← previous
    expect .parametersStart
    let parameters ← unlessSees .rightParen [] (parameters n 0)
    expect .parametersEnd
    expect .bodyStart
    return .function name parameters (← block n)

def statement : Nat → Reader σ Stmt
  | 0 => failure
  | n + 1 => do
    if ← accept .printWord then printStatement n
    else if ← accept .returnWord then returnStatement n
    else if ← accept .ifWord then ifStatement n
    else if ← accept .whileWord then whileStatement n
    else if ← accept .forWord then forStatement n
    else if ← accept .leftBrace then return .block (← block n)
    else expressionStatement n

def ifStatement : Nat → Reader σ Stmt
  | 0 => failure
  | n + 1 => do
    expect .ifStart
    let condition ← expression n
    expect .ifEnd
    let yes ← statement n
    if ← accept .elseWord then return .ifElse condition yes (← statement n)
    else return .ifThen condition yes

def whileStatement : Nat → Reader σ Stmt
  | 0 => failure
  | n + 1 => do
    expect .whileStart
    let condition ← expression n
    expect .whileEnd
    return .loop condition (← statement n)

def forStatement : Nat → Reader σ Stmt
  | 0 => failure
  | n + 1 => do
    expect .forStart
    let initial ← forInitial n
    let condition ← expressionUnless n .semicolon
    expect .forCondition
    let increment ← expressionUnless n .rightParen
    expect .forEnd
    return .forLoop initial condition increment (← statement n)

def block : Nat → Reader σ (List Stmt)
  | 0 => failure
  | n + 1 => do
    modify Place.enter
    let body ← declarations n true
    modify Place.leave
    expect .blockEnd
    return body

def declarations : Nat → Bool → Reader σ (List Stmt)
  | 0, _ => failure
  | n + 1, nested => do
    if (← atEnd) || (nested && (← sees .rightBrace)) then return []
    else
      match ← declaration n with
      | some stmt => return stmt :: (← declarations n nested)
      | none => declarations n nested

end

structure Reading where
  program : Program
  history : List Episode
  nextId : UseId

def Reading.faults (r : Reading) : List (Located Fault) :=
  Episode.faultsIn r.history

def budget (n : Nat) : Nat :=
  32 * (n + 1)

def read? (tokens : List Token) (nextId : UseId) : Option Reading :=
  (declarations (budget tokens.length) false (Tape.start (.ofList tokens) nextId)).map fun (program, t) =>
    ⟨program, t.history.reverse, t.nextId⟩

def read (tokens : List Token) (nextId : UseId) : Reading :=
  (read? tokens nextId).getD ⟨[], [], nextId⟩

end Scriptlet.Grammar
