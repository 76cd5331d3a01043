import Scriptlet.Machine
import Scriptlet.Machine.Operator

namespace Scriptlet.Machine

def bindParameters (frame : FrameId) : List Token → List Value → Run Unit
  | name :: names, value :: values => do
    defineIn frame name value
    bindParameters frame names values
  | _, _ => pure ()

mutual

def evaluate (s : Setting) : Nat → Expr → Run Value
  | 0, _ => throw .exhausted
  | _ + 1, .constant value => return .ofConstant value
  | n + 1, .group inner => evaluate s n inner
  | _ + 1, .read id name => lookUp s id name
  | n + 1, .assign id name e => do
    let value ← evaluate s n e
    assign s id name value
    return value
  | n + 1, .logical operator left right => do
    let value ← evaluate s n left
    if value.truthy == (operator.kind == .orWord) then return value else evaluate s n right
  | n + 1, .unary operator operand => do
    let value ← evaluate s n operand
    orFail (unary operator value)
  | n + 1, .binary operator left right => do
    let x ← evaluate s n left
    let y ← evaluate s n right
    orFail (binary operator x y)
  | n + 1, .call callee paren arguments => do
    let f ← evaluate s n callee
    let values ← evaluateAll s n arguments
    call s n paren f values
  | n + 1, .index target bracket place => do
    let x ← evaluate s n target
    let y ← evaluate s n place
    orFail (index bracket x y)

def evaluateAll (s : Setting) : Nat → List Expr → Run (List Value)
  | 0, _ => throw .exhausted
  | _ + 1, [] => return []
  | n + 1, e :: rest => do
    let value ← evaluate s n e
    let values ← evaluateAll s n rest
    return value :: values

def call (s : Setting) : Nat → Token → Value → List Value → Run Value
  | 0, _, _, _ => throw .exhausted
  | n + 1, paren, .function _ callable, arguments => do
    if arguments.length ≠ callable.arity then
      fail paren (.wrongArity callable.arity arguments.length)
    else if maxDepth ≤ (← get).depth then fail paren .stackOverflow
    else inCall (apply s n callable arguments)
  | _ + 1, paren, value, _ => fail paren (.notCallable value.typeName)

/-- Runs a function on arguments. The body of a declared function runs in a new frame inside the frame of its
declaration; without a return its value is nil. -/
def apply (s : Setting) : Nat → Callable → List Value → Run Value
  | 0, _, _ => throw .exhausted
  | n + 1, .closure _ parameters body outer, arguments => do
    let frame ← newFrame outer
    bindParameters frame parameters arguments
    match ← inFrame frame (executeAll s n body) with
    | .onward => return .nil
    | .returned value => return value
  | n + 1, .builtin builtin, arguments => do
    match builtin.action, arguments with
    | .clock, _ => readClock s
    | .list, values => return .text (Value.inspectAll values)
    | .typeName, values => return .text (values.headD .nil).typeName
    | .last, values => return values.getLastD .nil
    | .print, values =>
      values.forM emit
      return .nil
    | .fail, _ => fail (.ofName builtin.name) .primitiveFailed
    | .apply, .function _ callable :: values => apply s n callable values
    | .apply, values => return values.headD .nil
    | .ignore, _ => return .nil

def execute (s : Setting) : Nat → Stmt → Run Flow
  | 0, _ => throw .exhausted
  | n + 1, .expression e => do
    let _ ← evaluate s n e
    return .onward
  | n + 1, .print e => do
    emit (← evaluate s n e)
    return .onward
  | n + 1, .declare name initial => do
    define name (← evaluate? s n initial)
    return .onward
  | n + 1, .block body => do
    let frame ← newFrame (← get).current
    inFrame frame (executeAll s n body)
  | n + 1, .ifThen condition yes => do
    if (← evaluate s n condition).truthy then execute s n yes else return .onward
  | n + 1, .ifElse condition yes no => do
    if (← evaluate s n condition).truthy then execute s n yes else execute s n no
  | n + 1, .loop condition body => do
    if (← evaluate s n condition).truthy then
      match ← execute s n body with
      | .onward => execute s n (.loop condition body)
      | .returned value => return .returned value
    else return .onward
  | _ + 1, .function name parameters body => do
    define name (← newFunction (.closure name parameters body (← get).current))
    return .onward
  | n + 1, .leave _ value => return .returned (← evaluate? s n value)

def executeAll (s : Setting) : Nat → List Stmt → Run Flow
  | 0, _ => throw .exhausted
  | _ + 1, [] => return .onward
  | n + 1, stmt :: rest => do
    match ← execute s n stmt with
    | .onward => executeAll s n rest
    | .returned value => return .returned value

def evaluate? (s : Setting) : Nat → Option Expr → Run Value
  | 0, _ => throw .exhausted
  | _ + 1, none => return .nil
  | n + 1, some e => evaluate s n e

end

end Scriptlet.Machine
