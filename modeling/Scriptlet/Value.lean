import Scriptlet.Decimal.Numeral
import Scriptlet.Tree

namespace Scriptlet

abbrev FrameId := Nat

/-- What a built-in function does: it reads the clock, lists its arguments as one text, names the type of the
first, gives back the last, prints them all, fails, calls the first with the others, or gives back nil. -/
inductive Primitive
  | clock | list | typeName | last | print | fail | apply | ignore
  deriving DecidableEq

/-- A built-in function; only a marked one is shown as built in. -/
structure Builtin where
  name : String
  arity : Nat
  action : Primitive
  marked : Bool
  deriving DecidableEq

inductive Callable
  | closure (name : Token) (parameters : List Token) (body : Program) (frame : FrameId)
  | builtin (builtin : Builtin)

inductive Value
  | nil
  | boolean (value : Bool)
  | number (value : Float)
  | text (content : String)
  | function (serial : Nat) (callable : Callable)

namespace Callable

def name : Callable → String
  | .closure name .. => name.lexeme
  | .builtin b => b.name

def arity : Callable → Nat
  | .closure _ parameters .. => parameters.length
  | .builtin b => b.arity

def marked : Callable → Bool
  | .closure .. => false
  | .builtin b => b.marked

end Callable

namespace Value

def ofConstant : Constant → Value
  | .nil => .nil
  | .boolean value => .boolean value
  | .number value => .number value
  | .text content => .text content

def truthy : Value → Bool
  | .nil => false
  | .boolean value => value
  | _ => true

def typeName : Value → String
  | .nil => "nil"
  | .boolean _ => "boolean"
  | .number _ => "number"
  | .text _ => "string"
  | .function .. => "function"

def equals : Value → Value → Bool
  | .nil, .nil => true
  | .boolean a, .boolean b => a == b
  | .number a, .number b => a == b
  | .text a, .text b => a == b
  | .function a _, .function b _ => a == b
  | _, _ => false

def display : Value → String
  | .nil => "nil"
  | .boolean true => "true"
  | .boolean false => "false"
  | .number value => Decimal.numeral value
  | .text content => content
  | .function _ callable =>
    if callable.marked then s!"<native fn {callable.name}>" else s!"<fn {callable.name}>"

def inspect : Value → String
  | .text content => "\"" ++ content ++ "\""
  | value => value.display

def inspectAll (values : List Value) : String :=
  "[" ++ ", ".intercalate (values.map inspect) ++ "]"

end Value
end Scriptlet
