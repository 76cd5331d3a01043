import Scriptlet.Token

namespace Scriptlet.Machine

inductive Fault
  | redefined (name : String)
  | undefined (name : String)
  | operandNotNumber
  | operandsNotNumbers
  | operandsNotAddable
  | unknownUnary (operator : Token)
  | unknownBinary (operator : Token)
  | notCallable (typeName : String)
  | wrongArity (expected given : Nat)
  | stackOverflow
  | invalidIndex
  | primitiveFailed
  deriving DecidableEq

def Fault.message : Fault → String
  | .redefined name => s!"Attempt to redefine variable '{name}'"
  | .undefined name => s!"Undefined variable '{name}'"
  | .operandNotNumber => "Operand must be a number"
  | .operandsNotNumbers => "Operands must be numbers"
  | .operandsNotAddable => "Operands must be two numbers or two strings"
  | .unknownUnary operator => s!"Unknown unary operator {operator.describe}"
  | .unknownBinary operator => s!"Unknown binary operator {operator.describe}"
  | .notCallable typeName => s!"Can only call functions, not {typeName}"
  | .wrongArity expected given => s!"Expected {expected} argument(s) but got {given}"
  | .stackOverflow => "Stack overflow"
  | .invalidIndex => "Invalid target for index expression"
  | .primitiveFailed => "native failure"

inductive Defect
  | unbound (name : String) (distance : Nat)
  | tooShallow
  deriving DecidableEq

def Defect.message : Defect → String
  | .unbound name distance =>
    s!"Internal interpreter error: '{name}' not found at distance {distance}"
  | .tooShallow => "Internal interpreter error: scope distance exceeds environment depth"

end Scriptlet.Machine
