import Scriptlet.Machine.Fault
import Scriptlet.Value

namespace Scriptlet.Machine

abbrev Result := Except (Located Fault) Value

def unary (operator : Token) (operand : Value) : Result :=
  match operator.kind, operand with
  | .not, value => .ok (.boolean !value.truthy)
  | .minus, .number x => .ok (.number (-x))
  | .minus, _ => .error ⟨operator, .operandNotNumber⟩
  | _, _ => .error ⟨operator, .unknownUnary operator⟩

def arithmetic (operator : Token) (x y : Float) : Result :=
  match operator.kind with
  | .minus => .ok (.number (x - y))
  | .times => .ok (.number (x * y))
  | .divide => .ok (.number (x / y))
  | .greater => .ok (.boolean (y < x))
  | .greaterEqual => .ok (.boolean (y ≤ x))
  | .less => .ok (.boolean (x < y))
  | .lessEqual => .ok (.boolean (x ≤ y))
  | _ => .error ⟨operator, .unknownBinary operator⟩

/-- Only equality takes operands of all types, and addition two texts; the types are checked before the
operator is. -/
def binary (operator : Token) (left right : Value) : Result :=
  match operator.kind, left, right with
  | .equal, _, _ => .ok (.boolean (left.equals right))
  | .notEqual, _, _ => .ok (.boolean !(left.equals right))
  | .plus, .number x, .number y => .ok (.number (x + y))
  | .plus, .text x, .text y => .ok (.text (x ++ y))
  | .plus, _, _ => .error ⟨operator, .operandsNotAddable⟩
  | _, .number x, .number y => arithmetic operator x y
  | _, _, _ => .error ⟨operator, .operandsNotNumbers⟩

def natural? (x : Float) : Option Nat :=
  if x.toUInt64.toFloat == x then some x.toUInt64.toNat else none

def index (bracket : Token) (target place : Value) : Result :=
  let found := match target, place with
    | .text content, .number x => (natural? x).bind (content.toList[·]?)
    | _, _ => none
  match found with
  | some c => .ok (.text c.toString)
  | none => .error ⟨bracket, .invalidIndex⟩

end Scriptlet.Machine
