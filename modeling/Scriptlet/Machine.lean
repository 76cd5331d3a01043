import Scriptlet.Address
import Scriptlet.Store

namespace Scriptlet

structure Machine where
  store : Store
  current : FrameId
  depth : Nat
  readings : Nat
  nextSerial : Nat
  printed : List Value

namespace Machine

def maxDepth : Nat := 2048

inductive Addressing
  | lexical
  | dynamic
  deriving DecidableEq

structure Setting where
  addresses : Addresses
  addressing : Addressing
  clock : Nat → Float

inductive Stop
  | failed (error : Located Fault)
  | defective (defect : Defect)
  | exhausted

inductive Flow
  | onward
  | returned (value : Value)

abbrev Run := EStateM Stop Machine

def initial : Machine :=
  ⟨.initial, Store.global, 0, 0, 0, []⟩

def fail {α : Type} (token : Token) (fault : Fault) : Run α :=
  throw (.failed ⟨token, fault⟩)

def orFail {α : Type} : Except (Located Fault) α → Run α
  | .ok a => pure a
  | .error e => throw (.failed e)

def emit (value : Value) : Run Unit :=
  modify fun m => { m with printed := value :: m.printed }

def write {ε : Type} (stop : ε → Stop) (search : FrameId → Store → Except ε FrameId)
    (change : Store → FrameId → Store) : Run Unit := fun m =>
  match search m.current m.store with
  | .ok frame => .ok () { m with store := change m.store frame }
  | .error e => .error (stop e) m

def defineIn (frame : FrameId) (name : Token) (value : Value) : Run Unit :=
  write .failed (fun _ store => store.free frame name) (·.add · name.lexeme value)

def define (name : Token) (value : Value) : Run Unit :=
  write .failed (fun current store => store.free current name) (·.add · name.lexeme value)

def newFrame (parent : FrameId) : Run FrameId :=
  modifyGet fun m =>
    let (frame, store) := m.store.child parent
    (frame, { m with store })

def newFunction (callable : Callable) : Run Value :=
  modifyGet fun m => (.function m.nextSerial callable, { m with nextSerial := m.nextSerial + 1 })

def readClock (s : Setting) : Run Value :=
  modifyGet fun m => (.number (s.clock m.readings), { m with readings := m.readings + 1 })

/-- A use with an address goes to the frame at that distance, any other one to the global frame. -/
def lookUp (s : Setting) (id : UseId) (name : Token) : Run Value := fun m =>
  match s.addressing, s.addresses[id]? with
  | .dynamic, _ =>
    match m.store.get m.current name with
    | .ok value => .ok value m
    | .error e => .error (.failed e) m
  | .lexical, none =>
    match m.store.get Store.global name with
    | .ok value => .ok value m
    | .error e => .error (.failed e) m
  | .lexical, some distance =>
    match m.store.getAt m.current distance name.lexeme with
    | .ok value => .ok value m
    | .error d => .error (.defective d) m

def assign (s : Setting) (id : UseId) (name : Token) (value : Value) : Run Unit :=
  let change (store : Store) (frame : FrameId) := store.replace frame name.lexeme value
  match s.addressing, s.addresses[id]? with
  | .dynamic, _ => write .failed (fun current store => store.owner current name) change
  | .lexical, none => write .failed (fun _ store => store.owner Store.global name) change
  | .lexical, some distance =>
    write .defective (fun current store => store.ownerAt current distance name.lexeme) change

def inFrame {α : Type} (frame : FrameId) (run : Run α) : Run α := fun m =>
  let outside := m.current
  match run { m with current := frame } with
  | .ok a m => .ok a { m with current := outside }
  | .error e m => .error e { m with current := outside }

def inCall {α : Type} (run : Run α) : Run α := fun m =>
  match run { m with depth := m.depth + 1 } with
  | .ok a m => .ok a { m with depth := m.depth - 1 }
  | .error e m => .error e { m with depth := m.depth - 1 }

end Machine
end Scriptlet
