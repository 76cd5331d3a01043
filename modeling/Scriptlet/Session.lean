import Scriptlet.Token.Scan
import Scriptlet.Tree.Use
import Scriptlet.Grammar.Reader
import Scriptlet.Machine.Eval

/-!
Sessions. A session runs one batch of statements after another on the same machine, so globals and functions
live on from batch to batch. Every batch gives a report of its events in the order in which they happened.

A batch of source text is scanned, read, given addresses and run. Statements with a fault in them are left out
and the others still run; a breach of the rules of scoping keeps the whole batch from running.
-/

namespace Scriptlet

inductive Event
  | lexical (fault : Token.Fault)
  | grammar (error : Located Grammar.Fault)
  | scope (error : Located Scope.Fault)
  | printed (value : Value)
  | failure (error : Located Machine.Fault)

namespace Event

def complaint? : Event → Option String
  | .lexical fault => some fault.complaint
  | .grammar e => some (e.token.complaint e.cause.message)
  | .scope e => some (e.token.complaint e.cause.message)
  | .printed _ => none
  | .failure e => some (e.token.complaint e.cause.message)

def isError (event : Event) : Bool :=
  event.complaint?.isSome

end Event

/-- How a batch ended. An error that was reported is a regular ending. -/
inductive Ending
  | regular
  | defective (defect : Machine.Defect)
  | exhausted
  deriving DecidableEq

structure Report where
  events : List Event
  ending : Ending

structure Parse where
  program : Program
  events : List Event
  nextId : UseId

def Parse.ofString (text : String) (nextId : UseId) : Parse :=
  let scanned := scan text
  let reading := Grammar.read scanned.tokens nextId
  ⟨reading.program, scanned.faults.map .lexical ++ reading.faults.map .grammar, reading.nextId⟩

inductive Retention
  | always
  /-- Only those of a batch that can have made functions, whose bodies still need them. -/
  | withFunctions
  | never
  deriving DecidableEq

structure Policy where
  resolves : Bool
  strict : Bool
  retention : Retention
  addressing : Machine.Addressing
  budget : Nat

namespace Policy

/-- A budget that no run can use up in practice. -/
def ample : Nat := Nat.pow 2 62

def standard : Policy := ⟨true, true, .withFunctions, .lexical, ample⟩

def unresolved : Policy := { standard with resolves := false }

def forgetful : Policy := { standard with strict := false, retention := .never }

def lenient : Policy := { standard with strict := false, retention := .always }

end Policy

structure Session where
  machine : Machine
  addresses : Addresses
  nextId : UseId
  clock : Nat → Float
  hadError : Bool

namespace Session

def get (s : Session) (name : String) : Except (Located Machine.Fault) Value :=
  s.machine.store.get Store.global (.ofName name)

def binds (s : Session) (name : String) : Bool :=
  s.machine.store.binds Store.global name

def withStore (s : Session) (store : Store) : Session :=
  { s with machine := { s.machine with store } }

def define (s : Session) (name : String) (value : Value) : Except (Located Machine.Fault) Session :=
  return s.withStore (← s.machine.store.define Store.global (.ofName name) value)

def assign (s : Session) (name : String) (value : Value) : Except (Located Machine.Fault) Session :=
  return s.withStore (← s.machine.store.assign Store.global (.ofName name) value)

def newBuiltin (s : Session) (builtin : Builtin) : Value × Session :=
  (.function s.machine.nextSerial (.builtin builtin),
    { s with machine := { s.machine with nextSerial := s.machine.nextSerial + 1 } })

def install (s : Session) (builtin : Builtin) : Except (Located Machine.Fault) Session :=
  let (value, s) := s.newBuiltin builtin
  s.define builtin.name value

def clockBuiltin : Builtin := ⟨"clock", 0, .clock, true⟩

def empty (clock : Nat → Float) : Session :=
  ⟨.initial, ∅, 0, clock, false⟩

def start (clock : Nat → Float) : Session :=
  let s := empty clock
  (s.install clockBuiltin).toOption.getD s

def addAll (found addresses : Addresses) : Addresses :=
  found.foldl (fun table id distance => table.insert id distance) addresses

def removeAll (found addresses : Addresses) : Addresses :=
  found.foldl (fun table id _ => table.erase id) addresses

def retain (retention : Retention) (program : Program) (found addresses : Addresses) : Addresses :=
  match retention with
  | .always => addresses
  | .withFunctions => if program.declaresFunction then addresses else removeAll found addresses
  | .never => removeAll found addresses

def interpret (policy : Policy) (s : Session) (program : Program) : Session × Report :=
  let setting : Machine.Setting := ⟨s.addresses, policy.addressing, s.clock⟩
  let finish (machine : Machine) (last : List Event) (ending : Ending) : Session × Report :=
    let events := machine.printed.reverse.map .printed ++ last
    ({ s with machine := { machine with printed := [] } }, ⟨events, ending⟩)
  match Machine.executeAll setting policy.budget program s.machine with
  | .ok _ machine => finish machine [] .regular
  | .error (.failed e) machine => finish machine [.failure e] .regular
  | .error (.defective d) machine => finish machine [] (.defective d)
  | .error .exhausted machine => finish machine [] .exhausted

def perform (policy : Policy) (s : Session) (program : Program) : Session × Report :=
  let (scoping, breach) :=
    if policy.resolves then Scoping.start.resolve program else (.start, none)
  let scopeEvents := breach.toList.map Event.scope
  if policy.strict && breach.isSome then (s, ⟨scopeEvents, .regular⟩)
  else
    let (t, report) := interpret policy { s with addresses := addAll scoping.addresses s.addresses } program
    ({ t with addresses := retain policy.retention program scoping.addresses t.addresses },
      { report with events := scopeEvents ++ report.events })

/-- Puts the events of reading before those of running, and remembers errors. -/
def note (before : List Event) : Session × Report → Session × Report
  | (s, report) =>
    let events := before ++ report.events
    ({ s with hadError := s.hadError || events.any Event.isError }, { report with events })

def run (policy : Policy) (s : Session) (text : String) : Session × Report :=
  let parse := Parse.ofString text s.nextId
  note parse.events (perform policy { s with nextId := parse.nextId } parse.program)

def runProgram (policy : Policy) (s : Session) (program : Program) : Session × Report :=
  let (program, nextId) := program.renumber s.nextId
  note [] (perform policy { s with nextId } program)

end Session
end Scriptlet
