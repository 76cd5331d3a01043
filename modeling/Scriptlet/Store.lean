import Scriptlet.Machine.Fault
import Scriptlet.Value

/-!
The store of frames. A frame binds names to values and may have a parent, which it shares with other frames;
the frames from one up to the outermost are its chain. Frames are never removed. A parent is older than its
children, so chains end.

A name is looked up along the chain, or at a given distance on it. Every write either succeeds or leaves the
store as it was.
-/

namespace Scriptlet

/-- The names of one frame, the latest first; no name comes twice. -/
abbrev Bindings := List (String × Value)

def Bindings.replace (name : String) (value : Value) (bindings : Bindings) : Bindings :=
  bindings.map fun (x, old) => (x, if x == name then value else old)

structure Frame where
  parent : Option FrameId
  bindings : Bindings

structure Store where
  frames : Array Frame
  older : ∀ {id : FrameId} {frame : Frame} {parent : FrameId},
    frames[id]? = some frame → frame.parent = some parent → parent < id

namespace Store

def global : FrameId := 0

def initial : Store where
  frames := #[⟨none, []⟩]
  older := by
    intro id frame parent found eq
    cases id with
    | zero =>
      cases found
      cases eq
    | succ => simp at found

def parent? (s : Store) (id : FrameId) : Option FrameId :=
  s.frames[id]?.bind Frame.parent

theorem parent?_lt {s : Store} {id parent : FrameId} (h : s.parent? id = some parent) : parent < id := by
  obtain ⟨frame, found, eq⟩ := Option.bind_eq_some_iff.1 h
  exact s.older found eq

def update (s : Store) (id : FrameId) (change : Bindings → Bindings) : Store where
  frames := s.frames.modify id fun frame => { frame with bindings := change frame.bindings }
  older := by
    intro i frame parent found eq
    rw [Array.getElem?_modify] at found
    split at found
    · obtain ⟨old, present, rfl⟩ := Option.map_eq_some_iff.1 found
      exact s.older present eq
    · exact s.older found eq

def child (s : Store) (parent : FrameId) : FrameId × Store :=
  (s.frames.size,
    { frames := s.frames.push ⟨Option.guard (· < s.frames.size) parent, []⟩
      older := by
        intro i frame p found eq
        rw [Array.getElem?_push] at found
        split at found
        · next last =>
          cases found
          have there := (Option.guard_eq_some_iff (p := (· < s.frames.size))).1 eq
          simp_all
        · exact s.older found eq })

def find? (s : Store) (id : FrameId) (name : String) : Option Value :=
  s.frames[id]?.bind fun frame => frame.bindings.lookup name

def binds (s : Store) (id : FrameId) (name : String) : Bool :=
  (s.find? id name).isSome

def chain (s : Store) (id : FrameId) : List FrameId :=
  match _ : s.parent? id with
  | none => [id]
  | some parent => id :: s.chain parent
termination_by id
decreasing_by exact parent?_lt ‹_›

/-- The frame on the chain that a name belongs to. -/
def nearest? (s : Store) (id : FrameId) (name : String) : Option FrameId :=
  (s.chain id).find? (s.binds · name)

def ancestor? (s : Store) (id : FrameId) : Nat → Option FrameId
  | 0 => some id
  | distance + 1 => (s.parent? id).bind fun parent => s.ancestor? parent distance

def add (s : Store) (id : FrameId) (name : String) (value : Value) : Store :=
  s.update id ((name, value) :: ·)

def replace (s : Store) (id : FrameId) (name : String) (value : Value) : Store :=
  s.update id (Bindings.replace name value)

/-! Access by name: a miss is a fault of the program, reported at the name's token. -/

open Machine (Fault Defect)

def free (s : Store) (id : FrameId) (name : Token) : Except (Located Fault) FrameId :=
  if s.binds id name.lexeme then .error ⟨name, .redefined name.lexeme⟩ else .ok id

def owner (s : Store) (id : FrameId) (name : Token) : Except (Located Fault) FrameId :=
  match s.nearest? id name.lexeme with
  | some frame => .ok frame
  | none => .error ⟨name, .undefined name.lexeme⟩

def define (s : Store) (id : FrameId) (name : Token) (value : Value) : Except (Located Fault) Store :=
  return s.add (← s.free id name) name.lexeme value

def get (s : Store) (id : FrameId) (name : Token) : Except (Located Fault) Value :=
  match (s.chain id).findSome? (s.find? · name.lexeme) with
  | some value => .ok value
  | none => .error ⟨name, .undefined name.lexeme⟩

def assign (s : Store) (id : FrameId) (name : Token) (value : Value) : Except (Located Fault) Store :=
  return s.replace (← s.owner id name) name.lexeme value

/-! Access by distance: a miss is a defect of whoever computed the distance. -/

def ownerAt (s : Store) (id : FrameId) (distance : Nat) (name : String) : Except Defect FrameId :=
  match s.ancestor? id distance with
  | none => .error .tooShallow
  | some frame => if s.binds frame name then .ok frame else .error (.unbound name distance)

def getAt (s : Store) (id : FrameId) (distance : Nat) (name : String) : Except Defect Value :=
  match s.ancestor? id distance with
  | none => .error .tooShallow
  | some frame =>
    match s.find? frame name with
    | some value => .ok value
    | none => .error (.unbound name distance)

def assignAt (s : Store) (id : FrameId) (distance : Nat) (name : String) (value : Value) :
    Except Defect Store :=
  return s.replace (← s.ownerAt id distance name) name value

end Store
end Scriptlet
