import Scriptlet.Proofs.Machine.Lockstep
import Scriptlet.Proofs.Machine.Outcome
import Scriptlet.Proofs.Machine.Verbatim

namespace Scriptlet

inductive Value.Known (known : Stmt → Prop) (size : Nat) : Value → Prop
  | nil : Known known size .nil
  | boolean (value : Bool) : Known known size (.boolean value)
  | number (value : Float) : Known known size (.number value)
  | text (content : String) : Known known size (.text content)
  | closure (serial : Nat) {name : Token} {parameters : List Token} {body : Program} {frame : FrameId}
      (inside : frame < size) (declared : known (.function name parameters body)) :
      Known known size (.function serial (.closure name parameters body frame))
  | builtin (serial : Nat) {builtin : Builtin} (clock : builtin.action = .clock) :
      Known known size (.function serial (.builtin builtin))

theorem Value.Known.imp {known known' : Stmt → Prop} {size : Nat} {v : Value} (h : v.Known known size)
    (k : ∀ g, known g → known' g) : v.Known known' size := by
  cases h with
  | nil => exact .nil
  | boolean value => exact .boolean value
  | number value => exact .number value
  | text content => exact .text content
  | closure serial inside declared => exact .closure serial inside (k _ declared)
  | builtin serial clock => exact .builtin serial clock

structure Machine.Holds (known : Stmt → Prop) (m : Machine) : Prop where
  current : m.current = Store.global
  present : 0 < m.store.frames.size
  nodup : ∀ f, (m.store.names f).Nodup
  values : ∀ f, ∀ b ∈ m.store.bindings f, b.2.Known known m.store.frames.size
  printed : m.printed = []

theorem Machine.Holds.imp {known known' : Stmt → Prop} {m : Machine} (h : m.Holds known)
    (k : ∀ g, known g → known' g) : m.Holds known' :=
  { h with values := fun f b mem => (h.values f b mem).imp k }

def Machine.twin (m : Machine) : Twin :=
  ⟨m, m, fun _ => Eq, []⟩

theorem Machine.renders_twin {m : Machine} (inside : m.current < m.store.frames.size) :
    m.twin.Renders m.twin.left.current .verbatim :=
  ⟨⟨inside, fun _ _ _ => rfl⟩, nofun⟩

namespace Likeness

open Machine

variable {like : Likeness} {known : Stmt → Prop} {m : Machine} {t u : Twin} {v v' : Value}

theorem values_self {size : Nat} (h : v.Known known size) (within : size ≤ m.twin.size)
    (alike : ∀ g, known g → Stmt.Paired like .verbatim g g .verbatim) : like.Values m.twin v v := by
  cases h with
  | nil => exact .nil
  | boolean value => exact .boolean value
  | number value => exact .number value
  | text content => exact .text content
  | builtin serial clock => exact .function serial (.builtin clock)
  | closure serial inside declared =>
    cases alike _ declared with
    | function declares lexeme opens binds inside' keeps =>
      have covers : m.twin.Covers _ .verbatim := ⟨Nat.lt_of_lt_of_le inside within, fun _ _ _ => rfl⟩
      exact .function serial (.closure lexeme covers opens binds inside' keeps)

theorem valid_self (h : m.Holds known) (refl : ∀ x, like.name x x)
    (alike : ∀ g, known g → Stmt.Paired like .verbatim g g .verbatim) : like.Valid m.twin where
  current := rfl
  inside := h.current ▸ h.present
  size := rfl
  parent _ := rfl
  bindings f := List.forall₂_same.2 fun b mem => ⟨rfl, values_self (h.values f b mem) (Nat.le_refl _) alike⟩
  nodup := h.nodup
  nodup' := h.nodup
  global := rfl
  named := by
    rintro f x _ rfl
    exact refl x
  depth := rfl
  readings := rfl
  nextSerial := rfl
  printed := by
    rw [show m.twin.right.printed = [] from h.printed, show m.twin.left.printed = [] from h.printed]
    exact ⟨[], rfl, .nil⟩

theorem Values.isKnown (h : like.Values t v v') (present : 0 < t.size) (keeps : ∀ g g', like.keeps g g' → known g) :
    v.Known known t.size := by
  cases h with
  | nil => exact .nil
  | boolean value => exact .boolean value
  | number value => exact .number value
  | text content => exact .text content
  | function serial same =>
    cases same with
    | closure lexeme covers opens binds inside kept => exact .closure serial (covers.lt_size present) (keeps _ _ kept)
    | builtin clock => exact .builtin serial clock

theorem Valid.holds (valid : like.Valid t) (current : t.left.current = Store.global)
    (keeps : ∀ g g', like.keeps g g' → known g) : Machine.Holds known { t.left with printed := [] } where
  current := current
  present := Nat.zero_lt_of_lt valid.inside
  nodup := valid.nodup
  values f b mem := by
    obtain ⟨w, same⟩ := (valid.bindings f).exists_value mem
    exact same.isKnown (Nat.zero_lt_of_lt valid.inside) keeps
  printed := rfl

theorem Ends.left {α : Type} {P : α → α → Twin → Prop} {spot : Option FrameId}
    {r r' : EStateM.Result Stop Machine α} (h : Ends like 0 spot t P r r') :
    ∃ u, like.Steps spot t u ∧ u.left = Machine.left r ∧ u.right = Machine.left r' := by
  cases h with
  | ok steps post => exact ⟨_, steps, rfl, rfl⟩
  | error steps same => exact ⟨_, steps, rfl, rfl⟩
  | spent more => exact absurd rfl more

theorem Faults.eq {fault fault' : Fault} (h : like.Faults fault fault') (token : ∀ {a a'}, like.token a a' → a' = a) :
    fault' = fault := by
  cases h with
  | same fault => rfl
  | unary same => rw [token same]
  | binary same => rw [token same]

theorem Faults.message_eq {fault fault' : Fault} (h : like.Faults fault fault')
    (kind : ∀ {a a'}, like.token a a' → a'.kind = a.kind) (lexeme : ∀ {a a'}, like.token a a' → a'.lexeme = a.lexeme) :
    fault'.message = fault.message := by
  have describe {a a' : Token} (same : like.token a a') : a'.describe = a.describe := by
    rw [Token.describe, kind same, lexeme same, Token.describe]
  cases h with
  | same fault => rfl
  | unary same => exact congrArg (fun name => s!"Unknown unary operator {name}") (describe same)
  | binary same => exact congrArg (fun name => s!"Unknown binary operator {name}") (describe same)

structure Exact (like : Likeness) : Prop where
  token : ∀ {a a'}, like.token a a' → a' = a
  keeps : ∀ {g g'}, like.keeps g g' → g' = g
  name : ∀ {x x'}, like.name x x' → x' = x

namespace Exact

variable (exact : like.Exact)

include exact

theorem values_eq (h : like.Values t v v') : v' = v := by
  cases h with
  | function serial same =>
    cases same with
    | closure lexeme covers opens binds inside keeps =>
      obtain ⟨rfl, rfl, rfl⟩ := Stmt.function.inj (exact.keeps keeps)
      rfl
    | builtin clock => rfl
  | _ => rfl

theorem machine_eq (valid : like.Valid t) (fresh : t.before = []) : t.right = t.left := by
  have bindings (f : FrameId) : t.right.store.bindings f = t.left.store.bindings f := by
    have equal : List.Forall₂ Eq (t.left.store.bindings f) (t.right.store.bindings f) := by
      refine List.Forall₂.imp (fun b b' both => ?_) (valid.bindings f)
      exact Prod.ext (exact.name (valid.named f _ _ both.1)).symm (exact.values_eq both.2).symm
    rw [List.forall₂_eq_eq_eq] at equal
    exact equal.symm
  have printed : t.right.printed = t.left.printed := by
    have equal := (valid.printed_alike fresh).imp fun _ _ same => (exact.values_eq same).symm
    rw [List.forall₂_eq_eq_eq] at equal
    exact equal.symm
  have store := Store.ext_bindings valid.size valid.parent bindings
  obtain ⟨⟨_, _, _, _, _, _⟩, ⟨_, _, _, _, _, _⟩, _, _⟩ := t
  cases store
  cases printed
  cases valid.current
  cases valid.depth
  cases valid.readings
  cases valid.nextSerial
  rfl

theorem stops_eq {e e' : Stop} (h : like.Stops e e') : e' = e := by
  cases h with
  | failed place cause =>
    cases exact.token place
    cases cause.eq exact.token
    rfl
  | unbound names distance => rw [exact.name names]
  | tooShallow => rfl
  | exhausted => rfl

theorem result_eq {spot : Option FrameId} {onward : Prop} {r r' : EStateM.Result Stop Machine Flow}
    (fresh : t.before = []) (h : Ends like 0 spot t (fun flow flow' u => like.Flows u onward flow flow') r r') : r' = r := by
  cases h with
  | ok steps post =>
    rw [exact.machine_eq steps.valid (steps.before.trans fresh)]
    cases post with
    | onward _ => rfl
    | returned same => rw [exact.values_eq same]
  | error steps same => rw [exact.machine_eq steps.valid (steps.before.trans fresh), exact.stops_eq same]
  | spent more => exact absurd rfl more

end Exact

end Likeness
end Scriptlet
