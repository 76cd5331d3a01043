import Scriptlet.Machine
import Scriptlet.Proofs.Address.Flat
import Scriptlet.Proofs.Machine.Outcome
import Scriptlet.Proofs.Store.Pairing

/-!
Frames with and without padding. Two machines run side by side; the first has all frames of the second, and extra ones,
which stay empty. A frame of the first covers one of the second with layers if their chains are the same, frame by frame,
once the extra frames are left out where a layer is padding. Functions correspond if their frames do and if the addresses
in their bodies are aligned with the layers around them.
-/

namespace Scriptlet

open Machine (Stop)

/-- Two machines, and where the first has the frames of the second. -/
structure Padded where
  left : Machine
  right : Machine
  embed : FrameId → FrameId

namespace Padded

def size (t : Padded) : Nat :=
  t.right.store.frames.size

def Extra (t : Padded) (f : FrameId) : Prop :=
  ∀ f', f' < t.size → t.embed f' ≠ f

/-- A chain of the first machine is one of the second with padding. -/
def Covers (t : Padded) : FrameId → FrameId → List Layer → Prop
  | f, f', [] => f = Store.global ∧ f' = Store.global
  | f, f', .scope :: outer =>
    f = t.embed f' ∧
      ∃ g g', t.left.store.parent? f = some g ∧ t.right.store.parent? f' = some g' ∧ t.Covers g g' outer
  | f, f', .padding :: outer => t.Extra f ∧ ∃ g, t.left.store.parent? f = some g ∧ t.Covers g f' outer

abbrev Current (t : Padded) (layers : List Layer) : Prop :=
  t.Covers t.left.current t.right.current layers

/-- Frames are kept with their parents and their counterparts; new frames of the second machine are new in the first. -/
structure Grows (t u : Padded) : Prop where
  size : t.left.store.frames.size ≤ u.left.store.frames.size
  size' : t.size ≤ u.size
  parent : ∀ f, f < t.left.store.frames.size → u.left.store.parent? f = t.left.store.parent? f
  parent' : ∀ f', f' < t.size → u.right.store.parent? f' = t.right.store.parent? f'
  embed : ∀ f', f' < t.size → u.embed f' = t.embed f'
  fresh : ∀ f', t.size ≤ f' → f' < u.size → t.left.store.frames.size ≤ u.embed f'

variable {t u w : Padded} {f f' : FrameId} {layers : List Layer}

namespace Grows

theorem ofStores (left : u.left.store = t.left.store) (right : u.right.store = t.right.store)
    (embed : u.embed = t.embed) : Grows t u where
  size := Nat.le_of_eq (by rw [left])
  size' := Nat.le_of_eq (by rw [Padded.size, Padded.size, right])
  parent f _ := by rw [left]
  parent' f' _ := by rw [right]
  embed f' _ := by rw [embed]
  fresh f' old new := absurd old (Nat.not_le_of_lt (by rwa [Padded.size, right] at new))

theorem refl (t : Padded) : Grows t t :=
  .ofStores rfl rfl rfl

theorem trans (h : Grows t u) (k : Grows u w) : Grows t w where
  size := Nat.le_trans h.size k.size
  size' := Nat.le_trans h.size' k.size'
  parent f inside := (k.parent f (Nat.lt_of_lt_of_le inside h.size)).trans (h.parent f inside)
  parent' f' inside := (k.parent' f' (Nat.lt_of_lt_of_le inside h.size')).trans (h.parent' f' inside)
  embed f' inside := (k.embed f' (Nat.lt_of_lt_of_le inside h.size')).trans (h.embed f' inside)
  fresh f' old new := by
    by_cases between : f' < u.size
    · rw [k.embed f' between]
      exact h.fresh f' old between
    · exact Nat.le_trans h.size (k.fresh f' (Nat.le_of_not_lt between) new)

end Grows

theorem Extra.grow (h : t.Extra f) (inside : f < t.left.store.frames.size) (grows : Grows t u) : u.Extra f := by
  intro f' new
  by_cases old : f' < t.size
  · rw [grows.embed f' old]
    exact h f' old
  · exact Nat.ne_of_gt (Nat.lt_of_lt_of_le inside (grows.fresh f' (Nat.le_of_not_lt old) new))

theorem Covers.grow (h : t.Covers f f' layers) (grows : Grows t u) : u.Covers f f' layers := by
  induction layers generalizing f f' with
  | nil => exact h
  | cons layer outer ih =>
    cases layer with
    | scope =>
      obtain ⟨here, g, g', up, up', rest⟩ := h
      have inside' := Store.lt_size_of_parent? up'
      refine ⟨here.trans (grows.embed f' inside').symm, g, g', ?_, ?_, ih rest⟩
      · rw [grows.parent f (Store.lt_size_of_parent? up), up]
      · rw [grows.parent' f' inside', up']
    | padding =>
      obtain ⟨extra, g, up, rest⟩ := h
      have inside := Store.lt_size_of_parent? up
      exact ⟨extra.grow inside grows, g, (grows.parent f inside).trans up, ih rest⟩

theorem Covers.lt_size' (h : t.Covers f f' layers) (present : 0 < t.size) : f' < t.size := by
  induction layers generalizing f f' with
  | nil => exact h.2 ▸ present
  | cons layer outer ih =>
    cases layer with
    | scope =>
      obtain ⟨_, _, g', _, up', _⟩ := h
      exact Store.lt_size_of_parent? up'
    | padding =>
      obtain ⟨_, g, _, rest⟩ := h
      exact ih rest

/-- Where something can be declared, a frame stands for one of the second machine. -/
theorem Covers.eq_embed (h : t.Covers f f' layers) (opened : Layer.Open layers)
    (global : t.embed Store.global = Store.global) : f = t.embed f' := by
  match layers with
  | [] => rw [h.1, h.2, global]
  | .scope :: _ => exact h.1
  | .padding :: _ => exact absurd rfl opened

theorem parent?_global (s : Store) : s.parent? Store.global = none :=
  Option.eq_none_iff_forall_ne_some.2 fun _ up => Nat.not_lt_zero _ (Store.parent?_lt up)

inductive Same (t : Padded) : Option FrameId → Option FrameId → Prop
  | none : Same t none none
  | some {g' : FrameId} (inside : g' < t.size) : Same t (some (t.embed g')) (some g')

theorem Covers.ancestor? (h : t.Covers f f' layers) (present : 0 < t.size) (global : t.embed Store.global = Store.global)
    {d d' : Nat} (shrinks : Layer.shrink layers d = some d') :
    Same t (t.left.store.ancestor? f d) (t.right.store.ancestor? f' d') := by
  induction layers generalizing f f' d d' with
  | nil =>
    obtain ⟨rfl, rfl⟩ := h
    cases shrinks
    cases d with
    | zero =>
      have here : Same t (some (t.embed Store.global)) (some Store.global) := .some present
      rwa [global] at here
    | succ d =>
      rw [Store.ancestor?, Store.ancestor?, parent?_global, parent?_global]
      exact .none
  | cons layer outer ih =>
    cases layer with
    | scope =>
      obtain ⟨rfl, g, g', up, up', rest⟩ := h
      cases d with
      | zero =>
        cases shrinks
        exact .some (Store.lt_size_of_parent? up')
      | succ d =>
        obtain ⟨e, further, rfl⟩ := Option.map_eq_some_iff.1 shrinks
        rw [Store.ancestor?, Store.ancestor?, up, up']
        exact ih rest further
    | padding =>
      obtain ⟨_, g, up, rest⟩ := h
      cases d with
      | zero => cases shrinks
      | succ d =>
        rw [Store.ancestor?, up]
        exact ih rest shrinks

variable (t) (f f' : FrameId)

def enter : Padded :=
  { t with left := { t.left with current := f }, right := { t.right with current := f' } }

def child : Padded where
  left := { t.left with store := (t.left.store.child f).2 }
  right := { t.right with store := (t.right.store.child f').2 }
  embed g' := if g' = t.size then t.left.store.frames.size else t.embed g'

def pad : Padded :=
  { t with left := { t.left with store := (t.left.store.child f).2 } }

def add (x : String) (v v' : Value) : Padded :=
  { t with
    left := { t.left with store := t.left.store.add (t.embed f') x v }
    right := { t.right with store := t.right.store.add f' x v' } }

def replace (x : String) (v v' : Value) : Padded :=
  { t with
    left := { t.left with store := t.left.store.replace (t.embed f') x v }
    right := { t.right with store := t.right.store.replace f' x v' } }

variable {t} {f f'} {x : String} {v v' : Value}

theorem Grows.enter (t : Padded) (f f' : FrameId) : Grows t (t.enter f f') :=
  .ofStores rfl rfl rfl

theorem Grows.child (t : Padded) (f f' : FrameId) : Grows t (t.child f f') where
  size := by simp [Padded.child]
  size' := by simp [Padded.child, Padded.size]
  parent g inside := Store.parent?_child_of_lt f inside
  parent' g' inside := Store.parent?_child_of_lt f' inside
  embed g' inside := if_neg (Nat.ne_of_lt inside)
  fresh g' old new := by
    have last : g' = t.size := by
      simp only [Padded.size, Padded.child, Store.size_child] at old new
      exact Nat.le_antisymm (Nat.le_of_lt_succ new) old
    exact Nat.le_of_eq (if_pos last).symm

theorem Grows.pad (t : Padded) (f : FrameId) : Grows t (t.pad f) where
  size := by simp [Padded.pad]
  size' := Nat.le_refl _
  parent g inside := Store.parent?_child_of_lt f inside
  parent' _ _ := rfl
  embed _ _ := rfl
  fresh _ old new := absurd old (Nat.not_le_of_lt new)

theorem Grows.add (t : Padded) (f' : FrameId) (x : String) (v v' : Value) : Grows t (t.add f' x v v') where
  size := Nat.le_of_eq (Store.size_update ..).symm
  size' := Nat.le_of_eq (Store.size_update ..).symm
  parent _ _ := Store.parent?_update ..
  parent' _ _ := Store.parent?_update ..
  embed _ _ := rfl
  fresh _ old new := absurd old (Nat.not_le_of_lt (Nat.lt_of_lt_of_eq new (Store.size_update ..)))

theorem Grows.replace (t : Padded) (f' : FrameId) (x : String) (v v' : Value) : Grows t (t.replace f' x v v') where
  size := Nat.le_of_eq (Store.size_update ..).symm
  size' := Nat.le_of_eq (Store.size_update ..).symm
  parent _ _ := Store.parent?_update ..
  parent' _ _ := Store.parent?_update ..
  embed _ _ := rfl
  fresh _ old new := absurd old (Nat.not_le_of_lt (Nat.lt_of_lt_of_eq new (Store.size_update ..)))

theorem Covers.child (h : t.Covers f f' layers) (inside : f < t.left.store.frames.size) (inside' : f' < t.size) :
    (t.child f f').Covers t.left.store.frames.size t.size (.scope :: layers) := by
  refine ⟨(if_pos rfl).symm, f, f', Store.parent?_child_self inside, Store.parent?_child_self inside', ?_⟩
  exact h.grow (.child t f f')

theorem Covers.pad (h : t.Covers f f' layers) (inside : f < t.left.store.frames.size)
    (within : ∀ g', g' < t.size → t.embed g' < t.left.store.frames.size) :
    (t.pad f).Covers t.left.store.frames.size f' (.padding :: layers) :=
  ⟨fun g' there => Nat.ne_of_lt (within g' there), f, Store.parent?_child_self inside, h.grow (.pad t f)⟩

end Padded

namespace Flattening

variable (F : Flattening)

inductive Values (t : Padded) : Value → Value → Prop
  | nil : Values t .nil .nil
  | boolean (value : Bool) : Values t (.boolean value) (.boolean value)
  | number (value : Float) : Values t (.number value) (.number value)
  | text (content : String) : Values t (.text content) (.text content)
  | closure (serial : Nat) {name : Token} {parameters : List Token} {body : Program} {f f' : FrameId} {layers : List Layer}
      (covers : t.Covers f f' layers) (aligned : F.AlignedIn (.scope :: layers) body) :
      Values t (.function serial (.closure name parameters body f)) (.function serial (.closure name parameters body f'))
  | builtin (serial : Nat) {builtin : Builtin} (clock : builtin.action = .clock) :
      Values t (.function serial (.builtin builtin)) (.function serial (.builtin builtin))

structure Valid (t : Padded) : Prop where
  present : 0 < t.size
  global : t.embed Store.global = Store.global
  inside : ∀ f', f' < t.size → t.embed f' < t.left.store.frames.size
  injective : ∀ f' g', f' < t.size → g' < t.size → t.embed f' = t.embed g' → f' = g'
  bindings : ∀ f', f' < t.size →
    Bindings.Paired Eq (F.Values t) (t.left.store.bindings (t.embed f')) (t.right.store.bindings f')
  extra : ∀ f, t.Extra f → t.left.store.bindings f = []
  depth : t.right.depth = t.left.depth
  readings : t.right.readings = t.left.readings
  nextSerial : t.right.nextSerial = t.left.nextSerial
  printed : List.Forall₂ (F.Values t) t.left.printed t.right.printed

structure Steps (t u : Padded) : Prop where
  valid : F.Valid u
  grows : Padded.Grows t u
  current : u.left.current = t.left.current
  current' : u.right.current = t.right.current

variable {F} {t u w : Padded} {f f' : FrameId} {layers : List Layer} {v v' : Value} {x : String}

namespace Values

theorem grow (h : F.Values t v v') (grows : Padded.Grows t u) : F.Values u v v' := by
  cases h with
  | nil => exact .nil
  | boolean value => exact .boolean value
  | number value => exact .number value
  | text content => exact .text content
  | closure serial covers aligned => exact .closure serial (covers.grow grows) aligned
  | builtin serial clock => exact .builtin serial clock

theorem ofPlain (plain : v.Plain) : F.Values t v v := by
  cases v with
  | nil => exact .nil
  | boolean value => exact .boolean value
  | number value => exact .number value
  | text content => exact .text content
  | function serial callable => cases plain

theorem truthy_eq (h : F.Values t v v') : v'.truthy = v.truthy := by
  cases h <;> rfl

theorem equals_eq {w w' : Value} (h : F.Values t v v') (k : F.Values t w w') : v'.equals w' = v.equals w := by
  cases h <;> cases k <;> rfl

theorem display_eq (h : F.Values t v v') : v'.display = v.display := by
  cases h <;> rfl

end Values

namespace Valid

theorem lt_size (valid : F.Valid t) (covers : t.Covers f f' layers) : f < t.left.store.frames.size := by
  match layers with
  | [] =>
    rw [covers.1, ← valid.global]
    exact valid.inside _ valid.present
  | .scope :: _ =>
    obtain ⟨_, _, _, up, _⟩ := covers
    exact Store.lt_size_of_parent? up
  | .padding :: _ =>
    obtain ⟨_, _, up, _⟩ := covers
    exact Store.lt_size_of_parent? up

theorem ofStores (valid : F.Valid t) (left : u.left.store = t.left.store) (right : u.right.store = t.right.store)
    (embed : u.embed = t.embed) (depth : u.right.depth = u.left.depth) (readings : u.right.readings = u.left.readings)
    (nextSerial : u.right.nextSerial = u.left.nextSerial)
    (printed : List.Forall₂ (F.Values t) u.left.printed u.right.printed) : F.Valid u := by
  have grows : Padded.Grows t u := .ofStores left right embed
  have size : u.size = t.size := by rw [Padded.size, right, Padded.size]
  refine ⟨size ▸ valid.present, embed ▸ valid.global, ?_, ?_, ?_, ?_, depth, readings, nextSerial,
    printed.imp fun _ _ same => same.grow grows⟩
  · rw [size, embed, left]
    exact valid.inside
  · rw [size, embed]
    exact valid.injective
  · rw [size, embed, left, right]
    exact fun g' there => (valid.bindings g' there).imp fun _ _ same => same.grow grows
  · unfold Padded.Extra
    rw [size, embed, left]
    exact valid.extra

theorem enter (valid : F.Valid t) (f f' : FrameId) : F.Valid (t.enter f f') :=
  valid.ofStores rfl rfl rfl valid.depth valid.readings valid.nextSerial valid.printed

theorem child (valid : F.Valid t) (f f' : FrameId) : F.Valid (t.child f f') := by
  have grows := Padded.Grows.child t f f'
  have size : (t.child f f').size = t.size + 1 := Store.size_child ..
  have size' : (t.child f f').left.store.frames.size = t.left.store.frames.size + 1 := Store.size_child ..
  have here : (t.child f f').embed t.size = t.left.store.frames.size := if_pos rfl
  refine { valid with
    present := size ▸ Nat.succ_pos _
    global := (grows.embed _ valid.present).trans valid.global
    inside := fun g' there => ?_
    injective := fun g' h' there there' same => ?_
    bindings := fun g' there => ?_
    extra := fun g extra => ?_
    printed := valid.printed.imp fun _ _ same => same.grow grows }
  · rw [size']
    rcases Nat.lt_or_eq_of_le (Nat.le_of_lt_succ (size ▸ there)) with old | rfl
    · rw [grows.embed g' old]
      exact Nat.lt_succ_of_lt (valid.inside g' old)
    · rw [here]
      exact Nat.lt_succ_self _
  · rcases Nat.lt_or_eq_of_le (Nat.le_of_lt_succ (size ▸ there)) with old | rfl <;>
      rcases Nat.lt_or_eq_of_le (Nat.le_of_lt_succ (size ▸ there')) with old' | rfl
    · rw [grows.embed g' old, grows.embed h' old'] at same
      exact valid.injective g' h' old old' same
    · rw [grows.embed g' old, here] at same
      exact absurd (valid.inside g' old) (same ▸ Nat.lt_irrefl _)
    · rw [grows.embed h' old', here] at same
      exact absurd (valid.inside h' old') (same ▸ Nat.lt_irrefl _)
    · rfl
  · rcases Nat.lt_or_eq_of_le (Nat.le_of_lt_succ (size ▸ there)) with old | rfl
    · rw [grows.embed g' old]
      simpa [Padded.child] using (valid.bindings g' old).imp fun _ _ same => same.grow grows
    · rw [here]
      have empty : (t.child f f').left.store.bindings t.left.store.frames.size = [] := by
        simp [Padded.child, Store.bindings_of_size_le]
      have empty' : (t.child f f').right.store.bindings t.size = [] := by
        simp [Padded.child, Padded.size, Store.bindings_of_size_le]
      rw [empty, empty']
      exact .nil
  · refine (Store.bindings_child ..).trans (valid.extra g fun g' old => ?_)
    rw [← grows.embed g' old]
    exact extra g' (Nat.lt_of_lt_of_le old grows.size')

theorem pad (valid : F.Valid t) (f : FrameId) : F.Valid (t.pad f) := by
  have grows := Padded.Grows.pad t f
  refine { valid with
    inside := fun g' there => Nat.lt_of_lt_of_le (valid.inside g' there) grows.size
    bindings := fun g' there => ?_
    extra := fun g extra => (Store.bindings_child ..).trans (valid.extra g extra)
    printed := valid.printed.imp fun _ _ same => same.grow grows }
  simpa [Padded.pad] using (valid.bindings g' there).imp fun _ _ same => same.grow grows

theorem replace (valid : F.Valid t) (there : f' < t.size) (same : F.Values t v v') (x : String) :
    F.Valid (t.replace f' x v v') := by
  have grows := Padded.Grows.replace t f' x v v'
  have size : (t.replace f' x v v').size = t.size := Store.size_update ..
  refine { valid with
    present := Nat.lt_of_lt_of_le valid.present grows.size'
    inside := fun g' inside => Nat.lt_of_lt_of_le (valid.inside g' (size ▸ inside)) grows.size
    injective := fun g' h' inside inside' => valid.injective g' h' (size ▸ inside) (size ▸ inside')
    bindings := fun g' inside => ?_
    extra := fun g extra => ?_
    printed := valid.printed.imp fun _ _ same => same.grow grows }
  · rw [size] at inside
    have paired := (valid.bindings g' inside).imp fun _ _ same => same.grow grows
    change Bindings.Paired Eq (F.Values (t.replace f' x v v'))
      ((t.left.store.replace (t.embed f') x v).bindings (t.embed g')) ((t.right.store.replace f' x v').bindings g')
    rw [Store.bindings_replace, Store.bindings_replace]
    by_cases here : g' = f'
    · subst here
      rw [if_pos rfl, if_pos rfl]
      exact paired.replace_self x (same.grow grows)
    · rw [if_neg here, if_neg fun same => here (valid.injective g' f' inside there same)]
      exact paired
  · have old : t.Extra g := fun g' inside => extra g' (size.symm ▸ inside)
    simp only [Padded.replace, Store.bindings_replace, if_neg (old f' there).symm]
    exact valid.extra g old

theorem add (valid : F.Valid t) (there : f' < t.size) (x : String) (same : F.Values (t.add f' x v v') v v') :
    F.Valid (t.add f' x v v') := by
  have grows := Padded.Grows.add t f' x v v'
  have size : (t.add f' x v v').size = t.size := Store.size_update ..
  refine { valid with
    present := Nat.lt_of_lt_of_le valid.present grows.size'
    inside := fun g' inside => Nat.lt_of_lt_of_le (valid.inside g' (size ▸ inside)) grows.size
    injective := fun g' h' inside inside' => valid.injective g' h' (size ▸ inside) (size ▸ inside')
    bindings := fun g' inside => ?_
    extra := fun g extra => ?_
    printed := valid.printed.imp fun _ _ same => same.grow grows }
  · rw [size] at inside
    have paired := (valid.bindings g' inside).imp fun _ _ same => same.grow grows
    change Bindings.Paired Eq (F.Values (t.add f' x v v'))
      ((t.left.store.add (t.embed f') x v).bindings (t.embed g')) ((t.right.store.add f' x v').bindings g')
    rw [Store.bindings_add (valid.inside f' there), Store.bindings_add there]
    by_cases here : g' = f'
    · subst here
      rw [if_pos rfl, if_pos rfl]
      exact .cons ⟨rfl, same⟩ paired
    · rw [if_neg here, if_neg fun same => here (valid.injective g' f' inside there same)]
      exact paired
  · have old : t.Extra g := fun g' inside => extra g' (size.symm ▸ inside)
    simp only [Padded.add, Store.bindings_add (valid.inside f' there), if_neg (old f' there).symm]
    exact valid.extra g old

theorem binds_eq (valid : F.Valid t) (there : f' < t.size) (x : String) :
    t.right.store.binds f' x = t.left.store.binds (t.embed f') x := by
  rw [Bool.eq_iff_iff, Store.binds_iff, Store.binds_iff, Store.names, (valid.bindings f' there).names_eq, Store.names]

theorem find? (valid : F.Valid t) (there : f' < t.size) (found : t.left.store.find? (t.embed f') x = some v) :
    ∃ v', t.right.store.find? f' x = some v' ∧ F.Values t v v' := by
  rw [Store.find?_eq_lookup] at found
  rw [Store.find?_eq_lookup]
  exact (valid.bindings f' there).lookup_self found

end Valid

namespace Steps

theorem refl (valid : F.Valid t) : F.Steps t t :=
  ⟨valid, .refl t, rfl, rfl⟩

theorem trans (h : F.Steps t u) (k : F.Steps u w) : F.Steps t w :=
  ⟨k.valid, h.grows.trans k.grows, k.current.trans h.current, k.current'.trans h.current'⟩

theorem covers (h : F.Steps t u) (here : t.Current layers) : u.Current layers := by
  unfold Padded.Current
  rw [h.current, h.current']
  exact here.grow h.grows

end Steps

end Flattening
end Scriptlet
