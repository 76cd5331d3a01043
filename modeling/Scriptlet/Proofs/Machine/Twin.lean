import Scriptlet.Machine
import Scriptlet.Proofs.Store.Pairing

/-!
Two machines side by side. Their frames correspond number by number, and so do the names in two corresponding frames,
place by place; a link is a pair of names that stand at the same place. What may ever be linked in a frame is settled
when the frame is made.

A place says what is known of the frames around a piece of code: of each one the links that the code relies on. Frames
gain links while code runs in them, so a place that is covered once is covered for good.
-/

namespace Scriptlet

structure Twin where
  left : Machine
  right : Machine
  /-- The links that a frame may come to have. -/
  allows : FrameId → String → String → Prop
  /-- What the second machine had printed before. -/
  before : List Value

inductive Place
  | global
  /-- From here on outwards, both sides bind the same names. -/
  | verbatim
  /-- A frame with the links that its scope has declared, and those that it may declare at all. -/
  | scope (declared : List (String × String)) (allowed : String → String → Prop) (outer : Place)

namespace Place

def allowed : Place → String → String → Prop
  | .scope _ allowed _ => allowed
  | .global | .verbatim => Eq

inductive Opens (name : String → String → Prop) : Place → Place → Prop
  | verbatim : Opens name .verbatim .verbatim
  | scope {allowed : String → String → Prop} (bounded : ∀ x x', allowed x x' → name x x') (outer : Place) :
      Opens name outer (.scope [] allowed outer)

theorem Opens.bounded {name : String → String → Prop} {p q : Place} (h : Opens name p q) (refl : ∀ x, name x x) :
    ∀ x x', q.allowed x x' → name x x' := by
  cases h with
  | verbatim =>
    rintro x _ rfl
    exact refl x
  | scope bounded outer => exact bounded

/-- A declaration of two corresponding names and the place behind it. Only in a scope may they differ, and there both of
them must be new. -/
inductive Declares (token : Token → Token → Prop) : Place → Token → Token → Place → Prop
  | global {name name' : Token} (same : token name name') : Declares token .global name name' .global
  | verbatim {name name' : Token} (same : token name name') : Declares token .verbatim name name' .verbatim
  | scope {declared : List (String × String)} {allowed : String → String → Prop} {outer : Place} {name name' : Token}
      (fresh : name.lexeme ∉ declared.map Prod.fst) (fresh' : name'.lexeme ∉ declared.map Prod.snd)
      (may : allowed name.lexeme name'.lexeme) :
      Declares token (.scope declared allowed outer) name name'
        (.scope ((name.lexeme, name'.lexeme) :: declared) allowed outer)

inductive DeclaresAll (token : Token → Token → Prop) : Place → List Token → List Token → Place → Prop
  | nil (p : Place) : DeclaresAll token p [] [] p
  | cons {p q r : Place} {name name' : Token} {names names' : List Token} (first : Declares token p name name' q)
      (rest : DeclaresAll token q names names' r) : DeclaresAll token p (name :: names) (name' :: names') r

theorem DeclaresAll.length_eq {token : Token → Token → Prop} {p q : Place} {names names' : List Token}
    (h : DeclaresAll token p names names' q) : names'.length = names.length := by
  induction h with
  | nil => rfl
  | cons _ _ ih => simp [ih]

end Place

namespace Twin

variable (t : Twin)

def size : Nat :=
  t.left.store.frames.size

def links (f : FrameId) : List (String × String) :=
  (t.left.store.names f).zip (t.right.store.names f)

def Covers : FrameId → Place → Prop
  | f, .global => f = Store.global
  | f, .verbatim => f < t.size ∧ ∀ d g, t.left.store.ancestor? f d = some g → t.allows g = Eq
  | f, .scope declared allowed outer =>
    declared ⊆ t.links f ∧ t.allows f = allowed ∧
      ∃ parent, t.left.store.parent? f = some parent ∧ Covers parent outer

structure Renders (f : FrameId) (p : Place) : Prop where
  covers : t.Covers f p
  exact : ∀ {declared allowed outer}, p = .scope declared allowed outer → t.links f = declared

/-- Frames are kept with their parents and links; a link can be new only in the frame at `spot`. -/
structure Grows (spot : Option FrameId) (t u : Twin) : Prop where
  size : t.size ≤ u.size
  parent : ∀ f, f < t.size → u.left.store.parent? f = t.left.store.parent? f
  kept : ∀ f, t.links f ⊆ u.links f
  fixed : ∀ f, f < t.size → some f ≠ spot → u.links f = t.links f
  allows : ∀ f, f < t.size → u.allows f = t.allows f

variable {t} {u w : Twin} {spot : Option FrameId} {f : FrameId} {p q : Place}

namespace Grows

theorem refl (spot : Option FrameId) (t : Twin) : Grows spot t t :=
  ⟨Nat.le_refl _, fun _ _ => rfl, fun _ => List.Subset.refl _, fun _ _ _ => rfl, fun _ _ => rfl⟩

theorem trans (h : Grows spot t u) (k : Grows spot u w) : Grows spot t w where
  size := Nat.le_trans h.size k.size
  parent f hf := (k.parent f (Nat.lt_of_lt_of_le hf h.size)).trans (h.parent f hf)
  kept f := List.Subset.trans (h.kept f) (k.kept f)
  fixed f hf away := (k.fixed f (Nat.lt_of_lt_of_le hf h.size) away).trans (h.fixed f hf away)
  allows f hf := (k.allows f (Nat.lt_of_lt_of_le hf h.size)).trans (h.allows f hf)

theorem anywhere (h : Grows none t u) (spot : Option FrameId) : Grows spot t u :=
  { h with fixed := fun f hf _ => h.fixed f hf nofun }

theorem outside (h : Grows (some f) t u) (new : t.size ≤ f) : Grows none t u :=
  { h with fixed := fun g hg _ => h.fixed g hg fun same => Nat.not_le_of_lt hg (Option.some.inj same ▸ new) }

theorem ancestor? (h : Grows spot t u) (hf : f < t.size) (d : Nat) :
    u.left.store.ancestor? f d = t.left.store.ancestor? f d := by
  induction d generalizing f with
  | zero => rfl
  | succ d ih =>
    rw [Store.ancestor?, Store.ancestor?, h.parent f hf]
    cases up : t.left.store.parent? f with
    | none => rfl
    | some parent => exact ih (Nat.lt_trans (Store.parent?_lt up) hf)

end Grows

theorem ancestor?_le {s : Store} {f g : FrameId} {d : Nat} (h : s.ancestor? f d = some g) : g ≤ f := by
  induction d generalizing f with
  | zero => exact Nat.le_of_eq (Option.some.inj h).symm
  | succ d ih =>
    obtain ⟨parent, up, found⟩ := Option.bind_eq_some_iff.1 h
    exact Nat.le_trans (ih found) (Nat.le_of_lt (Store.parent?_lt up))

theorem Covers.grow (h : t.Covers f p) (grows : Grows spot t u) : u.Covers f p := by
  induction p generalizing f with
  | global => exact h
  | verbatim =>
    obtain ⟨inside, same⟩ := h
    refine ⟨Nat.lt_of_lt_of_le inside grows.size, fun d g found => ?_⟩
    rw [grows.ancestor? inside] at found
    rw [grows.allows g (Nat.lt_of_le_of_lt (ancestor?_le found) inside), same d g found]
  | scope declared allowed outer ih =>
    obtain ⟨links, allows, parent, up, rest⟩ := h
    have inside := Store.lt_size_of_parent? up
    refine ⟨List.Subset.trans links (grows.kept f), ?_, parent, ?_, ih rest⟩
    · rw [grows.allows f inside, allows]
    · rw [grows.parent f inside, up]

theorem Covers.allows (h : t.Covers f p) (global : t.allows Store.global = Eq) : t.allows f = p.allowed := by
  cases p with
  | global => exact (congrArg t.allows h).trans global
  | verbatim => exact h.2 0 f rfl
  | scope declared allowed outer => exact h.2.1

theorem Covers.lt_size (h : t.Covers f p) (some : 0 < t.size) : f < t.size := by
  cases p with
  | global => exact (show f = Store.global from h) ▸ some
  | verbatim => exact h.1
  | scope declared allowed outer =>
    obtain ⟨_, _, parent, up, _⟩ := h
    exact Store.lt_size_of_parent? up

theorem Renders.grow (h : t.Renders f p) (some : 0 < t.size) (grows : Grows none t u) : u.Renders f p where
  covers := h.covers.grow grows
  exact place := (grows.fixed f (h.covers.lt_size some) nofun).trans (h.exact place)

variable (t) (f : FrameId)

def enter : Twin :=
  { t with left := { t.left with current := f }, right := { t.right with current := f } }

def child (allowed : String → String → Prop) : Twin where
  left := { t.left with store := (t.left.store.child f).2 }
  right := { t.right with store := (t.right.store.child f).2 }
  allows g := if g = t.size then allowed else t.allows g
  before := t.before

def add (x x' : String) (v v' : Value) : Twin :=
  { t with
    left := { t.left with store := t.left.store.add f x v }
    right := { t.right with store := t.right.store.add f x' v' } }

def replace (x x' : String) (v v' : Value) : Twin :=
  { t with
    left := { t.left with store := t.left.store.replace f x v }
    right := { t.right with store := t.right.store.replace f x' v' } }

variable {t} {f} {x x' : String} {v v' : Value}

theorem links_add (inside : f < t.size) (same : t.right.store.frames.size = t.size) (g : FrameId) :
    (t.add f x x' v v').links g = if g = f then (x, x') :: t.links g else t.links g := by
  have inside' : f < t.right.store.frames.size := same.symm ▸ inside
  unfold links add
  dsimp only
  rw [Store.names_add inside, Store.names_add inside']
  split <;> rfl

@[simp] theorem links_replace (g : FrameId) : (t.replace f x x' v v').links g = t.links g := by
  simp [links, replace]

@[simp] theorem links_child (allowed : String → String → Prop) (g : FrameId) :
    (t.child f allowed).links g = t.links g := by
  simp [links, child]

theorem Grows.ofStores (spot : Option FrameId) {t u : Twin} (left : u.left.store = t.left.store)
    (right : u.right.store = t.right.store) (allows : u.allows = t.allows) : Grows spot t u := by
  have links (f : FrameId) : u.links f = t.links f := by rw [Twin.links, left, right, Twin.links]
  refine ⟨?_, fun f _ => by rw [left], fun f => by rw [links f]; exact List.Subset.refl _, fun f _ _ => links f, ?_⟩
  · exact Nat.le_of_eq (by rw [Twin.size, Twin.size, left])
  · intro f _
    rw [allows]

theorem Grows.child (t : Twin) (f : FrameId) (allowed : String → String → Prop) : Grows none t (t.child f allowed) where
  size := by simp [Twin.size, Twin.child]
  parent g hg := Store.parent?_child_of_lt f hg
  kept g := by simp
  fixed g _ _ := by simp
  allows g hg := if_neg (Nat.ne_of_lt hg)

theorem Grows.replace (t : Twin) (f : FrameId) (x x' : String) (v v' : Value) :
    Grows none t (t.replace f x x' v v') where
  size := Nat.le_of_eq (Store.size_update ..).symm
  parent g _ := Store.parent?_update ..
  kept g := by simp
  fixed g _ _ := by simp
  allows g _ := rfl

theorem Grows.add (inside : f < t.size) (same : t.right.store.frames.size = t.size) :
    Grows (some f) t (t.add f x x' v v') where
  size := Nat.le_of_eq (Store.size_update ..).symm
  parent g _ := Store.parent?_update ..
  kept g := by
    rw [links_add inside same]
    split <;> simp
  fixed g _ away := by
    rw [links_add inside same, if_neg fun eq => away (congrArg some eq)]
  allows g _ := rfl

theorem links_of_size_le (h : t.size ≤ f) : t.links f = [] := by
  simp [links, Store.names_of_size_le h]

theorem Renders.child {name : String → String → Prop} (h : t.Covers f p) (some : 0 < t.size) (opens : p.Opens name q) :
    (t.child f q.allowed).Renders t.size q := by
  have parent : (t.child f q.allowed).left.store.parent? t.size = .some f :=
    Store.parent?_child_self (h.lt_size some)
  have empty : (t.child f q.allowed).links t.size = [] := by
    rw [links_child, links_of_size_le (Nat.le_refl _)]
  have new : (t.child f q.allowed).allows t.size = q.allowed := if_pos rfl
  have grown := h.grow (.child t f q.allowed)
  cases opens with
  | verbatim =>
    refine ⟨⟨?_, fun d g found => ?_⟩, nofun⟩
    · simp [size, Twin.child]
    · cases d with
      | zero => exact Option.some.inj found ▸ new
      | succ d =>
        rw [Store.ancestor?, parent] at found
        exact grown.2 d g found
  | scope bounded outer =>
    refine ⟨⟨by simp, new, f, parent, grown⟩, ?_⟩
    rintro _ _ _ ⟨⟩
    exact empty

end Twin
end Scriptlet
