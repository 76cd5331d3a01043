import Scriptlet.Store
import Scriptlet.Proofs.Tree.Site

namespace Scriptlet

theorem Bindings.lookup_replace (name x : String) (value : Value) (bindings : Bindings) :
    (bindings.replace name value).lookup x =
      (bindings.lookup x).map fun old => if x == name then value else old := by
  induction bindings with
  | nil => rfl
  | cons pair rest ih =>
    change List.lookup x ((pair.1, _) :: replace name value rest) = _
    rw [List.lookup_cons, List.lookup_cons]
    split
    · next same => simp [(beq_iff_eq.1 same)]
    · exact ih

namespace Store

variable {s t u : Store} {id parent f : FrameId} {x name : String} {value v : Value}

theorem eq_of_frames (h : s.frames = t.frames) : s = t := by
  cases s
  cases t
  cases h
  rfl

theorem lt_size_of_binds (h : s.binds f x = true) : f < s.frames.size := by
  unfold binds find? at h
  cases found : s.frames[f]? with
  | none => simp [found] at h
  | some frame => exact (Array.getElem?_eq_some_iff.1 found).1

theorem lt_size_of_parent? (h : s.parent? f = some parent) : f < s.frames.size := by
  obtain ⟨frame, found, _⟩ := Option.bind_eq_some_iff.1 h
  exact (Array.getElem?_eq_some_iff.1 found).1

section Update

variable (s : Store) (id f : FrameId) (change : Bindings → Bindings)

@[simp] theorem size_update : (s.update id change).frames.size = s.frames.size := by
  simp [update]

@[simp] theorem parent?_update : (s.update id change).parent? f = s.parent? f := by
  unfold parent? update
  rw [Array.getElem?_modify]
  split
  · cases s.frames[f]? <;> rfl
  · rfl

theorem find?_update_self (x : String) :
    (s.update id change).find? id x = s.frames[id]?.bind fun frame => (change frame.bindings).lookup x := by
  unfold find? update
  rw [Array.getElem?_modify, if_pos rfl]
  cases s.frames[id]? <;> rfl

theorem find?_update_of_ne {f : FrameId} (h : f ≠ id) (x : String) :
    (s.update id change).find? f x = s.find? f x := by
  unfold find? update
  rw [Array.getElem?_modify, if_neg h.symm]

end Update

theorem update_of_size_le {id : FrameId} (h : s.frames.size ≤ id) (change : Bindings → Bindings) :
    s.update id change = s := by
  refine eq_of_frames (Array.ext_getElem? fun f => ?_)
  rw [update, Array.getElem?_modify]
  split
  · next same => rw [← same, Array.getElem?_eq_none h, Option.map_none]
  · rfl

theorem find?_replace (s : Store) (id f : FrameId) (name x : String) (value : Value) :
    (s.replace id name value).find? f x =
      (s.find? f x).map fun old => if f = id ∧ x = name then value else old := by
  by_cases h : f = id
  · subst h
    rw [replace, find?_update_self, find?]
    cases s.frames[f]? with
    | none => rfl
    | some frame => simp [Bindings.lookup_replace]
  · rw [replace, find?_update_of_ne _ _ _ h]
    simp [h]

theorem find?_add (h : id < s.frames.size) (f : FrameId) (name x : String) (value : Value) :
    (s.add id name value).find? f x = if f = id ∧ x = name then some value else s.find? f x := by
  by_cases same : f = id
  · subst same
    rw [add, find?_update_self, find?, Array.getElem?_eq_getElem h]
    by_cases hx : x = name
    · simp [hx]
    · simp [hx, List.lookup_cons, beq_false_of_ne hx]
  · rw [add, find?_update_of_ne _ _ _ same]
    simp [same]

theorem find?_initial (f : FrameId) (x : String) : initial.find? f x = none := by
  cases f with
  | zero => rfl
  | succ => simp [find?, initial]

theorem frames_child (s : Store) (parent : FrameId) (h : f ≠ s.frames.size) :
    (s.child parent).2.frames[f]? = s.frames[f]? := by
  simp [child, Array.getElem?_push, h]

theorem find?_child (s : Store) (parent f : FrameId) (x : String) :
    (s.child parent).2.find? f x = s.find? f x := by
  by_cases h : f = s.frames.size
  · subst h
    simp [find?, child]
  · rw [find?, frames_child s parent h, find?]

theorem parent?_child_of_lt (parent : FrameId) (h : f < s.frames.size) :
    (s.child parent).2.parent? f = s.parent? f := by
  rw [parent?, frames_child s parent (Nat.ne_of_lt h), parent?]

theorem parent?_child_self (h : parent < s.frames.size) :
    (s.child parent).2.parent? s.frames.size = some parent := by
  simp [parent?, child, Option.guard, h]

theorem eq_of_parent?_child {g : FrameId} (h : (s.child parent).2.parent? s.frames.size = some g) : g = parent := by
  simp only [parent?, child, Array.getElem?_push_size, Option.bind_some] at h
  exact (Option.guard_eq_some_iff.1 h).1.symm

@[simp] theorem size_child (s : Store) (parent : FrameId) :
    (s.child parent).2.frames.size = s.frames.size + 1 := by
  simp [child]

/-- Frames are kept with their parents and their names; a name can be new only in the frame at `spot`. -/
structure Grows (spot : Option FrameId) (s t : Store) : Prop where
  size : s.frames.size ≤ t.frames.size
  parent : ∀ f, f < s.frames.size → t.parent? f = s.parent? f
  kept : ∀ f x, s.binds f x = true → t.binds f x = true
  fixed : ∀ f x, f < s.frames.size → some f ≠ spot → t.binds f x = s.binds f x

namespace Grows

variable {spot : Option FrameId}

theorem refl (spot : Option FrameId) (s : Store) : Grows spot s s :=
  ⟨Nat.le_refl _, fun _ _ => rfl, fun _ _ h => h, fun _ _ _ _ => rfl⟩

theorem trans (h : Grows spot s t) (k : Grows spot t u) : Grows spot s u where
  size := Nat.le_trans h.size k.size
  parent f hf := (k.parent f (Nat.lt_of_lt_of_le hf h.size)).trans (h.parent f hf)
  kept f x hx := k.kept f x (h.kept f x hx)
  fixed f x hf away := (k.fixed f x (Nat.lt_of_lt_of_le hf h.size) away).trans (h.fixed f x hf away)

theorem anywhere (h : Grows none s t) (spot : Option FrameId) : Grows spot s t :=
  ⟨h.size, h.parent, h.kept, fun f x hf _ => h.fixed f x hf nofun⟩

theorem outside (h : Grows (some f) s t) (new : s.frames.size ≤ f) : Grows none s t :=
  ⟨h.size, h.parent, h.kept, fun g x hg _ => h.fixed g x hg fun same =>
    Nat.not_le_of_lt hg (Option.some.inj same ▸ new)⟩

theorem replace (s : Store) (id : FrameId) (name : String) (value : Value) :
    Grows none s (s.replace id name value) := by
  have same (f : FrameId) (x : String) : (s.replace id name value).binds f x = s.binds f x := by
    simp [binds, find?_replace]
  refine ⟨?_, fun f _ => parent?_update .., fun f x h => (same f x).trans h, fun f x _ _ => same f x⟩
  exact Nat.le_of_eq (size_update ..).symm

theorem add (h : id < s.frames.size) (name : String) (value : Value) :
    Grows (some id) s (s.add id name value) where
  size := Nat.le_of_eq (size_update ..).symm
  parent f _ := parent?_update ..
  kept f x bound := by
    rw [binds, find?_add h]
    split
    · rfl
    · exact bound
  fixed f x _ away := by
    have elsewhere : f ≠ id := fun same => away (congrArg some same)
    rw [binds, find?_add h, if_neg (fun both => elsewhere both.1), binds]

theorem define (s : Store) (id : FrameId) (name : String) (value : Value) : Grows (some id) s (s.add id name value) := by
  by_cases present : id < s.frames.size
  · exact add present name value
  · rw [Store.add, update_of_size_le (Nat.le_of_not_lt present)]
    exact refl (some id) s

theorem child (s : Store) (parent : FrameId) : Grows none s (s.child parent).2 := by
  have same (f : FrameId) (x : String) : (s.child parent).2.binds f x = s.binds f x := by
    rw [binds, find?_child, binds]
  refine ⟨by simp, fun f hf => parent?_child_of_lt parent hf, fun f x h => (same f x).trans h, ?_⟩
  exact fun f x _ _ => same f x

theorem ancestor? (h : Grows spot s t) {distance : Nat} (found : s.ancestor? id distance = some f) :
    t.ancestor? id distance = some f := by
  induction distance generalizing id with
  | zero => exact found
  | succ distance ih =>
    obtain ⟨parent, up, found⟩ := Option.bind_eq_some_iff.1 found
    refine Option.bind_eq_some_iff.2 ⟨parent, ?_, ih found⟩
    rw [h.parent id (lt_size_of_parent? up), up]

end Grows

def BindsAt (s : Store) (id : FrameId) (distance : Nat) (name : String) : Prop :=
  ∃ f, s.ancestor? id distance = some f ∧ s.binds f name = true

theorem Grows.bindsAt {spot : Option FrameId} (h : Grows spot s t) {distance : Nat}
    (bound : s.BindsAt id distance x) : t.BindsAt id distance x := by
  obtain ⟨f, found, bound⟩ := bound
  exact ⟨f, h.ancestor? found, h.kept f x bound⟩

theorem BindsAt.getAt {distance : Nat} (h : s.BindsAt id distance x) :
    ∃ f v, s.getAt id distance x = .ok v ∧ s.find? f x = some v := by
  obtain ⟨f, found, bound⟩ := h
  obtain ⟨v, value⟩ := Option.isSome_iff_exists.1 bound
  exact ⟨f, v, by simp [Store.getAt, found, value], value⟩

theorem BindsAt.ownerAt {distance : Nat} (h : s.BindsAt id distance x) : ∃ f, s.ownerAt id distance x = .ok f := by
  obtain ⟨f, found, bound⟩ := h
  exact ⟨f, by simp [Store.ownerAt, found, bound]⟩

theorem ownerAt_zero (h : s.binds id x = false) : s.ownerAt id 0 x = .error (.unbound x 0) := by
  simp [ownerAt, ancestor?, h]

theorem find?_of_get {token : Token} (h : s.get id token = .ok v) : ∃ f, s.find? f token.lexeme = some v := by
  unfold get at h
  split at h
  · next found =>
    cases h
    obtain ⟨f, _, value⟩ := List.exists_of_findSome?_eq_some found
    exact ⟨f, value⟩
  · cases h

/-- The frames from one outwards bind at least the names that the scopes of a place have declared; outside of all scopes
there is the global frame. -/
def Covers (s : Store) : FrameId → Scopes → Prop
  | f, [] => f = global ∧ f < s.frames.size
  | f, names :: outer =>
    (∀ x ∈ names, s.binds f x = true) ∧ ∃ parent, s.parent? f = some parent ∧ s.Covers parent outer

namespace Covers

variable {scopes : Scopes}

theorem lt_size (h : s.Covers f scopes) : f < s.frames.size := by
  cases scopes with
  | nil => exact h.2
  | cons names outer =>
    obtain ⟨_, parent, up, _⟩ := h
    exact lt_size_of_parent? up

theorem grow {spot : Option FrameId} (h : s.Covers f scopes) (grows : Grows spot s t) : t.Covers f scopes := by
  induction scopes generalizing f with
  | nil => exact ⟨h.1, Nat.lt_of_lt_of_le h.2 grows.size⟩
  | cons names outer ih =>
    obtain ⟨bound, parent, up, rest⟩ := h
    refine ⟨fun x hx => grows.kept f x (bound x hx), parent, ?_, ih rest⟩
    rw [grows.parent f (lt_size_of_parent? up), up]

theorem bindsAt (h : s.Covers f scopes) {distance : Nat} (found : scopes.address? x = some distance) :
    s.BindsAt f distance x := by
  induction scopes generalizing f distance with
  | nil => cases found
  | cons names outer ih =>
    obtain ⟨bound, parent, up, rest⟩ := h
    rw [Scopes.address?_cons] at found
    split at found
    · next mem =>
      cases found
      exact ⟨f, rfl, bound x mem⟩
    · obtain ⟨d, further, rfl⟩ := Option.map_eq_some_iff.1 found
      obtain ⟨g, reached, binds⟩ := ih rest further
      exact ⟨g, by simp [Store.ancestor?, up, reached], binds⟩

end Covers

/-- The frames cover the scopes, and the innermost one binds no other names. -/
structure Renders (s : Store) (f : FrameId) (scopes : Scopes) : Prop where
  covers : s.Covers f scopes
  exact : scopes ≠ [] → ∀ x, s.binds f x = true → x ∈ scopes.innermost

namespace Renders

variable {scopes : Scopes}

theorem grow (h : s.Renders f scopes) (grows : Grows none s t) : t.Renders f scopes where
  covers := h.covers.grow grows
  exact inside x bound := by
    rw [grows.fixed f x h.covers.lt_size nofun] at bound
    exact h.exact inside x bound

theorem binds_eq_false (h : s.Renders f scopes) (inner : f ≠ global) (fresh : x ∉ scopes.innermost) :
    s.binds f x = false := by
  cases scopes with
  | nil => exact absurd h.covers.1 inner
  | cons names outer => exact Bool.eq_false_iff.2 fun bound => fresh (h.exact (List.cons_ne_nil _ _) x bound)

theorem child (h : s.Covers parent scopes) : (s.child parent).2.Renders (s.child parent).1 ([] :: scopes) := by
  refine ⟨⟨by simp, parent, parent?_child_self h.lt_size, h.grow (.child s parent)⟩, fun _ x bound => ?_⟩
  rw [binds, find?_child] at bound
  exact absurd (lt_size_of_binds bound) (Nat.lt_irrefl _)

theorem add (h : s.Renders f scopes) (name : String) (value : Value) :
    (s.add f name value).Renders f (scopes.extend name) := by
  have size := h.covers.lt_size
  have grows := Grows.add size name value
  cases scopes with
  | nil => exact ⟨h.covers.grow grows, fun inside => absurd rfl inside⟩
  | cons names outer =>
    obtain ⟨bound, parent, up, rest⟩ := h.covers
    refine ⟨⟨?_, parent, (parent?_update ..).trans up, rest.grow grows⟩, ?_⟩
    · intro x mem
      rcases List.mem_cons.1 mem with rfl | mem
      · simp [binds, find?_add size]
      · exact grows.kept f x (bound x mem)
    · intro _ x bound
      rw [binds, find?_add size] at bound
      by_cases same : x = name
      · exact same ▸ List.mem_cons_self
      · rw [if_neg fun both => same both.2] at bound
        exact List.mem_cons_of_mem _ (h.exact (by simp) x bound)

end Renders

end Store
end Scriptlet
