import Mathlib.Data.List.Forall2
import Mathlib.Data.List.Nodup
import Scriptlet.Proofs.Store.Growth

namespace Scriptlet

namespace Bindings

def names (bindings : Bindings) : List String :=
  bindings.map Prod.fst

@[simp] theorem names_cons (x : String) (v : Value) (bindings : Bindings) :
    names ((x, v) :: bindings) = x :: bindings.names := rfl

theorem lookup_eq_none {bindings : Bindings} {x : String} : bindings.lookup x = none ↔ x ∉ bindings.names := by
  induction bindings with
  | nil => simp [names]
  | cons pair rest ih =>
    by_cases same : x = pair.1 <;> simp_all [names]

@[simp] theorem names_replace (bindings : Bindings) (x : String) (v : Value) :
    (bindings.replace x v).names = bindings.names := by
  simp [names, replace, Function.comp_def]

theorem replace_cons (x y : String) (v w : Value) (bindings : Bindings) :
    replace x v ((y, w) :: bindings) = (y, if y == x then v else w) :: bindings.replace x v := rfl

theorem replace_of_notMem {bindings : Bindings} {x : String} (h : x ∉ bindings.names) (v : Value) :
    bindings.replace x v = bindings := by
  induction bindings with
  | nil => rfl
  | cons pair rest ih =>
    obtain ⟨away, later⟩ : x ≠ pair.1 ∧ x ∉ names rest := by simpa [names] using h
    rw [replace_cons, ih later, if_neg (by simpa using away.symm)]

section Paired

variable {names : String → String → Prop} {values : Value → Value → Prop} {bindings bindings' : Bindings}
  {x x' : String} {v v' : Value}

abbrev Paired (names : String → String → Prop) (values : Value → Value → Prop) : Bindings → Bindings → Prop :=
  List.Forall₂ fun b b' => names b.1 b'.1 ∧ values b.2 b'.2

theorem Paired.imp {values' : Value → Value → Prop} (h : Paired names values bindings bindings')
    (k : ∀ v v', values v v' → values' v v') : Paired names values' bindings bindings' :=
  List.Forall₂.imp (fun _ _ both => ⟨both.1, k _ _ both.2⟩) h

theorem Paired.imp_of_mem {values' : Value → Value → Prop} (h : Paired names values bindings bindings')
    (k : ∀ b ∈ bindings, ∀ v', values b.2 v' → values' b.2 v') : Paired names values' bindings bindings' := by
  induction h with
  | nil => exact .nil
  | cons both _ ih =>
    obtain ⟨here, later⟩ := List.forall_mem_cons.1 k
    exact .cons ⟨both.1, here _ both.2⟩ (ih later)

theorem Paired.length_eq (h : Paired names values bindings bindings') : bindings'.names.length = bindings.names.length := by
  simpa [Bindings.names] using (List.Forall₂.length_eq h).symm

theorem Paired.lookup (h : Paired names values bindings bindings') (nodup : bindings.names.Nodup)
    (nodup' : bindings'.names.Nodup) (link : (x, x') ∈ bindings.names.zip bindings'.names) :
    ∃ v v', bindings.lookup x = some v ∧ bindings'.lookup x' = some v' ∧ values v v' := by
  induction h with
  | nil => cases link
  | @cons b b' rest rest' both later ih =>
    obtain ⟨y, w⟩ := b
    obtain ⟨y', w'⟩ := b'
    rw [names_cons, List.nodup_cons] at nodup nodup'
    rw [names_cons, names_cons, List.zip_cons_cons, List.mem_cons] at link
    rcases link with same | link
    · cases same
      exact ⟨w, w', by simp, by simp, both.2⟩
    · have ends := List.of_mem_zip link
      have other : x ≠ y := fun same => nodup.1 (same ▸ ends.1)
      have other' : x' ≠ y' := fun same => nodup'.1 (same ▸ ends.2)
      simpa [List.lookup_cons, beq_false_of_ne other, beq_false_of_ne other'] using ih nodup.2 nodup'.2 link

theorem Paired.replace (h : Paired names values bindings bindings') (nodup : bindings.names.Nodup)
    (nodup' : bindings'.names.Nodup) (link : (x, x') ∈ bindings.names.zip bindings'.names) (new : values v v') :
    Paired names values (bindings.replace x v) (bindings'.replace x' v') := by
  induction h with
  | nil => cases link
  | @cons b b' rest rest' both later ih =>
    obtain ⟨y, w⟩ := b
    obtain ⟨y', w'⟩ := b'
    rw [names_cons, List.nodup_cons] at nodup nodup'
    rw [names_cons, names_cons, List.zip_cons_cons, List.mem_cons] at link
    rw [replace_cons, replace_cons]
    rcases link with same | link
    · cases same
      rw [replace_of_notMem nodup.1, replace_of_notMem nodup'.1]
      exact .cons (by simpa using ⟨both.1, new⟩) later
    · have ends := List.of_mem_zip link
      have other : y ≠ x := fun same => nodup.1 (same ▸ ends.1)
      have other' : y' ≠ x' := fun same => nodup'.1 (same ▸ ends.2)
      refine .cons ?_ (ih nodup.2 nodup'.2 link)
      simpa [other, other'] using both

theorem Paired.names_eq (h : Paired Eq values bindings bindings') : bindings'.names = bindings.names := by
  induction h with
  | nil => rfl
  | cons both _ ih => simpa [Bindings.names, both.1] using ih

theorem Paired.lookup_self (h : Paired Eq values bindings bindings') (found : bindings.lookup x = some v) :
    ∃ v', bindings'.lookup x = some v' ∧ values v v' := by
  induction h with
  | nil => cases found
  | @cons b b' rest rest' both _ ih =>
    rw [List.lookup_cons] at found ⊢
    rw [← both.1]
    split at found
    · cases found
      exact ⟨b'.2, rfl, both.2⟩
    · exact ih found

theorem Paired.replace_self (h : Paired Eq values bindings bindings') (x : String) (new : values v v') :
    Paired Eq values (bindings.replace x v) (bindings'.replace x v') := by
  refine List.forall₂_map_left_iff.2 (List.forall₂_map_right_iff.2 (List.Forall₂.imp (fun b b' both => ?_) h))
  refine ⟨both.1, ?_⟩
  dsimp only
  rw [← both.1]
  split
  · exact new
  · exact both.2

theorem Paired.names_of_mem_zip (h : Paired names values bindings bindings')
    (link : (x, x') ∈ bindings.names.zip bindings'.names) : names x x' := by
  induction h with
  | nil => cases link
  | cons both _ ih =>
    rcases List.mem_cons.1 link with same | link
    · cases same
      exact both.1
    · exact ih link

theorem Paired.exists_value {b : String × Value} (h : Paired names values bindings bindings') (mem : b ∈ bindings) :
    ∃ v', values b.2 v' := by
  induction h with
  | nil => cases mem
  | cons both _ ih =>
    rcases List.mem_cons.1 mem with rfl | mem
    · exact ⟨_, both.2⟩
    · exact ih mem

theorem Paired.exists_link (h : Paired names values bindings bindings') (mem : x' ∈ bindings'.names) :
    ∃ x, (x, x') ∈ bindings.names.zip bindings'.names := by
  induction h with
  | nil => cases mem
  | @cons b b' rest rest' both _ ih =>
    rcases List.mem_cons.1 mem with same | mem
    · exact ⟨b.1, by simp [Bindings.names, same]⟩
    · obtain ⟨x, link⟩ := ih mem
      exact ⟨x, List.mem_cons_of_mem _ link⟩

end Paired

end Bindings

namespace Store

variable {s : Store} {id f : FrameId} {x : String}

def bindings (s : Store) (f : FrameId) : Bindings :=
  (s.frames[f]?.map Frame.bindings).getD []

def names (s : Store) (f : FrameId) : List String :=
  (s.bindings f).names

theorem find?_eq_lookup (s : Store) (f : FrameId) (x : String) : s.find? f x = (s.bindings f).lookup x := by
  unfold find? bindings
  cases s.frames[f]? <;> rfl

theorem ext_bindings {s t : Store} (size : t.frames.size = s.frames.size)
    (parent : ∀ f, t.parent? f = s.parent? f) (bindings : ∀ f, t.bindings f = s.bindings f) : t = s := by
  refine eq_of_frames (Array.ext size fun f inside inside' => ?_)
  have up : t.frames[f].parent = s.frames[f].parent := by
    simpa [parent?, inside, inside'] using parent f
  have here : t.frames[f].bindings = s.frames[f].bindings := by
    simpa [Store.bindings, inside, inside'] using bindings f
  calc t.frames[f] = ⟨t.frames[f].parent, t.frames[f].bindings⟩ := rfl
    _ = ⟨s.frames[f].parent, s.frames[f].bindings⟩ := by rw [up, here]

theorem binds_iff : s.binds f x = true ↔ x ∈ s.names f := by
  rw [binds, Option.isSome_iff_ne_none, find?_eq_lookup, ne_eq, Bindings.lookup_eq_none, not_not, names]

theorem bindings_add (h : id < s.frames.size) (f : FrameId) (x : String) (v : Value) :
    (s.add id x v).bindings f = if f = id then (x, v) :: s.bindings f else s.bindings f := by
  unfold bindings add update
  rw [Array.getElem?_modify]
  by_cases same : f = id
  · subst same
    simp [h]
  · simp [same, Ne.symm same]

theorem bindings_replace (s : Store) (id f : FrameId) (x : String) (v : Value) :
    (s.replace id x v).bindings f = if f = id then (s.bindings f).replace x v else s.bindings f := by
  unfold bindings replace update
  rw [Array.getElem?_modify]
  by_cases same : f = id
  · subst same
    cases s.frames[f]? <;> simp [Bindings.replace]
  · simp [same, Ne.symm same]

@[simp] theorem bindings_child (s : Store) (parent f : FrameId) : (s.child parent).2.bindings f = s.bindings f := by
  unfold bindings
  by_cases h : f = s.frames.size
  · subst h
    simp [child]
  · rw [frames_child s parent h]

@[simp] theorem names_child (s : Store) (parent f : FrameId) : (s.child parent).2.names f = s.names f := by
  rw [names, bindings_child, names]

theorem names_add (h : id < s.frames.size) (f : FrameId) (x : String) (v : Value) :
    (s.add id x v).names f = if f = id then x :: s.names f else s.names f := by
  rw [names, bindings_add h]
  split <;> rfl

@[simp] theorem names_replace (s : Store) (id f : FrameId) (x : String) (v : Value) :
    (s.replace id x v).names f = s.names f := by
  rw [names, bindings_replace]
  split
  · exact Bindings.names_replace ..
  · rfl

theorem bindings_of_size_le (h : s.frames.size ≤ f) : s.bindings f = [] := by
  simp [bindings, Array.getElem?_eq_none h]

theorem names_of_size_le (h : s.frames.size ≤ f) : s.names f = [] := by
  simp [names, bindings_of_size_le h, Bindings.names]

end Store
end Scriptlet
