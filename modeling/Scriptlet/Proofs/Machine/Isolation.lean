import Scriptlet.Proofs.Machine.Order

namespace Scriptlet

namespace Store

variable {s : Store} {f g parent : FrameId} {p : FrameId → Option Bindings} {roots : FrameId → Prop}

/-- The frames that some frames lead to, by their parents and by the functions that they bind. -/
inductive Reaches (s : Store) (roots : FrameId → Prop) : FrameId → Prop
  | root {f : FrameId} (root : roots f) : Reaches s roots f
  | parent {f g : FrameId} (inner : Reaches s roots f) (up : s.parent? f = some g) : Reaches s roots g
  | captured {f g : FrameId} {x : String} {v : Value} (holder : Reaches s roots f) (found : s.find? f x = some v)
      (frame : v.frame? = some g) : Reaches s roots g

def Hidden (s : Store) (roots : FrameId → Prop) (f : FrameId) : Prop :=
  f < s.frames.size ∧ ¬s.Reaches roots f

def patch (p : FrameId → Option Bindings) (s : Store) : Store where
  frames := s.frames.mapIdx fun f frame => { frame with bindings := (p f).getD frame.bindings }
  older := by
    intro id frame parent found eq
    rw [Array.getElem?_mapIdx] at found
    obtain ⟨old, present, rfl⟩ := Option.map_eq_some_iff.1 found
    exact s.older present eq

section Patch

theorem getElem?_patch (p : FrameId → Option Bindings) (s : Store) (f : FrameId) :
    (s.patch p).frames[f]? = s.frames[f]?.map fun frame => { frame with bindings := (p f).getD frame.bindings } := by
  rw [patch, Array.getElem?_mapIdx]

@[simp] theorem size_patch (p : FrameId → Option Bindings) (s : Store) : (s.patch p).frames.size = s.frames.size := by
  simp [patch]

@[simp] theorem parent?_patch (p : FrameId → Option Bindings) (s : Store) (f : FrameId) :
    (s.patch p).parent? f = s.parent? f := by
  rw [parent?, getElem?_patch, parent?]
  cases s.frames[f]? <;> rfl

theorem find?_patch (as : p f = none) (s : Store) (x : String) : (s.patch p).find? f x = s.find? f x := by
  rw [find?, getElem?_patch, as, find?]
  cases s.frames[f]? <;> rfl

theorem bindings_patch {bindings : Bindings} (as : p f = some bindings) (inside : f < s.frames.size) :
    (s.patch p).bindings f = bindings := by
  rw [Store.bindings, getElem?_patch, as, Array.getElem?_eq_getElem inside]
  rfl

theorem patch_update (as : p f = none) (s : Store) (change : Bindings → Bindings) :
    (s.patch p).update f change = (s.update f change).patch p := by
  refine eq_of_frames (Array.ext_getElem? fun g => ?_)
  rw [getElem?_patch, update, Array.getElem?_modify, getElem?_patch, update, Array.getElem?_modify]
  split
  · next same =>
    subst same
    rw [as, Option.map_map, Option.map_map]
    rfl
  · rfl

theorem patch_child (as : p s.frames.size = none) (parent : FrameId) :
    (s.patch p).child parent = (s.frames.size, (s.child parent).2.patch p) := by
  refine Prod.ext (size_patch p s) (eq_of_frames (Array.ext_getElem? fun g => ?_))
  rw [getElem?_patch, child, child, Array.getElem?_push, Array.getElem?_push, size_patch, getElem?_patch]
  split
  · next same =>
    subst same
    rw [Option.map_some, as]
    rfl
  · rfl

theorem getElem?_of_lt (inside : f < s.frames.size) : s.frames[f]? = some ⟨s.parent? f, s.bindings f⟩ := by
  rw [parent?, Store.bindings, Array.getElem?_eq_getElem inside]
  rfl

def own (s : Store) (f g : FrameId) : Option Bindings :=
  if g = f then some (s.bindings f) else none

theorem own_self (s : Store) (f : FrameId) : s.own f f = some (s.bindings f) :=
  if_pos rfl

theorem eq_of_own (h : s.own f g ≠ none) : g = f := by
  by_contra other
  exact h (if_neg other)

theorem patch_own (s : Store) (f : FrameId) : s.patch (s.own f) = s := by
  refine eq_of_frames (Array.ext_getElem? fun g => ?_)
  rw [getElem?_patch, own]
  split
  · next same =>
    subst same
    by_cases inside : g < s.frames.size
    · rw [getElem?_of_lt inside]
      rfl
    · rw [Array.getElem?_eq_none (Nat.le_of_not_lt inside)]
      rfl
  · cases s.frames[g]? <;> rfl

theorem Grows.getElem?_of_patch {spot : Option FrameId} {t : Store} (grows : s.Grows spot t) (inside : f < s.frames.size)
    (same : t.patch (s.own f) = t) : t.frames[f]? = s.frames[f]? := by
  have later : f < t.frames.size := Nat.lt_of_lt_of_le inside grows.size
  have bound : t.bindings f = s.bindings f := by
    rw [← same, bindings_patch (own_self s f) later]
  rw [getElem?_of_lt later, getElem?_of_lt inside, grows.parent f inside, bound]

end Patch

end Store

namespace Region

open Machine

variable {s₀ : Store} {roots : FrameId → Prop} {p : FrameId → Option Bindings} {f : FrameId}

section Reached

variable (away : ∀ f, p f ≠ none → s₀.Hidden roots f)
include away

theorem unpatched (there : s₀.Reaches roots f ∨ s₀.frames.size ≤ f) : p f = none := by
  by_contra other
  obtain ⟨old, unreached⟩ := away f other
  rcases there with there | new
  · exact unreached there
  · exact Nat.not_le_of_lt old new

/-- The frames that are reached in a store, and all that come later; the view gives some of the others other bindings. -/
def reached : Region where
  inside s f := s₀.frames.size ≤ s.frames.size ∧ (s₀.Reaches roots f ∨ s₀.frames.size ≤ f)
  view := Store.patch p
  inside_update id change := by rw [Store.size_update]
  inside_child {s parent f} there := by
    rw [Store.size_child]
    constructor
    · exact fun inside => .inl ⟨there.1, inside.2⟩
    · rintro (inside | rfl)
      · exact ⟨Nat.le_succ_of_le there.1, inside.2⟩
      · exact ⟨Nat.le_succ_of_le there.1, .inr there.1⟩
  parent?_view := Store.parent?_patch p
  find?_view there := Store.find?_patch (unpatched away there.2) _
  update_view there := Store.patch_update (unpatched away there.2) _
  child_view {s parent} there := Store.patch_child (unpatched away (.inr there.1)) parent

theorem inside_reached (there : s₀.Reaches roots f) : (reached away).inside s₀ f :=
  ⟨Nat.le_refl _, .inl there⟩

theorem closed_reached (global : roots Store.global) : (reached away).Closed s₀ where
  global := inside_reached away (.root global)
  parent there up := by
    rcases there.2 with inner | beyond
    · exact inside_reached away (inner.parent up)
    · exact absurd (Store.lt_size_of_parent? up) (Nat.not_lt_of_le beyond)
  values {f x v} there found g frame := by
    rcases there.2 with holder | beyond
    · exact inside_reached away (holder.captured found frame)
    · have present := Store.lt_size_of_binds (Option.isSome_iff_exists.2 ⟨v, found⟩)
      exact absurd present (Nat.not_lt_of_le beyond)

end Reached

end Region

namespace Machine

variable {α : Type} {roots : FrameId → Prop} {run : Run α} {s : Setting} {n : Nat} {m m₁ m' m₁' : Machine}

def patch (p : FrameId → Option Bindings) (m : Machine) : Machine :=
  { m with store := m.store.patch p }

def onMachine (change : Machine → Machine) : EStateM.Result Stop Machine α → EStateM.Result Stop Machine α
  | .ok a m => .ok a (change m)
  | .error e m => .error e (change m)

theorem left_onMachine (change : Machine → Machine) (result : EStateM.Result Stop Machine α) :
    left (onMachine change result) = change (left result) := by
  cases result <;> rfl

/-- A run leaves the frames that some frames do not reach as they are, and what is bound there makes no difference to
it. -/
structure Ignores (roots : FrameId → Prop) (run : Run α) (m : Machine) : Prop where
  kept : ∀ {f}, m.store.Hidden roots f → (left (run m)).store.frames[f]? = m.store.frames[f]?
  unseen : ∀ p : FrameId → Option Bindings, (∀ f, p f ≠ none → m.store.Hidden roots f) →
    run (m.patch p) = onMachine (patch p) (run m)

theorem runs_onMachine {region : Region} {spot : Option FrameId} {P : α → Machine → Prop}
    (h : region.Runs spot m run P) : run (region.look m) = onMachine region.look (run m) := by
  unfold Region.Runs at h
  generalize run m = r, run (region.look m) = r' at h ⊢
  cases h <;> rfl

theorem Ignores.of_runs {spot : Option FrameId}
    (runs : ∀ {p : FrameId → Option Bindings} (away : ∀ f, p f ≠ none → m.store.Hidden roots f),
      ∃ P, (Region.reached away).Runs spot m run P) : Ignores roots run m := by
  have unseen (p : FrameId → Option Bindings) (away : ∀ f, p f ≠ none → m.store.Hidden roots f) :
      run (m.patch p) = onMachine (patch p) (run m) := by
    obtain ⟨P, runs⟩ := runs away
    exact runs_onMachine runs
  refine ⟨fun {f} hidden => ?_, unseen⟩
  -- With its own bindings given to it again the frame looks as it is, before the run and so behind it.
  have away (g : FrameId) (h : m.store.own f g ≠ none) : m.store.Hidden roots g := Store.eq_of_own h ▸ hidden
  have before : m.patch (m.store.own f) = m := by rw [patch, Store.patch_own]
  have after : (left (run m)).patch (m.store.own f) = left (run m) := by
    rw [← left_onMachine (patch _) (run m), ← unseen _ away, before]
  obtain ⟨P, runs⟩ := runs away
  exact runs.left.grows.getElem?_of_patch hidden.1 (congrArg Machine.store after)

def held (m : Machine) (f : FrameId) : Prop :=
  f = Store.global ∨ f = m.current

theorem ignores_executeAll (s : Setting) (n : Nat) (stmts : List Stmt) (m : Machine) :
    Ignores m.held (executeAll s n stmts) m := by
  refine .of_runs fun away => ⟨_, (Region.confined _ s n).executeAll ⟨?_, ?_⟩⟩
  · exact Region.closed_reached away (.inl rfl)
  · exact Region.inside_reached away (.root (.inr rfl))

end Machine

def Callable.held (callable : Callable) (values : List Value) (f : FrameId) : Prop :=
  f = Store.global ∨ callable.frame? = some f ∨ ∃ v ∈ values, v.frame? = some f

namespace Machine

theorem ignores_apply (s : Setting) (n : Nat) (callable : Callable) (values : List Value) (m : Machine) :
    Ignores (callable.held values) (apply s n callable values) m := by
  refine .of_runs fun away => ⟨_, (Region.confined _ s n).apply ?_ ?_ ?_⟩
  · exact Region.closed_reached away (.inl rfl)
  · exact fun f frame => Region.inside_reached away (.root (.inr (.inl frame)))
  · exact fun v mem f frame => Region.inside_reached away (.root (.inr (.inr ⟨v, mem, frame⟩)))

inductive Called : Callable → Machine → Machine → Prop
  | intro {s : Setting} {n : Nat} {name : Token} {parameters : List Token} {body : List Stmt} {outer : FrameId}
      {values : List Value} {m m₁ : Machine}
      (enters : Enters s n (.apply (.closure name parameters body outer) values) m (.executeAll body) m₁) :
      Called (.closure name parameters body outer) m m₁

theorem Called.fresh {function : Callable} (called : Called function m m₁) :
    m.frameCount ≤ m₁.current ∧ m₁.current < m₁.frameCount := by
  cases called with
  | intro enters => exact enters.fresh

/-- A run of statements comes only to frames that the machine reaches, and a call only to those that the function and its
arguments reach. Two calls of one function have new frames of their own, and whatever function is called later, such as
one that is declared in the one, it leaves the frame of the other as it is unless it reaches that frame. -/
theorem isolation (s : Setting) (n : Nat) :
    (∀ stmts m, Ignores m.held (executeAll s n stmts) m) ∧
    (∀ callable values m, Ignores (callable.held values) (apply s n callable values) m) ∧
    ∀ {function m m₁ m' m₁'}, Called function m m₁ → Later m₁ m' → Called function m' m₁' →
      m.frameCount ≤ m₁.current ∧ m'.frameCount ≤ m₁'.current ∧ m₁.current ≠ m₁'.current ∧
      ∀ {f inner values m''}, f = m₁.current ∨ f = m₁'.current → Later m₁' m'' →
        ¬m''.store.Reaches (inner.held values) f →
        (left (apply s n inner values m'')).store.frames[f]? = m''.store.frames[f]? := by
  refine ⟨ignores_executeAll s n, ignores_apply s n, ?_⟩
  intro function m m₁ m' m₁' first later second
  obtain ⟨new, there⟩ := first.fresh
  obtain ⟨new', there'⟩ := second.fresh
  have distinct : m₁.current < m₁'.current := Nat.lt_of_lt_of_le there (Nat.le_trans later.frameCount_le new')
  refine ⟨new, new', Nat.ne_of_lt distinct, ?_⟩
  intro f inner values m'' either after unreached
  have present : f < m''.frameCount := by
    refine Nat.lt_of_lt_of_le ?_ after.frameCount_le
    rcases either with rfl | rfl
    · exact Nat.lt_trans distinct there'
    · exact there'
  exact (ignores_apply s n inner values m'').kept ⟨present, unreached⟩

def keeper : Callable :=
  .closure (.ofName "f") [] [.declare (.ofName "c") none] Store.global

def changer : Callable :=
  .closure (.ofName "g") [] [.expression (.assign 0 (.ofName "c") (.constant (.boolean true)))] 1

def searching : Setting :=
  ⟨∅, .dynamic, fun _ => 0⟩

def calledOnce : Machine :=
  (Task.apply keeper []).left searching 6 initial

def calledTwice : Machine :=
  (Task.apply keeper []).left searching 6 calledOnce

theorem reaches_calledTwice {roots : FrameId → Prop} {f : FrameId} (old : ∀ f, roots f → f ≤ 1)
    (there : calledTwice.store.Reaches roots f) : f ≤ 1 := by
  induction there with
  | root root => exact old _ root
  | parent inner up ih => exact Nat.le_trans (Nat.le_of_lt (Store.parent?_lt up)) ih
  | @captured f g x v holder found frame ih =>
    rcases Nat.le_one_iff_eq_zero_or_eq_one.1 ih with rfl | rfl
    · cases found
    · change List.lookup x [("c", .nil)] = some v at found
      rw [List.lookup_cons] at found
      split at found <;> cases found
      cases frame

theorem isolation_calledTwice :
    (∃ m₁ m₁', Called keeper initial m₁ ∧ Later m₁ calledOnce ∧ Called keeper calledOnce m₁' ∧ Later m₁' calledTwice ∧
      m₁.current ≠ m₁'.current ∧ m₁'.current = 2) ∧
    ¬calledTwice.store.Reaches (changer.held []) 2 ∧
    (left (apply searching 6 changer [] calledTwice)).store.frames[2]? = calledTwice.store.frames[2]? ∧
    calledTwice.store.Hidden calledTwice.held 2 ∧
    ∀ stmts, (left (executeAll searching 6 stmts calledTwice)).store.frames[2]? = calledTwice.store.frames[2]? := by
  have first : Enters searching 5 (.apply keeper []) initial _ _ := .closure rfl rfl
  have second : Enters searching 5 (.apply keeper []) calledOnce _ _ := .closure rfl rfl
  have before := Later.ended .here (.step first (.here ..))
  have after := Later.ended .here (.step second (.here ..))
  have unreached : ¬calledTwice.store.Reaches (changer.held []) 2 := by
    intro there
    refine absurd (reaches_calledTwice ?_ there) (by decide)
    rintro f (rfl | frame | ⟨v, ⟨⟩, _⟩)
    · exact Nat.zero_le 1
    · cases frame
      exact Nat.le_refl 1
  have hidden : calledTwice.store.Hidden calledTwice.held 2 := by
    refine ⟨by decide, fun there => absurd (reaches_calledTwice ?_ there) (by decide)⟩
    rintro f (rfl | rfl) <;> exact Nat.zero_le 1
  obtain ⟨statements, calls, pairs⟩ := isolation searching 6
  obtain ⟨-, -, distinct, kept⟩ := pairs (.intro first) before (.intro second)
  refine ⟨⟨_, _, .intro first, before, .intro second, after, distinct, rfl⟩, unreached, ?_, hidden, ?_⟩
  · exact kept (.inr rfl) after unreached
  · exact fun stmts => (statements stmts calledTwice).kept hidden

end Machine
end Scriptlet
