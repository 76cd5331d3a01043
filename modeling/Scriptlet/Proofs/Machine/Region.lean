import Mathlib.Data.List.Find
import Scriptlet.Machine.Eval
import Scriptlet.Proofs.Machine.Target
import Scriptlet.Proofs.Store.Pairing

/-!
Runs that keep to a region. A region says which frames of a store a run may come to, and gives a view of the store that
shows these frames as they are; the others may look different in it. From a machine inside of a closed region a run comes
to no frame outside, so it ends on the view as it ends on the store itself. However it ends, the frames that were there
keep their parents and names, and the machine is back in its frame and as deep in calls as before.
-/

namespace Scriptlet

def Callable.frame? : Callable → Option FrameId
  | .closure _ _ _ frame => some frame
  | .builtin _ => none

def Value.frame? : Value → Option FrameId
  | .function _ callable => callable.frame?
  | .nil | .boolean _ | .number _ | .text _ => none

structure Region where
  inside : Store → FrameId → Prop
  view : Store → Store
  inside_update : ∀ {s f} (id : FrameId) (change : Bindings → Bindings), inside (s.update id change) f ↔ inside s f
  inside_child : ∀ {s parent f}, inside s parent → (inside (s.child parent).2 f ↔ inside s f ∨ f = s.frames.size)
  parent?_view : ∀ s f, (view s).parent? f = s.parent? f
  find?_view : ∀ {s f}, inside s f → ∀ x, (view s).find? f x = s.find? f x
  update_view : ∀ {s f}, inside s f → ∀ change : Bindings → Bindings, (view s).update f change = view (s.update f change)
  child_view : ∀ {s parent}, inside s parent → (view s).child parent = (s.frames.size, view (s.child parent).2)

namespace Region

open Machine

variable (region : Region)

def Admits (s : Store) (v : Value) : Prop :=
  ∀ f, v.frame? = some f → region.inside s f

structure Closed (s : Store) : Prop where
  global : region.inside s Store.global
  parent : ∀ {f g}, region.inside s f → s.parent? f = some g → region.inside s g
  values : ∀ {f x v}, region.inside s f → s.find? f x = some v → region.Admits s v

structure Contains (m : Machine) : Prop where
  closed : region.Closed m.store
  current : region.inside m.store m.current

structure Moves (spot : Option FrameId) (m m' : Machine) : Prop where
  closed : region.Closed m'.store
  stays : ∀ {f}, region.inside m.store f → region.inside m'.store f
  grows : m.store.Grows spot m'.store
  current : m'.current = m.current
  depth : m'.depth = m.depth

def look (m : Machine) : Machine :=
  { m with store := region.view m.store }

/-- How a run ends on a machine and on its view. -/
inductive Ends (spot : Option FrameId) (m : Machine) {α : Type} (P : α → Machine → Prop) :
    EStateM.Result Stop Machine α → EStateM.Result Stop Machine α → Prop
  | ok {a : α} {m' : Machine} (moves : region.Moves spot m m') (post : P a m') :
      Ends spot m P (.ok a m') (.ok a (region.look m'))
  | error {e : Stop} {m' : Machine} (moves : region.Moves spot m m') :
      Ends spot m P (.error e m') (.error e (region.look m'))

def Runs (spot : Option FrameId) (m : Machine) {α : Type} (x : Run α) (P : α → Machine → Prop) : Prop :=
  region.Ends spot m P (x m) (x (region.look m))

variable {region} {s : Store} {m m' m'' : Machine} {spot : Option FrameId} {f g id : FrameId} {v w : Value} {x : String}

section Store

theorem admits_update {change : Bindings → Bindings} : region.Admits (s.update id change) v ↔ region.Admits s v := by
  simp only [Admits, inside_update]

theorem Admits.child (h : region.Admits s v) {parent : FrameId} (there : region.inside s parent) :
    region.Admits (s.child parent).2 v :=
  fun f frame => (region.inside_child there).2 (.inl (h f frame))

theorem Moves.admits (h : region.Moves spot m m') (admits : region.Admits m.store v) : region.Admits m'.store v :=
  fun f frame => h.stays (admits f frame)

theorem admits_of_frame?_eq_none (h : v.frame? = none) : region.Admits s v := by
  intro f frame
  cases h.symm.trans frame

namespace Closed

theorem replace (h : region.Closed s) (admits : region.Admits s v) (id : FrameId) (name : String) :
    region.Closed (s.replace id name v) where
  global := (region.inside_update ..).2 h.global
  parent there up := by
    rw [Store.replace, Store.parent?_update] at up
    exact (region.inside_update ..).2 (h.parent ((region.inside_update ..).1 there) up)
  values there found := by
    rw [Store.find?_replace] at found
    obtain ⟨old, before, rfl⟩ := Option.map_eq_some_iff.1 found
    refine admits_update.2 ?_
    split
    · exact admits
    · exact h.values ((region.inside_update ..).1 there) before

theorem add (h : region.Closed s) (admits : region.Admits s v) (id : FrameId) (name : String) :
    region.Closed (s.add id name v) where
  global := (region.inside_update ..).2 h.global
  parent there up := by
    rw [Store.add, Store.parent?_update] at up
    exact (region.inside_update ..).2 (h.parent ((region.inside_update ..).1 there) up)
  values {f x w} there found := by
    refine admits_update.2 ?_
    have there := (region.inside_update ..).1 there
    by_cases present : id < s.frames.size
    · rw [Store.find?_add present] at found
      split at found
      · cases found
        exact admits
      · exact h.values there found
    · rw [Store.add, Store.update_of_size_le (Nat.le_of_not_lt present)] at found
      exact h.values there found

theorem child {parent : FrameId} (h : region.Closed s) (there : region.inside s parent) :
    region.Closed (s.child parent).2 where
  global := (region.inside_child there).2 (.inl h.global)
  parent {f g} inner up := by
    refine (region.inside_child there).2 (.inl ?_)
    by_cases new : f = s.frames.size
    · subst new
      exact Store.eq_of_parent?_child up ▸ there
    · have old := ((region.inside_child there).1 inner).resolve_right new
      rw [Store.parent?, Store.frames_child s parent new] at up
      exact h.parent old up
  values {f x w} inner found := by
    rw [Store.find?_child] at found
    refine Admits.child ?_ there
    rcases (region.inside_child there).1 inner with old | rfl
    · exact h.values old found
    · exact absurd (Store.lt_size_of_binds (Option.isSome_iff_exists.2 ⟨w, found⟩)) (Nat.lt_irrefl _)

end Closed

section Search

variable (closed : region.Closed s) (there : region.inside s f)
include closed there

theorem Closed.ancestor? {d : Nat} (found : s.ancestor? f d = some g) : region.inside s g := by
  induction d generalizing f with
  | zero => exact Option.some.inj found ▸ there
  | succ d ih =>
    obtain ⟨parent, up, found⟩ := Option.bind_eq_some_iff.1 found
    exact ih (closed.parent there up) found

theorem Closed.chain : ∀ g ∈ s.chain f, region.inside s g := by
  fun_induction Store.chain s f with
  | case1 f none => simpa using there
  | case2 f parent up ih => exact List.forall_mem_cons.2 ⟨there, ih (closed.parent there up)⟩

omit closed in
theorem binds_view (x : String) : (region.view s).binds f x = s.binds f x := by
  rw [Store.binds, region.find?_view there, Store.binds]

omit closed there in
theorem ancestor?_view (d : Nat) : (region.view s).ancestor? f d = s.ancestor? f d := by
  induction d generalizing f with
  | zero => rfl
  | succ d ih => simp only [Store.ancestor?, region.parent?_view, ih]

omit closed there in
theorem chain_view : (region.view s).chain f = s.chain f := by
  fun_induction Store.chain s f with
  | case1 f none =>
    rw [Store.chain]
    split
    · rfl
    · next up => cases ((region.parent?_view s f).symm.trans up).symm.trans none
  | case2 f parent up ih =>
    rw [Store.chain]
    split
    · next none => cases ((region.parent?_view s f).symm.trans none).symm.trans up
    · next other =>
      cases ((region.parent?_view s f).symm.trans other).symm.trans up
      rw [ih]

theorem nearest?_view (x : String) : (region.view s).nearest? f x = s.nearest? f x := by
  rw [Store.nearest?, chain_view, Store.nearest?]
  exact List.find?_congr fun g mem => binds_view (closed.chain there g mem) x

theorem owner_view (name : Token) : (region.view s).owner f name = s.owner f name := by
  rw [Store.owner, nearest?_view closed there, Store.owner]

theorem ownerAt_view (d : Nat) (x : String) : (region.view s).ownerAt f d x = s.ownerAt f d x := by
  rw [Store.ownerAt, ancestor?_view, Store.ownerAt]
  split
  · rfl
  · next found => rw [binds_view (closed.ancestor? there found)]

theorem inside_of_owner {name : Token} (found : s.owner f name = .ok g) : region.inside s g := by
  unfold Store.owner at found
  split at found
  · next nearest =>
    cases found
    exact closed.chain there _ (List.mem_of_find?_eq_some nearest)
  · cases found

theorem inside_of_ownerAt {d : Nat} (found : s.ownerAt f d x = .ok g) : region.inside s g := by
  unfold Store.ownerAt at found
  split at found
  · cases found
  · next reached =>
    split at found
    · cases found
      exact closed.ancestor? there reached
    · cases found

end Search

end Store

section Target

variable {setting : Setting} {use : UseId} {name : Token} (contains : region.Contains m)
include contains

theorem target_look : target setting use name (region.look m) = target setting use name m := by
  unfold target look
  dsimp only
  rw [owner_view contains.closed contains.current, owner_view contains.closed contains.closed.global]
  simp only [ownerAt_view contains.closed contains.current]

theorem inside_of_target (found : target setting use name m = .ok f) : region.inside m.store f := by
  unfold target at found
  split at found
  · exact inside_of_owner contains.closed contains.current (mapError_eq_ok.1 found)
  · exact inside_of_owner contains.closed contains.closed.global (mapError_eq_ok.1 found)
  · exact inside_of_ownerAt contains.closed contains.current (mapError_eq_ok.1 found)

end Target

namespace Moves

theorem refl (spot : Option FrameId) (closed : region.Closed m.store) : region.Moves spot m m :=
  ⟨closed, fun there => there, .refl spot _, rfl, rfl⟩

theorem trans (h : region.Moves spot m m') (k : region.Moves spot m' m'') : region.Moves spot m m'' :=
  ⟨k.closed, fun there => k.stays (h.stays there), h.grows.trans k.grows, k.current.trans h.current, k.depth.trans h.depth⟩

theorem anywhere (h : region.Moves none m m') (spot : Option FrameId) : region.Moves spot m m' :=
  ⟨h.closed, h.stays, h.grows.anywhere spot, h.current, h.depth⟩

theorem outside (h : region.Moves (some f) m m') (new : m.store.frames.size ≤ f) : region.Moves none m m' :=
  ⟨h.closed, h.stays, h.grows.outside new, h.current, h.depth⟩

theorem contains (h : region.Moves spot m m') (before : region.Contains m) : region.Contains m' :=
  ⟨h.closed, h.current ▸ h.stays before.current⟩

end Moves

namespace Runs

variable {α β : Type} {run : Run α} {P Q : α → Machine → Prop}

theorem pure {a : α} (closed : region.Closed m.store) (post : P a m) : region.Runs spot m (pure a) P :=
  .ok (.refl spot closed) post

theorem stop {e : Stop} (closed : region.Closed m.store) : region.Runs spot m (throw e : Run α) P :=
  .error (.refl spot closed)

theorem fail (closed : region.Closed m.store) (token : Token) (fault : Fault) :
    region.Runs spot m (Machine.fail token fault : Run α) P :=
  stop closed

theorem orFail {result : Except (Located Fault) α} (closed : region.Closed m.store)
    (post : ∀ a, result = .ok a → P a m) : region.Runs spot m (Machine.orFail result) P := by
  cases result with
  | ok a => exact pure closed (post a rfl)
  | error e => exact stop closed

theorem moving {spot' : Option FrameId} (h : region.Runs spot m run P)
    (k : ∀ m', region.Moves spot m m' → region.Moves spot' m m') : region.Runs spot' m run P := by
  unfold Runs at *
  generalize run m = r, run (region.look m) = r' at h ⊢
  cases h with
  | ok moves post => exact .ok (k _ moves) post
  | error moves => exact .error (k _ moves)

theorem anywhere (h : region.Runs none m run P) : region.Runs spot m run P :=
  h.moving fun _ moves => moves.anywhere spot

theorem outside (h : region.Runs (some f) m run P) (new : m.store.frames.size ≤ f) : region.Runs none m run P :=
  h.moving fun _ moves => moves.outside new

theorem bind {k : α → Run β} {Q : β → Machine → Prop} (h : region.Runs spot m run P)
    (next : ∀ a m', run m = .ok a m' → region.Moves spot m m' → P a m' → region.Runs spot m' (k a) Q) :
    region.Runs spot m (run >>= k) Q := by
  unfold Runs at h ⊢
  change region.Ends spot m Q (EStateM.bind run k m) (EStateM.bind run k (region.look m))
  unfold EStateM.bind
  generalize eq : run m = r, run (region.look m) = r' at h ⊢
  cases h with
  | @ok a m' moves post =>
    have later := next a m' eq moves post
    unfold Runs at later
    dsimp only
    generalize k a m' = r, k a (region.look m') = r' at later ⊢
    cases later with
    | ok moves' post => exact .ok (moves.trans moves') post
    | error moves' => exact .error (moves.trans moves')
  | error moves => exact .error moves

theorem get {k : Machine → Run β} {Q : β → Machine → Prop} (same : k (region.look m) = k m)
    (next : region.Runs spot m (k m) Q) : region.Runs spot m (MonadState.get >>= k) Q := by
  unfold Runs at *
  change region.Ends spot m Q (k m m) (k (region.look m) (region.look m))
  rwa [same]

theorem emit (closed : region.Closed m.store) (v : Value) : region.Runs spot m (emit v) fun _ _ => True :=
  .ok ⟨closed, fun there => there, .refl spot _, rfl, rfl⟩ trivial

theorem emitAll (closed : region.Closed m.store) (values : List Value) :
    region.Runs spot m (values.forM Machine.emit) fun _ _ => True := by
  induction values generalizing m with
  | nil => exact pure closed trivial
  | cons v values ih => exact (emit closed v).bind fun _ m' _ moves _ => ih moves.closed

theorem readClock (closed : region.Closed m.store) (setting : Setting) :
    region.Runs spot m (readClock setting) fun v m' => region.Admits m'.store v :=
  .ok ⟨closed, fun there => there, .refl spot _, rfl, rfl⟩
    (admits_of_frame?_eq_none rfl)

theorem newFunction (closed : region.Closed m.store) (callable : Callable) :
    region.Runs spot m (newFunction callable) fun v _ => v.frame? = callable.frame? :=
  .ok ⟨closed, fun there => there, .refl spot _, rfl, rfl⟩ rfl

theorem newFrame (closed : region.Closed m.store) (there : region.inside m.store f) :
    region.Runs spot m (newFrame f) fun frame m' =>
      frame = m.store.frames.size ∧ region.inside m'.store frame := by
  unfold Runs Machine.newFrame modifyGet
  change region.Ends spot m _ (.ok (m.store.child f).1 { m with store := (m.store.child f).2 })
    (.ok ((region.view m.store).child f).1 { m with store := ((region.view m.store).child f).2 })
  rw [region.child_view there]
  refine .ok ⟨closed.child there, fun old => ?_, (Store.Grows.child m.store f).anywhere spot, rfl, rfl⟩ ⟨rfl, ?_⟩
  · exact (region.inside_child there).2 (.inl old)
  · exact (region.inside_child there).2 (.inr rfl)

theorem inFrame (h : region.Runs spot { m with current := f } run P)
    (k : ∀ a m', P a m' → Q a { m' with current := m.current }) : region.Runs spot m (inFrame f run) Q := by
  have back {m' : Machine} (moves : region.Moves spot { m with current := f } m') :
      region.Moves spot m { m' with current := m.current } :=
    ⟨moves.closed, moves.stays, moves.grows, rfl, moves.depth⟩
  unfold Runs Machine.inFrame at *
  change region.Ends spot _ P (run { m with current := f }) (run { region.look m with current := f }) at h
  generalize run { m with current := f } = r, run { region.look m with current := f } = r' at h ⊢
  cases h with
  | ok moves post => exact .ok (back moves) (k _ _ post)
  | error moves => exact .error (back moves)

theorem inCall (h : region.Runs spot { m with depth := m.depth + 1 } run P)
    (k : ∀ a m', P a m' → Q a { m' with depth := m'.depth - 1 }) : region.Runs spot m (inCall run) Q := by
  have back {m' : Machine} (moves : region.Moves spot { m with depth := m.depth + 1 } m') :
      region.Moves spot m { m' with depth := m'.depth - 1 } := by
    refine ⟨moves.closed, moves.stays, moves.grows, moves.current, ?_⟩
    rw [moves.depth, Nat.add_sub_cancel]
  unfold Runs Machine.inCall at *
  change region.Ends spot _ P (run { m with depth := m.depth + 1 })
    (run { region.look m with depth := (region.look m).depth + 1 }) at h
  generalize run { m with depth := m.depth + 1 } = r at h ⊢
  generalize run { region.look m with depth := (region.look m).depth + 1 } = r' at h ⊢
  cases h with
  | ok moves post => exact .ok (back moves) (k _ _ post)
  | error moves => exact .error (back moves)

theorem defineIn (closed : region.Closed m.store) (there : region.inside m.store f) (name : Token)
    (admits : region.Admits m.store v) : region.Runs (some f) m (defineIn f name v) fun _ _ => True := by
  have free : (region.view m.store).free f name = m.store.free f name := by
    rw [Store.free, binds_view there, Store.free]
  unfold Runs Machine.defineIn Machine.write look
  dsimp only
  rw [free]
  cases eq : m.store.free f name with
  | error e => exact .error (.refl (some f) closed)
  | ok owner =>
    have same : owner = f := by
      unfold Store.free at eq
      split at eq <;> cases eq
      rfl
    subst same
    have added : (region.view m.store).add owner name.lexeme v = region.view (m.store.add owner name.lexeme v) :=
      region.update_view there _
    dsimp only
    rw [added]
    refine .ok ⟨closed.add admits owner _, ?_, ?_, rfl, rfl⟩
      trivial
    · exact fun old => (region.inside_update ..).2 old
    · exact .define m.store owner name.lexeme v

theorem define (contains : region.Contains m) (name : Token) (admits : region.Admits m.store v) :
    region.Runs (some m.current) m (define name v) fun _ _ => True :=
  defineIn contains.closed contains.current name admits

theorem bindParameters {parameters : List Token} {values : List Value} (closed : region.Closed m.store)
    (there : region.inside m.store f) (admits : ∀ v ∈ values, region.Admits m.store v) :
    region.Runs (some f) m (bindParameters f parameters values) fun _ _ => True := by
  induction parameters generalizing m values with
  | nil => exact pure closed trivial
  | cons name parameters ih =>
    cases values with
    | nil => exact pure closed trivial
    | cons v values =>
      refine (defineIn closed there name (admits v List.mem_cons_self)).bind fun _ m' _ moves _ => ?_
      exact ih moves.closed (moves.stays there) fun w mem => moves.admits (admits w (List.mem_cons_of_mem v mem))

theorem lookUp (contains : region.Contains m) (setting : Setting) (use : UseId) (name : Token) :
    region.Runs none m (lookUp setting use name) fun v m' => region.Admits m'.store v := by
  unfold Runs
  have same : target setting use name (region.look m) = target setting use name m := target_look contains
  cases target : Machine.target setting use name m with
  | error e =>
    rw [lookUp_of_target_error target, lookUp_of_target_error (same.trans target)]
    exact .error (.refl none contains.closed)
  | ok f =>
    have there := inside_of_target contains target
    obtain ⟨v, found⟩ := find?_of_target target
    have found' := (region.find?_view there name.lexeme).trans found
    rw [lookUp_of_target target found, lookUp_of_target (same.trans target) found']
    exact .ok (.refl none contains.closed) (contains.closed.values there found)

theorem assign (contains : region.Contains m) (setting : Setting) (use : UseId) (name : Token)
    (admits : region.Admits m.store v) : region.Runs none m (assign setting use name v) fun _ _ => True := by
  unfold Runs
  rw [assign_eq, assign_eq, target_look contains]
  cases target : Machine.target setting use name m with
  | error e => exact .error (.refl none contains.closed)
  | ok f =>
    have there := inside_of_target contains target
    have replaced : (region.view m.store).replace f name.lexeme v = region.view (m.store.replace f name.lexeme v) :=
      region.update_view there _
    unfold look
    dsimp only
    rw [replaced]
    refine .ok
      ⟨contains.closed.replace admits f _, fun old => (region.inside_update ..).2 old, ?_, rfl, rfl⟩ trivial
    exact .replace m.store f name.lexeme v

end Runs

end Region
end Scriptlet
