import Scriptlet.Proofs.Machine.Search
import Scriptlet.Proofs.Store.Pairing

namespace Scriptlet

namespace Machine

def kept {ε : Type} (m : Machine) (stop : ε → Stop) : Except ε Store → EStateM.Result Stop Machine Unit
  | .ok t => .ok () { m with store := t }
  | .error e => .error (stop e) m

def answer {ε : Type} (m : Machine) (stop : ε → Stop) : Except ε Value → EStateM.Result Stop Machine Value
  | .ok v => .ok v m
  | .error e => .error (stop e) m

variable {S : Setting} {id : UseId} {name : Token} {v : Value} {m : Machine} {d : Nat}

theorem write_kept {ε : Type} (stop : ε → Stop) (search : FrameId → Store → Except ε FrameId)
    (change : Store → FrameId → Store) (m : Machine) :
    write stop search change m = m.kept stop (do return change m.store (← search m.current m.store)) := by
  unfold write
  cases search m.current m.store <;> rfl

theorem define_kept (name : Token) (v : Value) (m : Machine) :
    define name v m = m.kept .failed (m.store.define m.current name v) :=
  write_kept ..

theorem defineIn_kept (f : FrameId) (name : Token) (v : Value) (m : Machine) :
    defineIn f name v m = m.kept .failed (m.store.define f name v) :=
  write_kept ..

theorem assign_kept_search (searches : S.addressing = .dynamic) (id : UseId) (name : Token) (v : Value) (m : Machine) :
    assign S id name v m = m.kept .failed (m.store.assign m.current name v) := by
  unfold assign
  rw [searches]
  exact write_kept ..

theorem assign_kept_distance (follows : S.addressing = .lexical) (address : S.addresses[id]? = some d) (name : Token)
    (v : Value) (m : Machine) :
    assign S id name v m = m.kept .defective (m.store.assignAt m.current d name.lexeme v) := by
  unfold assign
  rw [follows, address]
  exact write_kept ..

theorem lookUp_answer_search (searches : S.addressing = .dynamic) (id : UseId) (name : Token) (m : Machine) :
    lookUp S id name m = m.answer .failed (m.store.get m.current name) := by
  unfold lookUp
  rw [searches]
  cases m.store.get m.current name <;> rfl

theorem lookUp_answer_distance (follows : S.addressing = .lexical) (address : S.addresses[id]? = some d) (name : Token)
    (m : Machine) : lookUp S id name m = m.answer .defective (m.store.getAt m.current d name.lexeme) := by
  unfold lookUp
  rw [follows, address]
  dsimp only
  cases m.store.getAt m.current d name.lexeme <;> rfl

theorem assign_kept_global (follows : S.addressing = .lexical) (address : S.addresses[id]? = none) (name : Token)
    (v : Value) (m : Machine) : assign S id name v m = m.kept .failed (m.store.assign Store.global name v) := by
  unfold assign
  rw [follows, address]
  exact write_kept ..

theorem lookUp_answer_global (follows : S.addressing = .lexical) (address : S.addresses[id]? = none) (name : Token)
    (m : Machine) : lookUp S id name m = m.answer .failed (m.store.get Store.global name) := by
  unfold lookUp
  rw [follows, address]
  dsimp only
  cases m.store.get Store.global name <;> rfl

end Machine

namespace Store

variable {s t : Store} {f g n : FrameId} {d : Nat} {x y : String} {v w : Value} {name : Token}

theorem written_iff {ε : Type} {search : Except ε FrameId} {change : FrameId → Store} :
    (do return change (← search)) = .ok t ↔ ∃ n, search = .ok n ∧ t = change n := by
  cases search with
  | ok n =>
    change Except.ok (change n) = .ok t ↔ _
    simp [eq_comm]
  | error e =>
    change Except.error e = .ok t ↔ _
    simp

theorem free_eq_ok : s.free f name = .ok g ↔ s.binds f name.lexeme = false ∧ g = f := by
  unfold free
  split
  · next bound => simp [bound]
  · next unbound => simp [unbound, eq_comm]

theorem owner_eq_ok : s.owner f name = .ok n ↔ s.nearest? f name.lexeme = some n := by
  unfold owner
  split
  · next other found => simp [found]
  · next missed => simp [missed]

theorem ownerAt_eq_ok : s.ownerAt f d x = .ok n ↔ s.ancestor? f d = some n ∧ s.binds n x = true := by
  unfold ownerAt
  split
  · next missed => simp [missed]
  · next g reached =>
    split
    · next bound => grind
    · next unbound => grind

theorem define_eq_ok : s.define f name v = .ok t ↔ s.binds f name.lexeme = false ∧ t = s.add f name.lexeme v := by
  rw [define, written_iff]
  simp [free_eq_ok, and_assoc]

theorem assign_eq_ok :
    s.assign f name v = .ok t ↔ ∃ n, s.nearest? f name.lexeme = some n ∧ t = s.replace n name.lexeme v := by
  rw [assign, written_iff]
  simp [owner_eq_ok]

theorem assignAt_eq_ok :
    s.assignAt f d x v = .ok t ↔ ∃ n, s.ancestor? f d = some n ∧ s.binds n x = true ∧ t = s.replace n x v := by
  rw [assignAt, written_iff]
  simp [ownerAt_eq_ok, and_assoc]

def value? (s : Store) (f : FrameId) (x : String) : Option Value :=
  (s.nearest? f x).bind (s.find? · x)

theorem get_eq (s : Store) (f : FrameId) (name : Token) :
    s.get f name = (s.value? f name.lexeme).elim (.error ⟨name, .undefined name.lexeme⟩) .ok := by
  rw [get, findSome?_eq_bind, value?, nearest?]
  split
  · next found => rw [found, Option.elim_some]
  · next missed => rw [missed, Option.elim_none]

theorem get_eq_ok : s.get f name = .ok v ↔ s.value? f name.lexeme = some v := by
  rw [get_eq]
  cases s.value? f name.lexeme <;> simp

theorem get_congr (same : t.value? g name.lexeme = s.value? g name.lexeme) : t.get g name = s.get g name := by
  rw [get_eq, same, get_eq]

theorem nearest?_eq_some_iff :
    s.nearest? f x = some n ↔
      ∃ nearer farther, s.chain f = nearer ++ n :: farther ∧ (∀ h ∈ nearer, s.binds h x = false) ∧ s.binds n x = true := by
  rw [nearest?, List.find?_eq_some_iff_append]
  constructor
  · rintro ⟨bound, nearer, farther, split, unbound⟩
    exact ⟨nearer, farther, split, fun h mem => by simpa using unbound h mem, bound⟩
  · rintro ⟨nearer, farther, split, unbound, bound⟩
    exact ⟨bound, nearer, farther, split, fun h mem => by simpa using unbound h mem⟩

theorem exists_nearest?_iff : (∃ n, s.nearest? f x = some n) ↔ ∃ g ∈ s.chain f, s.binds g x = true := by
  rw [← Option.isSome_iff_exists, nearest?, List.find?_isSome]

theorem binds_of_nearest? (found : s.nearest? f x = some n) : s.binds n x = true := by
  obtain ⟨_, _, _, _, bound⟩ := nearest?_eq_some_iff.1 found
  exact bound

theorem exists_ancestor?_of_mem_chain (mem : n ∈ s.chain f) : ∃ d, s.ancestor? f d = some n := by
  fun_induction Store.chain s f with
  | case1 f root => exact ⟨0, (congrArg some (List.mem_singleton.1 mem)).symm⟩
  | case2 f parent up ih =>
    rcases List.mem_cons.1 mem with rfl | mem
    · exact ⟨0, rfl⟩
    · obtain ⟨d, reached⟩ := ih mem
      exact ⟨d + 1, by rw [ancestor?, up, Option.bind_some, reached]⟩

theorem nodup_chain (s : Store) (f : FrameId) : (s.chain f).Nodup := by
  fun_induction Store.chain s f with
  | case1 f root => exact List.nodup_singleton f
  | case2 f parent up ih =>
    refine List.nodup_cons.2 ⟨fun mem => ?_, ih⟩
    obtain ⟨d, reached⟩ := exists_ancestor?_of_mem_chain mem
    exact Nat.not_lt_of_le (Twin.ancestor?_le reached) (parent?_lt up)

theorem chain_congr (same : ∀ f, t.parent? f = s.parent? f) (f : FrameId) : t.chain f = s.chain f := by
  fun_induction Store.chain s f with
  | case1 f root =>
    rw [chain]
    split
    · rfl
    · next up => cases ((same f).symm.trans up).symm.trans root
  | case2 f parent up ih => rw [chain_of_parent ((same f).trans up), ih]

@[simp] theorem chain_replace (s : Store) (n : FrameId) (x : String) (v : Value) (f : FrameId) :
    (s.replace n x v).chain f = s.chain f :=
  chain_congr (fun _ => parent?_update ..) f

@[simp] theorem chain_add (s : Store) (n : FrameId) (x : String) (v : Value) (f : FrameId) :
    (s.add n x v).chain f = s.chain f :=
  chain_congr (fun _ => parent?_update ..) f

@[simp] theorem binds_replace (s : Store) (n : FrameId) (x : String) (v : Value) (f : FrameId) (y : String) :
    (s.replace n x v).binds f y = s.binds f y := by
  simp [binds, find?_replace]

@[simp] theorem nearest?_replace (s : Store) (n : FrameId) (x : String) (v : Value) (f : FrameId) (y : String) :
    (s.replace n x v).nearest? f y = s.nearest? f y := by
  simp [nearest?]

theorem value?_replace (bound : s.binds n x = true) (v : Value) (g : FrameId) (y : String) :
    (s.replace n x v).value? g y = if y = x ∧ s.nearest? g x = some n then some v else s.value? g y := by
  unfold value?
  rw [nearest?_replace]
  by_cases here : y = x ∧ s.nearest? g x = some n
  · obtain ⟨rfl, found⟩ := here
    obtain ⟨old, there⟩ := Option.isSome_iff_exists.1 bound
    simp [found, find?_replace, there]
  · rw [if_neg here]
    cases found : s.nearest? g y with
    | none => rfl
    | some h =>
      have away : ¬(h = n ∧ y = x) := fun both => here ⟨both.2, both.2 ▸ both.1 ▸ found⟩
      simp [find?_replace, away]

/-- The chain of a frame comes to another one before any that binds a name. -/
def Sees (s : Store) (g f : FrameId) (x : String) : Prop :=
  ∃ nearer farther, s.chain g = nearer ++ f :: farther ∧ ∀ h ∈ nearer, s.binds h x = false

theorem Sees.self (s : Store) (f : FrameId) (x : String) : s.Sees f f x := by
  rw [Sees, chain]
  split
  · exact ⟨[], [], rfl, by simp⟩
  · exact ⟨[], _, rfl, by simp⟩

section Add

variable (there : f < s.frames.size) (v : Value)
include there

theorem binds_add_of_ne (away : ¬(g = f ∧ y = x)) : (s.add f x v).binds g y = s.binds g y := by
  rw [binds, find?_add there, if_neg away, binds]

theorem binds_of_binds_add (unbound : (s.add f x v).binds g y = false) : s.binds g y = false := by
  rw [binds, find?_add there] at unbound
  split at unbound
  · cases unbound
  · exact unbound

theorem value?_add_of_sees (sees : s.Sees g f x) : (s.add f x v).value? g x = some v := by
  obtain ⟨nearer, farther, split, unbound⟩ := sees
  have found : (s.add f x v).nearest? g x = some f := by
    refine nearest?_eq_some_iff.2 ⟨nearer, farther, (chain_add ..).trans split, fun h mem => ?_, ?_⟩
    · have apart : h ≠ f := by
        have nodup := s.nodup_chain g
        rw [split] at nodup
        exact (List.nodup_append.1 nodup).2.2 h mem f List.mem_cons_self
      rw [binds_add_of_ne there v fun both => apart both.1, unbound h mem]
    · simp [binds, find?_add there]
  simp [value?, found, find?_add there]

theorem value?_add_of_not_sees (away : ¬(y = x ∧ s.Sees g f x)) : (s.add f x v).value? g y = s.value? g y := by
  unfold value?
  cases found : (s.add f x v).nearest? g y with
  | none =>
    have missed : s.nearest? g y = none := by
      refine List.find?_eq_none.2 fun h mem bound => ?_
      have unbound := List.find?_eq_none.1 found h (by simpa using mem)
      exact Bool.false_ne_true ((binds_of_binds_add there v (by simpa using unbound)).symm.trans bound)
    rw [missed]
    rfl
  | some n =>
    obtain ⟨nearer, farther, split, unbound, bound⟩ := nearest?_eq_some_iff.1 found
    rw [chain_add] at split
    have before : ∀ h ∈ nearer, s.binds h y = false := fun h mem => binds_of_binds_add there v (unbound h mem)
    have other : ¬(n = f ∧ y = x) := by
      rintro ⟨rfl, rfl⟩
      exact away ⟨rfl, nearer, farther, split, before⟩
    rw [binds_add_of_ne there v other] at bound
    have same : s.nearest? g y = some n := nearest?_eq_some_iff.2 ⟨nearer, farther, split, before, bound⟩
    simp [same, find?_add there, other]

end Add

/-- The stores that come of opening frames and of writing to them. What fails leads to no other store. -/
inductive Built : Store → Prop
  | initial : Built initial
  | root {s : Store} (before : Built s) : Built (s.child s.frames.size).2
  | child {s : Store} (before : Built s) {parent : FrameId} (there : parent < s.frames.size) : Built (s.child parent).2
  | define {s t : Store} (before : Built s) {f : FrameId} (there : f < s.frames.size) {name : Token} {v : Value}
      (done : s.define f name v = .ok t) : Built t
  | assign {s t : Store} (before : Built s) {f : FrameId} {name : Token} {v : Value} (done : s.assign f name v = .ok t) :
      Built t
  | assignAt {s t : Store} (before : Built s) {f : FrameId} {d : Nat} {x : String} {v : Value}
      (done : s.assignAt f d x v = .ok t) : Built t

theorem Built.add (built : Built s) (f : FrameId) (name : Token) (v : Value) (there : f < s.frames.size)
    (unbound : s.binds f name.lexeme = false) : Built (s.add f name.lexeme v) :=
  .define built there (define_eq_ok.2 ⟨unbound, rfl⟩)

theorem Built.nodup (built : Built s) (f : FrameId) : (s.names f).Nodup := by
  induction built with
  | initial =>
    have none : Store.initial.names f = [] := by cases f <;> rfl
    simp [none]
  | root _ ih => simpa using ih
  | child _ _ ih => simpa using ih
  | @define s t _ g there name v done ih =>
    obtain ⟨unbound, rfl⟩ := define_eq_ok.1 done
    rw [names_add there]
    split
    · next same =>
      have fresh : name.lexeme ∉ s.names g := fun mem => Bool.false_ne_true (unbound.symm.trans (binds_iff.2 mem))
      exact List.nodup_cons.2 ⟨same ▸ fresh, ih⟩
    · exact ih
  | assign _ done ih =>
    obtain ⟨n, _, rfl⟩ := assign_eq_ok.1 done
    simpa using ih
  | assignAt _ done ih =>
    obtain ⟨n, _, _, rfl⟩ := assignAt_eq_ok.1 done
    simpa using ih

structure Rebinds (s t : Store) (n : FrameId) (x : String) (v : Value) : Prop where
  changed : ∃ before old after, s.bindings n = before ++ (x, old) :: after ∧ t.bindings n = before ++ (x, v) :: after
  others : ∀ g, g ≠ n → t.bindings g = s.bindings g
  size : t.frames.size = s.frames.size
  parent : ∀ g, t.parent? g = s.parent? g

theorem replace_rebinds (nodup : (s.names n).Nodup) (bound : s.binds n x = true) (v : Value) :
    s.Rebinds (s.replace n x v) n x v where
  changed := by
    obtain ⟨old, there⟩ := Option.isSome_iff_exists.1 bound
    rw [find?_eq_lookup] at there
    obtain ⟨before, after, split, _⟩ := List.lookup_eq_some_iff.1 there
    refine ⟨before, old, after, split, ?_⟩
    rw [names, split, Bindings.names, List.map_append, List.map_cons, List.nodup_append, List.nodup_cons] at nodup
    obtain ⟨_, ⟨late, _⟩, apart⟩ := nodup
    have early : x ∉ Bindings.names before := fun mem => apart x mem x List.mem_cons_self rfl
    rw [bindings_replace, if_pos rfl, split, Bindings.replace, List.map_append]
    change Bindings.replace x v before ++ Bindings.replace x v ((x, old) :: after) = _
    rw [Bindings.replace_of_notMem early, Bindings.replace_cons, Bindings.replace_of_notMem late]
    simp
  others g away := by rw [bindings_replace, if_neg away]
  size := size_update ..
  parent _ := parent?_update ..

structure Laws (s : Store) (f : FrameId) (name : Token) (v : Value) : Prop where
  /-- Reads and assignments succeed under the same condition. -/
  get_iff : (∃ w, s.get f name = .ok w) ↔ ∃ g ∈ s.chain f, s.binds g name.lexeme = true
  assign_iff : (∃ t, s.assign f name v = .ok t) ↔ ∃ g ∈ s.chain f, s.binds g name.lexeme = true
  define_iff : (∃ t, s.define f name v = .ok t) ↔ s.binds f name.lexeme = false
  /-- An assignment changes one binding, which is seen in the frames whose search ends at it. -/
  assigned : ∀ {t}, s.assign f name v = .ok t → ∃ n, s.nearest? f name.lexeme = some n ∧
    s.Rebinds t n name.lexeme v ∧ ∀ g other, t.get g other =
      if other.lexeme = name.lexeme ∧ s.nearest? g name.lexeme = some n then .ok v else s.get g other
  /-- The nearest frame is at a distance, and at this distance the same is read and written. -/
  distant : ∀ {n}, s.nearest? f name.lexeme = some n → (∃ d, s.ancestor? f d = some n) ∧
    ∀ d, s.ancestor? f d = some n → (∃ w, s.get f name = .ok w ∧ s.getAt f d name.lexeme = .ok w) ∧
      ∃ t, s.assign f name v = .ok t ∧ s.assignAt f d name.lexeme v = .ok t
  /-- A definition is seen in the frames whose search comes to it. -/
  defined : ∀ {t}, s.define f name v = .ok t → ∀ g other,
    (other.lexeme = name.lexeme → s.Sees g f name.lexeme → t.get g other = .ok v) ∧
      (¬(other.lexeme = name.lexeme ∧ s.Sees g f name.lexeme) → t.get g other = s.get g other)
  /-- A machine in the frame goes on with the new store, or it stops as it was, whether the program has failed or an address
  was wrong. -/
  runs : ∀ m : Machine, m.store = s → m.current = f → ∀ (S : Machine.Setting) (id : UseId),
    Machine.define name v m = m.kept .failed (s.define f name v) ∧
    (S.addressing = .dynamic → Machine.assign S id name v m = m.kept .failed (s.assign f name v) ∧
      Machine.lookUp S id name m = m.answer .failed (s.get f name)) ∧
    ∀ d, S.addressing = .lexical → S.addresses[id]? = some d →
      Machine.assign S id name v m = m.kept .defective (s.assignAt f d name.lexeme v) ∧
      Machine.lookUp S id name m = m.answer .defective (s.getAt f d name.lexeme)
  /-- So does a machine anywhere that binds a parameter in the frame, or that goes to the global frame. -/
  runs_from : ∀ m : Machine, m.store = s → Machine.defineIn f name v m = m.kept .failed (s.define f name v) ∧
    (f = Store.global → ∀ (S : Machine.Setting) (id : UseId), S.addressing = .lexical → S.addresses[id]? = none →
      Machine.assign S id name v m = m.kept .failed (s.assign f name v) ∧
      Machine.lookUp S id name m = m.answer .failed (s.get f name))

theorem exists_get_iff : (∃ w, s.get f name = .ok w) ↔ ∃ n, s.nearest? f name.lexeme = some n := by
  simp only [get_eq_ok, value?, Option.bind_eq_some_iff]
  constructor
  · rintro ⟨w, n, found, _⟩
    exact ⟨n, found⟩
  · rintro ⟨n, found⟩
    obtain ⟨w, there⟩ := Option.isSome_iff_exists.1 (binds_of_nearest? found)
    exact ⟨w, n, found, there⟩

theorem exists_assign_iff : (∃ t, s.assign f name v = .ok t) ↔ ∃ n, s.nearest? f name.lexeme = some n := by
  simp [assign_eq_ok]

theorem getAt_of_nearest? (found : s.nearest? f name.lexeme = some n) (reached : s.ancestor? f d = some n) :
    ∃ w, s.get f name = .ok w ∧ s.getAt f d name.lexeme = .ok w := by
  obtain ⟨w, there⟩ := Option.isSome_iff_exists.1 (binds_of_nearest? found)
  refine ⟨w, get_eq_ok.2 ?_, ?_⟩
  · rw [value?, found, Option.bind_some, there]
  · simp only [getAt, reached, there]

theorem frame_laws (built : s.Built) (there : f < s.frames.size) (name : Token) (v : Value) : s.Laws f name v where
  get_iff := exists_get_iff.trans exists_nearest?_iff
  assign_iff := exists_assign_iff.trans exists_nearest?_iff
  define_iff := by simp [define_eq_ok]
  assigned := by
    intro t done
    obtain ⟨n, found, rfl⟩ := assign_eq_ok.1 done
    have bound := binds_of_nearest? found
    refine ⟨n, found, replace_rebinds (built.nodup n) bound v, fun g other => ?_⟩
    have value := value?_replace bound v g other.lexeme
    split
    · next seen => exact get_eq_ok.2 (value.trans (if_pos seen))
    · next away => exact get_congr (value.trans (if_neg away))
  distant := by
    intro n found
    obtain ⟨nearer, farther, split, _⟩ := nearest?_eq_some_iff.1 found
    refine ⟨exists_ancestor?_of_mem_chain (by simp [split]), fun d reached => ⟨getAt_of_nearest? found reached, ?_⟩⟩
    exact ⟨s.replace n name.lexeme v, assign_eq_ok.2 ⟨n, found, rfl⟩,
      assignAt_eq_ok.2 ⟨n, reached, binds_of_nearest? found, rfl⟩⟩
  defined := by
    intro t done g other
    obtain ⟨_, rfl⟩ := define_eq_ok.1 done
    constructor
    · intro same sees
      rw [get_eq_ok, same]
      exact value?_add_of_sees there v sees
    · intro away
      exact get_congr (value?_add_of_not_sees there v away)
  runs := by
    rintro m rfl rfl S id
    refine ⟨Machine.define_kept name v m, fun searches => ?_, fun d follows address => ?_⟩
    · exact ⟨Machine.assign_kept_search searches id name v m, Machine.lookUp_answer_search searches id name m⟩
    · exact ⟨Machine.assign_kept_distance follows address name v m, Machine.lookUp_answer_distance follows address name m⟩
  runs_from := by
    rintro m rfl
    refine ⟨Machine.defineIn_kept f name v m, ?_⟩
    rintro rfl S id follows address
    exact ⟨Machine.assign_kept_global follows address name v m, Machine.lookUp_answer_global follows address name m⟩

def shared : Store :=
  let globals := initial.add global "a" .nil
  let inner := (globals.child global).2
  let both := (inner.child global).2
  ((both.add 1 "a" (.boolean true)).child 1).2

theorem frame_laws_shared :
    shared.Built ∧ 3 < shared.frames.size ∧
    (∃ t, shared.assign 3 (.ofName "a") (.boolean false) = .ok t ∧ t.get 1 (.ofName "a") = .ok (.boolean false) ∧
      t.get 2 (.ofName "a") = shared.get 2 (.ofName "a")) ∧
    (∃ w, shared.get 3 (.ofName "a") = .ok w ∧ shared.getAt 3 1 "a" = .ok w) ∧
    ∃ t, shared.define 3 (.ofName "a") (.boolean false) = .ok t ∧ t.get 3 (.ofName "a") = .ok (.boolean false) ∧
      t.get 1 (.ofName "a") = shared.get 1 (.ofName "a") := by
  have built : shared.Built := by
    have globals := Built.initial.add global (.ofName "a") .nil (by decide) (by decide)
    have both : Built (((initial.add global "a" .nil).child global).2.child global).2 :=
      (globals.child (by decide)).child (by decide)
    exact (both.add 1 (.ofName "a") (.boolean true) (by decide) (by decide)).child (by decide)
  have there : 3 < shared.frames.size := by decide
  have nearest : shared.nearest? 3 "a" = some 1 := by decide +kernel
  have laws := frame_laws built there (.ofName "a") (.boolean false)
  obtain ⟨t, done⟩ := laws.assign_iff.2 (exists_nearest?_iff.1 ⟨1, nearest⟩)
  obtain ⟨u, new⟩ := laws.define_iff.2 (by decide)
  refine ⟨built, there, ⟨t, done, ?_⟩, ((laws.distant nearest).2 1 (by decide)).1, u, new, ?_⟩
  · obtain ⟨n, found, _, seen⟩ := laws.assigned done
    cases found.symm.trans nearest
    exact ⟨(seen 1 _).trans (if_pos (by decide +kernel)), (seen 2 _).trans (if_neg (by decide +kernel))⟩
  · refine ⟨(laws.defined new 3 _).1 rfl (.self ..), (laws.defined new 1 _).2 ?_⟩
    rintro ⟨_, nearer, farther, split, _⟩
    have chain : shared.chain 1 = [1, 0] := by decide +kernel
    have mem : 3 ∈ shared.chain 1 := by simp [split]
    simp [chain] at mem

end Store
end Scriptlet
