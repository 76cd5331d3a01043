import Scriptlet.Proofs.Machine.Likeness
import Scriptlet.Proofs.Machine.Target
import Scriptlet.Machine.Eval

namespace Scriptlet

namespace Likeness

open Machine

inductive Targets (like : Likeness) (t : Twin) (x x' : String) : Except Stop FrameId → Except Stop FrameId → Prop
  | found {f : FrameId} (link : (x, x') ∈ t.links f) : Targets like t x x' (.ok f) (.ok f)
  | missed {e e' : Stop} (same : like.Stops e e') : Targets like t x x' (.error e) (.error e')

structure Sound (like : Likeness) (s s' : Setting) : Prop where
  clock : s'.clock = s.clock
  kind : ∀ {a a' : Token}, like.token a a' → a'.kind = a.kind
  lexeme : ∀ {a a' : Token}, like.token a a' → a'.lexeme = a.lexeme
  refl : ∀ x, like.name x x
  target : ∀ {t p u u'}, like.Valid t → t.Renders t.left.current p → like.use p u u' →
    like.Targets t u.name.lexeme u'.name.lexeme (target s u.id u.name t.left) (target s' u'.id u'.name t.right)

/-- Two runs from like machines end alike; but if the second has budget to spare, the first may have run out of its
own. -/
inductive Ends (like : Likeness) (spare : Nat) (spot : Option FrameId) (t : Twin) {α : Type} (P : α → α → Twin → Prop) :
    EStateM.Result Stop Machine α → EStateM.Result Stop Machine α → Prop
  | ok {a a' : α} {u : Twin} (steps : like.Steps spot t u) (post : P a a' u) :
      Ends like spare spot t P (.ok a u.left) (.ok a' u.right)
  | error {e e' : Stop} {u : Twin} (steps : like.Steps spot t u) (same : like.Stops e e') :
      Ends like spare spot t P (.error e u.left) (.error e' u.right)
  | spent (more : spare ≠ 0) (m : Machine) (result : EStateM.Result Stop Machine α) :
      Ends like spare spot t P (.error .exhausted m) result

def Tracks (like : Likeness) (spare : Nat) (spot : Option FrameId) (t : Twin) {α : Type} (x x' : Run α)
    (P : α → α → Twin → Prop) : Prop :=
  Ends like spare spot t P (x t.left) (x' t.right)

section Rules

variable {like : Likeness} {spare : Nat} {t u : Twin} {spot : Option FrameId} {f : FrameId} {p q : Place}
  {v v' : Value} {a a' : Token} {α β : Type} {x x' : Run α} {P Q : α → α → Twin → Prop}

namespace Valid

theorem child {allowed : String → String → Prop} (valid : like.Valid t)
    (bounded : ∀ x x', allowed x x' → like.name x x') (f : FrameId) : like.Valid (t.child f allowed) := by
  have grows := Twin.Grows.child t f allowed
  have some : 0 < t.size := Nat.zero_lt_of_lt valid.inside
  have size : (t.child f allowed).right.store.frames.size = (t.child f allowed).size := by
    simpa [Twin.child, Twin.size] using valid.size
  refine { valid with
    inside := Nat.lt_of_lt_of_le valid.inside grows.size
    size
    parent := fun g => ?_
    bindings := fun g => ?_
    nodup := fun g => (Store.names_child ..).symm ▸ valid.nodup g
    nodup' := fun g => (Store.names_child ..).symm ▸ valid.nodup' g
    global := (if_neg (Nat.ne_of_lt some)).trans valid.global
    named := fun g x x' may => ?_
    printed := valid.printed.grow grows rfl }
  · have same := valid.size
    unfold Twin.size at same
    have parent := valid.parent g
    simp only [Twin.child, Store.parent?, Store.child, Array.getElem?_push, same] at parent ⊢
    split
    · rfl
    · exact parent
  · have paired := (valid.bindings g).imp fun _ _ same => same.grow grows
    by_cases new : g = t.size
    · have empty : t.left.store.bindings g = [] := by
        simp [Store.bindings, new, Twin.size]
      have empty' : t.right.store.bindings g = [] := by
        simp [Store.bindings, new, valid.size]
      simp [Twin.child, empty, empty']
    · have old : (t.child f allowed).allows g = t.allows g := if_neg new
      rw [old]
      simpa [Twin.child] using paired
  · simp only [Twin.child] at may
    split at may
    · exact bounded x x' may
    · exact valid.named g x x' may

theorem replace {y y' : String} (valid : like.Valid t) (link : (y, y') ∈ t.links f) (same : like.Values t v v') :
    like.Valid (t.replace f y y' v v') := by
  have grows := Twin.Grows.replace t f y y' v v'
  refine { valid with
    inside := Nat.lt_of_lt_of_le valid.inside grows.size
    size := by simpa [Twin.replace, Twin.size, Store.replace] using valid.size
    parent := fun g => by simpa [Twin.replace, Store.replace] using valid.parent g
    bindings := fun g => ?_
    nodup := fun g => (Store.names_replace ..).symm ▸ valid.nodup g
    nodup' := fun g => (Store.names_replace ..).symm ▸ valid.nodup' g
    printed := valid.printed.grow grows rfl }
  have paired := (valid.bindings g).imp fun _ _ same => same.grow grows
  simp only [Twin.replace, Store.bindings_replace]
  split
  · next here =>
    subst here
    exact paired.replace (valid.nodup _) (valid.nodup' _) link (same.grow grows)
  · exact paired

theorem add {y y' : String} (valid : like.Valid t) (inside : f < t.size) (may : t.allows f y y')
    (fresh : y ∉ t.left.store.names f) (fresh' : y' ∉ t.right.store.names f)
    (same : like.Values (t.add f y y' v v') v v') : like.Valid (t.add f y y' v v') := by
  have inside' : f < t.right.store.frames.size := valid.size.symm ▸ inside
  have grows : Twin.Grows (some f) t (t.add f y y' v v') := .add inside valid.size
  refine { valid with
    inside := Nat.lt_of_lt_of_le valid.inside grows.size
    size := by simpa [Twin.add, Twin.size, Store.add] using valid.size
    parent := fun g => by simpa [Twin.add, Store.add] using valid.parent g
    bindings := fun g => ?_
    nodup := fun g => ?_
    nodup' := fun g => ?_
    printed := valid.printed.grow grows rfl }
  · have paired := (valid.bindings g).imp fun _ _ same => same.grow grows
    simp only [Twin.add, Store.bindings_add inside, Store.bindings_add inside']
    split
    · next here =>
      subst here
      exact .cons ⟨may, same⟩ paired
    · exact paired
  · simp only [Twin.add, Store.names_add inside]
    split
    · next here =>
      subst here
      exact List.nodup_cons.2 ⟨fresh, valid.nodup _⟩
    · exact valid.nodup g
  · simp only [Twin.add, Store.names_add inside']
    split
    · next here =>
      subst here
      exact List.nodup_cons.2 ⟨fresh', valid.nodup' _⟩
    · exact valid.nodup' g

end Valid

namespace Tracks

theorem pure {b b' : α} (valid : like.Valid t) (post : P b b' t) :
    Tracks like spare spot t (pure b) (Pure.pure b') P :=
  .ok (.refl spot valid) post

theorem stop {e e' : Stop} (valid : like.Valid t) (same : like.Stops e e') :
    Tracks like spare spot t (throw e : Run α) (throw e') P :=
  .error (.refl spot valid) same

theorem fail {cause cause' : Fault} (valid : like.Valid t) (place : like.token a a')
    (same : like.Faults cause cause') : Tracks like spare spot t (fail a cause : Run α) (Machine.fail a' cause') P :=
  stop valid (.failed place same)

theorem imp (h : Tracks like spare spot t x x' P)
    (k : ∀ b b' u, like.Steps spot t u → P b b' u → Q b b' u) : Tracks like spare spot t x x' Q := by
  unfold Tracks at *
  generalize x t.left = r, x' t.right = r' at h ⊢
  cases h with
  | ok steps post => exact .ok steps (k _ _ _ steps post)
  | error steps same => exact .error steps same
  | spent more m => exact .spent more m _

theorem moving {spot' : Option FrameId} (h : Tracks like spare spot t x x' P)
    (k : ∀ u, like.Steps spot t u → like.Steps spot' t u) : Tracks like spare spot' t x x' P := by
  unfold Tracks at *
  generalize x t.left = r, x' t.right = r' at h ⊢
  cases h with
  | ok steps post => exact .ok (k _ steps) post
  | error steps same => exact .error (k _ steps) same
  | spent more m => exact .spent more m _

theorem anywhere (h : Tracks like spare none t x x' P) : Tracks like spare spot t x x' P :=
  h.moving fun _ steps => steps.anywhere spot

theorem outside (h : Tracks like spare (some f) t x x' P) (new : t.size ≤ f) : Tracks like spare none t x x' P :=
  h.moving fun _ steps => steps.outside new

theorem bind {k k' : α → Run β} {Q : β → β → Twin → Prop} (h : Tracks like spare spot t x x' P)
    (next : ∀ b b' u, like.Steps spot t u → P b b' u → Tracks like spare spot u (k b) (k' b') Q) :
    Tracks like spare spot t (x >>= k) (x' >>= k') Q := by
  unfold Tracks at *
  change Ends like spare spot t Q (EStateM.bind x k t.left) (EStateM.bind x' k' t.right)
  unfold EStateM.bind
  generalize x t.left = r at h ⊢
  generalize x' t.right = r' at h ⊢
  cases h with
  | @ok b b' u steps post =>
    have later := next b b' u steps post
    dsimp only
    generalize k b u.left = r at later ⊢
    generalize k' b' u.right = r' at later ⊢
    cases later with
    | ok steps' post => exact .ok (steps.trans steps') post
    | error steps' same => exact .error (steps.trans steps') same
    | spent more m => exact .spent more m _
  | error steps same => exact .error steps same
  | spent more m => exact .spent more m _

theorem get {k k' : Machine → Run β} {Q : β → β → Twin → Prop}
    (next : Tracks like spare spot t (k t.left) (k' t.right) Q) :
    Tracks like spare spot t (MonadState.get >>= k) (MonadState.get >>= k') Q :=
  next

theorem emit (valid : like.Valid t) (same : like.Values t v v') :
    Tracks like spare spot t (emit v) (Machine.emit v') fun _ _ _ => True := by
  have grows : Twin.Grows spot t ⟨{ t.left with printed := v :: t.left.printed },
    { t.right with printed := v' :: t.right.printed }, t.allows, t.before⟩ := .ofStores spot rfl rfl rfl
  refine .ok (u := ⟨_, _, t.allows, t.before⟩) ⟨{ valid with bindings := fun g => ?_, printed := ?_ }, grows, rfl, rfl⟩ trivial
  · exact (valid.bindings g).imp fun _ _ same => same.grow grows
  · obtain ⟨new, eq, printed⟩ := valid.printed.grow grows rfl
    exact ⟨v' :: new, congrArg (v' :: ·) eq, .cons (same.grow grows) printed⟩

theorem readClock {s s' : Setting} (valid : like.Valid t) (clock : s'.clock = s.clock) :
    Tracks like spare spot t (readClock s) (Machine.readClock s') fun w w' u => like.Values u w w' := by
  have grows : Twin.Grows spot t ⟨{ t.left with readings := t.left.readings + 1 },
    { t.right with readings := t.right.readings + 1 }, t.allows, t.before⟩ := .ofStores spot rfl rfl rfl
  refine .ok (u := ⟨_, _, t.allows, t.before⟩) ⟨{ valid with bindings := fun g => ?_, readings := ?_, printed := ?_ }, grows, rfl, rfl⟩ ?_
  · exact (valid.bindings g).imp fun _ _ same => same.grow grows
  · exact congrArg (· + 1) valid.readings
  · exact valid.printed.grow grows rfl
  · rw [clock, valid.readings]
    exact .number _

theorem newFunction {callable callable' : Callable} (valid : like.Valid t) :
    Tracks like spare spot t (newFunction callable) (Machine.newFunction callable') fun w w' _ =>
      ∃ serial, w = .function serial callable ∧ w' = .function serial callable' := by
  have grows : Twin.Grows spot t ⟨{ t.left with nextSerial := t.left.nextSerial + 1 },
    { t.right with nextSerial := t.right.nextSerial + 1 }, t.allows, t.before⟩ := .ofStores spot rfl rfl rfl
  refine .ok (u := ⟨_, _, t.allows, t.before⟩) ⟨{ valid with bindings := fun g => ?_, nextSerial := ?_, printed := ?_ }, grows, rfl, rfl⟩
    ⟨t.left.nextSerial, rfl, congrArg (Value.function · callable') valid.nextSerial⟩
  · exact (valid.bindings g).imp fun _ _ same => same.grow grows
  · exact congrArg (· + 1) valid.nextSerial
  · exact valid.printed.grow grows rfl

theorem inFrame (valid : like.Valid t) (h : Tracks like spare spot (t.enter f) x x' P)
    (k : ∀ b b' u, P b b' u → Q b b' (u.enter t.left.current)) :
    Tracks like spare spot t (inFrame f x) (Machine.inFrame f x') Q := by
  have away : Twin.Grows spot t (t.enter f) := .ofStores spot rfl rfl rfl
  have back {u : Twin} (steps : like.Steps spot (t.enter f) u) : like.Steps spot t (u.enter t.left.current) :=
    ⟨steps.valid.enter (Nat.lt_of_lt_of_le valid.inside steps.grows.size),
      away.trans (steps.grows.trans (.ofStores spot rfl rfl rfl)), rfl, steps.before⟩
  unfold Tracks Machine.inFrame at *
  rw [valid.current]
  change Ends like spare spot (t.enter f) P (x { t.left with current := f }) (x' { t.right with current := f }) at h
  generalize x { t.left with current := f } = r at h ⊢
  generalize x' { t.right with current := f } = r' at h ⊢
  cases h with
  | ok steps post => exact .ok (back steps) (k _ _ _ post)
  | error steps same => exact .error (back steps) same
  | spent more => exact .spent more _ _

def deeper (t : Twin) : Twin :=
  ⟨{ t.left with depth := t.left.depth + 1 }, { t.right with depth := t.right.depth + 1 }, t.allows, t.before⟩

def shallower (t : Twin) : Twin :=
  ⟨{ t.left with depth := t.left.depth - 1 }, { t.right with depth := t.right.depth - 1 }, t.allows, t.before⟩

theorem valid_deeper (valid : like.Valid t) : like.Valid (deeper t) :=
  { valid with
    depth := congrArg (· + 1) valid.depth
    bindings := fun g => (valid.bindings g).imp fun _ _ same => same.grow (.ofStores none rfl rfl rfl)
    printed := valid.printed.grow (.ofStores none rfl rfl rfl) rfl }

theorem valid_shallower (valid : like.Valid t) : like.Valid (shallower t) :=
  { valid with
    depth := congrArg (· - 1) valid.depth
    bindings := fun g => (valid.bindings g).imp fun _ _ same => same.grow (.ofStores none rfl rfl rfl)
    printed := valid.printed.grow (.ofStores none rfl rfl rfl) rfl }

theorem inCall (h : Tracks like spare spot (deeper t) x x' P) (k : ∀ b b' u, P b b' u → Q b b' (shallower u)) :
    Tracks like spare spot t (inCall x) (Machine.inCall x') Q := by
  have down : Twin.Grows spot t (deeper t) := .ofStores spot rfl rfl rfl
  have back {u : Twin} (steps : like.Steps spot (deeper t) u) : like.Steps spot t (shallower u) :=
    ⟨valid_shallower steps.valid, down.trans (steps.grows.trans (.ofStores spot rfl rfl rfl)), steps.current, steps.before⟩
  unfold Tracks Machine.inCall at *
  change Ends like spare spot (deeper t) P (x { t.left with depth := t.left.depth + 1 })
    (x' { t.right with depth := t.right.depth + 1 }) at h
  generalize x { t.left with depth := t.left.depth + 1 } = r at h ⊢
  generalize x' { t.right with depth := t.right.depth + 1 } = r' at h ⊢
  cases h with
  | ok steps post => exact .ok (back steps) (k _ _ _ post)
  | error steps same => exact .error (back steps) same
  | spent more => exact .spent more _ _

theorem free_or_bound (lexeme : ∀ {a a' : Token}, like.token a a' → a'.lexeme = a.lexeme) (valid : like.Valid t)
    (renders : t.Renders f p) (declares : p.Declares like.token a a' q) :
    (a.lexeme ∉ t.left.store.names f ∧ a'.lexeme ∉ t.right.store.names f ∧ t.allows f a.lexeme a'.lexeme) ∨
      (a.lexeme ∈ t.left.store.names f ∧ a'.lexeme ∈ t.right.store.names f ∧ like.token a a') := by
  have allows := renders.covers.allows valid.global
  -- outside of scopes the names are the same, and so are those that the frame binds
  have verbatim (same : like.token a a') (plain : t.allows f = Eq) :
      (a.lexeme ∉ t.left.store.names f ∧ a'.lexeme ∉ t.right.store.names f ∧ t.allows f a.lexeme a'.lexeme) ∨
        (a.lexeme ∈ t.left.store.names f ∧ a'.lexeme ∈ t.right.store.names f ∧ like.token a a') := by
    rw [valid.names_eq plain, lexeme same, plain]
    by_cases bound : a.lexeme ∈ t.left.store.names f
    · exact .inr ⟨bound, bound, same⟩
    · exact .inl ⟨bound, bound, rfl⟩
  cases declares with
  | global same => exact verbatim same allows
  | verbatim same => exact verbatim same allows
  | scope fresh fresh' may =>
    left
    rw [← valid.map_fst_links, ← valid.map_snd_links, renders.exact rfl, allows]
    exact ⟨fresh, fresh', may⟩

theorem renders_add (valid : like.Valid t) (renders : t.Renders f p) (declares : p.Declares like.token a a' q) :
    (t.add f a.lexeme a'.lexeme v v').Renders f q := by
  have inside := renders.covers.lt_size (Nat.zero_lt_of_lt valid.inside)
  have grows : Twin.Grows (some f) t (t.add f a.lexeme a'.lexeme v v') := .add inside valid.size
  have grown := renders.covers.grow grows
  cases declares with
  | global same => exact ⟨grown, nofun⟩
  | verbatim same => exact ⟨grown, nofun⟩
  | scope fresh fresh' may =>
    obtain ⟨links, allows, parent, up, rest⟩ := grown
    have exact : (t.add f a.lexeme a'.lexeme v v').links f = (a.lexeme, a'.lexeme) :: t.links f := by
      rw [Twin.links_add inside valid.size, if_pos rfl]
    rw [renders.exact rfl] at exact
    refine ⟨⟨exact ▸ List.Subset.refl _, allows, parent, up, rest⟩, ?_⟩
    rintro _ _ _ ⟨⟩
    exact exact

section Sound

variable {s s' : Setting} (sound : like.Sound s s')

include sound

theorem newFrame (valid : like.Valid t) (covers : t.Covers f p) (opens : p.Opens like.name q) :
    Tracks like spare spot t (newFrame f) (Machine.newFrame f) fun g g' u =>
      g = t.size ∧ g' = t.size ∧ u.Renders t.size q := by
  have steps : like.Steps spot t (t.child f q.allowed) :=
    ⟨valid.child (opens.bounded sound.refl) f, (Twin.Grows.child t f q.allowed).anywhere spot, rfl, rfl⟩
  exact .ok steps ⟨rfl, valid.size, .child covers (Nat.zero_lt_of_lt valid.inside) opens⟩

theorem defineIn (valid : like.Valid t) (renders : t.Renders f p) (declares : p.Declares like.token a a' q)
    (same : like.Values (t.add f a.lexeme a'.lexeme v v') v v') :
    Tracks like spare (some f) t (defineIn f a v) (Machine.defineIn f a' v') fun _ _ u => u.Renders f q := by
  have inside := renders.covers.lt_size (Nat.zero_lt_of_lt valid.inside)
  unfold Tracks Machine.defineIn
  rw [write_eq, write_eq]
  unfold Store.free
  rcases free_or_bound sound.lexeme valid renders declares with ⟨fresh, fresh', may⟩ | ⟨bound, bound', place⟩
  · rw [if_neg (mt Store.binds_iff.1 fresh), if_neg (mt Store.binds_iff.1 fresh')]
    have steps : like.Steps (some f) t (t.add f a.lexeme a'.lexeme v v') :=
      ⟨valid.add inside may fresh fresh' same, .add inside valid.size, rfl, rfl⟩
    exact .ok steps (renders_add valid renders declares)
  · rw [if_pos (Store.binds_iff.2 bound), if_pos (Store.binds_iff.2 bound'), sound.lexeme place]
    exact .error (.refl _ valid) (.failed place (.same _))

theorem define (valid : like.Valid t) (renders : t.Renders t.left.current p)
    (declares : p.Declares like.token a a' q)
    (same : like.Values (t.add t.left.current a.lexeme a'.lexeme v v') v v') :
    Tracks like spare (some t.left.current) t (define a v) (Machine.define a' v') fun _ _ u =>
      u.Renders u.left.current q := by
  have defined : Tracks like spare _ t _ _ _ := defineIn sound valid renders declares same
  have here : Machine.define a' v' t.right = Machine.defineIn t.left.current a' v' t.right := by
    rw [← valid.current]
    rfl
  refine Tracks.imp (P := fun _ _ u => u.Renders t.left.current q) ?_ fun _ _ u steps renders => steps.current.symm ▸ renders
  unfold Tracks at *
  rw [here]
  exact defined

theorem bindParameters {parameters parameters' : List Token} {values values' : List Value} (valid : like.Valid t)
    (renders : t.Renders f p) (binds : p.DeclaresAll like.token parameters parameters' q)
    (same : List.Forall₂ (like.Values t) values values') (length : values.length = parameters.length) :
    Tracks like spare (some f) t (bindParameters f parameters values) (Machine.bindParameters f parameters' values')
      fun _ _ u => u.Renders f q := by
  induction binds generalizing t values values' with
  | nil p => exact .pure valid renders
  | cons first rest ih =>
    cases same with
    | nil => cases length
    | cons head tail =>
      have inside := renders.covers.lt_size (Nat.zero_lt_of_lt valid.inside)
      have defined : Tracks like spare _ t _ _ _ :=
        defineIn sound valid renders first (head.grow (.add inside valid.size))
      refine defined.bind fun _ _ u steps renders => ?_
      exact ih steps.valid renders (tail.imp fun _ _ same => same.grow steps.grows) (Nat.succ.inj length)

theorem lookUp {id id' : UseId} {assigns assigns' : Bool} (valid : like.Valid t)
    (renders : t.Renders t.left.current p) (same : like.use p ⟨id, a, assigns⟩ ⟨id', a', assigns'⟩) :
    Tracks like spare spot t (lookUp s id a) (Machine.lookUp s' id' a') fun w w' u => like.Values u w w' := by
  have targets := sound.target valid renders same
  dsimp only at targets
  unfold Tracks
  generalize goal : target s id a t.left = r at targets
  generalize goal' : target s' id' a' t.right = r' at targets
  cases targets with
  | found link =>
    obtain ⟨w, w', there, there', same⟩ := valid.lookup link
    rw [lookUp_of_target goal there, lookUp_of_target goal' there']
    exact .ok (.refl spot valid) same
  | missed same =>
    rw [lookUp_of_target_error goal, lookUp_of_target_error goal']
    exact .error (.refl spot valid) same

theorem assign {id id' : UseId} (valid : like.Valid t) (renders : t.Renders t.left.current p)
    (same : like.use p ⟨id, a, true⟩ ⟨id', a', true⟩) (value : like.Values t v v') :
    Tracks like spare spot t (assign s id a v) (Machine.assign s' id' a' v') fun _ _ u => like.Values u v v' := by
  have targets := sound.target valid renders same
  dsimp only at targets
  unfold Tracks
  rw [assign_eq, assign_eq]
  generalize target s id a t.left = r at targets
  generalize target s' id' a' t.right = r' at targets
  cases targets with
  | @found g link =>
    have grows := (Twin.Grows.replace t g a.lexeme a'.lexeme v v').anywhere spot
    exact .ok (u := t.replace g a.lexeme a'.lexeme v v') ⟨valid.replace link value, grows, rfl, rfl⟩ (value.grow grows)
  | missed same => exact .error (.refl spot valid) same

end Sound

end Tracks

inductive Results (like : Likeness) (t : Twin) : Result → Result → Prop
  | ok {v v' : Value} (same : like.Values t v v') : Results like t (.ok v) (.ok v')
  | error {a a' : Token} {cause cause' : Fault} (place : like.token a a') (same : like.Faults cause cause') :
      Results like t (.error ⟨a, cause⟩) (.error ⟨a', cause'⟩)

theorem Tracks.orFail {r r' : Result} (valid : like.Valid t) (same : like.Results t r r') :
    Tracks like spare spot t (orFail r) (Machine.orFail r') fun w w' u => like.Values u w w' := by
  cases same with
  | ok same => exact .pure valid same
  | error place same => exact .stop valid (.failed place same)

section Operators

variable {s s' : Setting} {w w' : Value} (sound : like.Sound s s') (place : like.token a a')

include sound place

theorem unary_alike (same : like.Values t v v') : like.Results t (unary a v) (unary a' v') := by
  unfold unary
  rw [sound.kind place]
  generalize a.kind = kind
  cases kind <;> cases same <;> first
    | exact .ok (.boolean _)
    | exact .ok (.number _)
    | exact .error place (.same _)
    | exact .error place (.unary place)

theorem arithmetic_alike (x y : Float) : like.Results t (arithmetic a x y) (arithmetic a' x y) := by
  unfold arithmetic
  rw [sound.kind place]
  split <;> first
    | exact .ok (.boolean _)
    | exact .ok (.number _)
    | exact .error place (.binary place)

omit sound place in
theorem binary_of_ne (equal : a.kind ≠ .equal) (notEqual : a.kind ≠ .notEqual) (plus : a.kind ≠ .plus) (v w : Value) :
    binary a v w =
      match v, w with
      | .number x, .number y => arithmetic a x y
      | _, _ => .error ⟨a, .operandsNotNumbers⟩ := by
  unfold binary
  split <;> simp_all

theorem binary_alike (same : like.Values t v v') (second : like.Values t w w') :
    like.Results t (binary a v w) (binary a' v' w') := by
  have kind := sound.kind place
  by_cases equal : a.kind = .equal
  · simp only [binary, kind, equal, same.equals_eq second]
    exact .ok (.boolean _)
  by_cases notEqual : a.kind = .notEqual
  · simp only [binary, kind, notEqual, same.equals_eq second]
    exact .ok (.boolean _)
  by_cases plus : a.kind = .plus
  · simp only [binary, kind, plus]
    cases same <;> cases second <;> first
      | exact .ok (.number _)
      | exact .ok (.text _)
      | exact .error place (.same _)
  rw [binary_of_ne equal notEqual plus, binary_of_ne (kind ▸ equal) (kind ▸ notEqual) (kind ▸ plus)]
  cases same <;> cases second <;> first
    | exact arithmetic_alike sound place _ _
    | exact .error place (.same _)

omit sound in
theorem index_alike (same : like.Values t v v') (second : like.Values t w w') :
    like.Results t (index a v w) (index a' v' w') := by
  unfold index
  cases same <;> cases second <;> dsimp only <;> try exact .error place (.same _)
  split
  · exact .ok (.text _)
  · exact .error place (.same _)

end Operators

end Rules
end Likeness
end Scriptlet
