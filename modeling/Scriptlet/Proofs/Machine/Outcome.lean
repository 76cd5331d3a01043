import Scriptlet.Machine.Eval
import Scriptlet.Proofs.Machine.Directory

namespace Scriptlet

def Machine.left {α : Type} : EStateM.Result Machine.Stop Machine α → Machine
  | .ok _ m | .error _ m => m

def Value.Plain : Value → Prop
  | .function .. => False
  | .nil | .boolean _ | .number _ | .text _ => True

theorem Value.plain_ofConstant (value : Constant) : (Value.ofConstant value).Plain := by
  cases value <;> trivial

namespace Machine

variable {operator bracket : Token} {x y v : Value}

theorem plain_unary (h : unary operator x = .ok v) : v.Plain := by
  unfold unary at h
  split at h <;> cases h <;> trivial

theorem plain_arithmetic {a b : Float} (h : arithmetic operator a b = .ok v) : v.Plain := by
  unfold arithmetic at h
  split at h <;> cases h <;> trivial

theorem plain_binary (h : binary operator x y = .ok v) : v.Plain := by
  unfold binary at h
  split at h <;> first | exact plain_arithmetic h | cases h <;> trivial

theorem plain_index (h : index bracket x y = .ok v) : v.Plain := by
  unfold index at h
  dsimp only at h
  split at h <;> cases h
  trivial

end Machine

namespace Directory

open Machine

variable {α β : Type} {directory : Directory} {spot : Option FrameId} {blame : Defect → Prop}
  {m m₁ : Machine} {x : Run α} {f : α → Run β} {P : α → Machine → Prop} {Q : β → Machine → Prop}

/-- A run on a machine steps to a valid one, with a result of which `P` holds if it has one, and a defect is to be
blamed. -/
def Ends (directory : Directory) (spot : Option FrameId) (blame : Defect → Prop) (m : Machine) (x : Run α)
    (P : α → Machine → Prop) : Prop :=
  match x m with
  | .ok a m' => directory.Steps spot m m' ∧ P a m'
  | .error stop m' => directory.Steps spot m m' ∧ ∀ d, stop = .defective d → blame d

theorem Steps.child (spot : Option FrameId) (valid : directory.Valid m) (parent : FrameId) :
    directory.Steps spot m { m with store := (m.store.child parent).2 } := by
  have grows := Store.Grows.child m.store parent
  refine ⟨⟨Nat.lt_of_lt_of_le valid.current grows.size, fun f x v found => ?_⟩, grows.anywhere spot, rfl⟩
  exact (valid.values f x v ((Store.find?_child ..).symm.trans found)).grow grows

theorem Steps.replace {v : Value} (spot : Option FrameId) (valid : directory.Valid m)
    (admits : directory.AdmitsValue m.store v) (frame : FrameId) (x : String) :
    directory.Steps spot m { m with store := m.store.replace frame x v } := by
  have grows := Store.Grows.replace m.store frame x v
  refine ⟨⟨Nat.lt_of_lt_of_le valid.current grows.size, fun f y w found => ?_⟩, grows.anywhere spot, rfl⟩
  obtain ⟨old, before, rfl⟩ := Option.map_eq_some_iff.1 ((Store.find?_replace ..).symm.trans found)
  split
  · exact admits.grow grows
  · exact (valid.values f y old before).grow grows

namespace Ends

theorem ok {a : α} (h : Ends directory spot blame m x P) (eq : x m = .ok a m₁) :
    directory.Steps spot m m₁ ∧ P a m₁ := by
  simpa only [Ends, eq] using h

theorem blamed {d : Defect} (h : Ends directory spot blame m x P) (eq : x m = .error (.defective d) m₁) : blame d := by
  unfold Ends at h
  rw [eq] at h
  exact h.2 d rfl

theorem steps_left (h : Ends directory spot blame m x P) : directory.Steps spot m (left (x m)) := by
  unfold Ends at h
  cases eq : x m <;> rw [eq] at h <;> exact h.1

theorem pure {a : α} (valid : directory.Valid m) (h : P a m) : Ends directory spot blame m (pure a) P :=
  ⟨.refl spot valid, h⟩

theorem bind (h : Ends directory spot blame m x P)
    (k : ∀ a m₁, x m = .ok a m₁ → directory.Steps spot m m₁ → P a m₁ → Ends directory spot blame m₁ (f a) Q) :
    Ends directory spot blame m (x >>= f) Q := by
  change match EStateM.bind x f m with | .ok _ _ => _ | .error _ _ => _
  unfold EStateM.bind
  unfold Ends at h
  cases eq : x m with
  | error stop m₁ =>
    rw [eq] at h
    exact h
  | ok a m₁ =>
    rw [eq] at h
    have later := k a m₁ eq h.1 h.2
    unfold Ends at later
    change match f a m₁ with | .ok _ _ => _ | .error _ _ => _
    cases eq' : f a m₁ <;> rw [eq'] at later <;> exact ⟨h.1.trans later.1, later.2⟩

theorem get {g : Machine → Run β} (h : Ends directory spot blame m (g m) Q) :
    Ends directory spot blame m (MonadState.get >>= g) Q := h

theorem imp {P' : α → Machine → Prop} (h : Ends directory spot blame m x P)
    (k : ∀ a m₁, directory.Steps spot m m₁ → P a m₁ → P' a m₁) : Ends directory spot blame m x P' := by
  unfold Ends at h ⊢
  cases eq : x m with
  | error stop m₁ =>
    rw [eq] at h
    exact h
  | ok a m₁ =>
    rw [eq] at h
    exact ⟨h.1, k a m₁ h.1 h.2⟩

theorem blaming {blame' : Defect → Prop} (h : Ends directory spot blame m x P) (k : ∀ d, blame d → blame' d) :
    Ends directory spot blame' m x P := by
  unfold Ends at h ⊢
  cases eq : x m with
  | error stop m₁ =>
    rw [eq] at h
    exact ⟨h.1, fun d defect => k d (h.2 d defect)⟩
  | ok a m₁ =>
    rw [eq] at h
    exact h

theorem stepping {spot' : Option FrameId} (h : Ends directory spot blame m x P)
    (k : ∀ m₁, directory.Steps spot m m₁ → directory.Steps spot' m m₁) : Ends directory spot' blame m x P := by
  unfold Ends at h ⊢
  cases eq : x m <;> rw [eq] at h <;> exact ⟨k _ h.1, h.2⟩

theorem anywhere (h : Ends directory none blame m x P) : Ends directory spot blame m x P :=
  h.stepping fun _ steps => steps.anywhere spot

theorem outside {f : FrameId} (h : Ends directory (some f) blame m x P) (new : m.store.frames.size ≤ f) :
    Ends directory none blame m x P :=
  h.stepping fun _ steps => steps.outside new

theorem fail (valid : directory.Valid m) (token : Token) (fault : Fault) :
    Ends directory spot blame m (Machine.fail token fault) P :=
  ⟨.refl spot valid, nofun⟩

theorem exhausted (valid : directory.Valid m) : Ends directory spot blame m (throw .exhausted) P :=
  ⟨.refl spot valid, nofun⟩

theorem orFail {r : Except (Located Fault) α} (valid : directory.Valid m) (h : ∀ a, r = .ok a → P a m) :
    Ends directory spot blame m (Machine.orFail r) P := by
  cases r with
  | ok a => exact .pure valid (h a rfl)
  | error e => exact ⟨.refl spot valid, nofun⟩

theorem emit (valid : directory.Valid m) (v : Value) :
    Ends directory spot blame m (Machine.emit v) fun _ m' => m'.store = m.store ∧ m'.current = m.current :=
  ⟨⟨⟨valid.current, valid.values⟩, .refl spot _, rfl⟩, rfl, rfl⟩

theorem readClock (valid : directory.Valid m) (s : Setting) :
    Ends directory spot blame m (Machine.readClock s) fun v m' => directory.AdmitsValue m'.store v :=
  ⟨⟨⟨valid.current, valid.values⟩, .refl spot _, rfl⟩, admitsValue_number _⟩

theorem newFunction (valid : directory.Valid m) (callable : Callable) :
    Ends directory spot blame m (Machine.newFunction callable) fun v m' =>
      (∃ serial, v = .function serial callable) ∧ m'.store = m.store ∧ m'.current = m.current :=
  ⟨⟨⟨valid.current, valid.values⟩, .refl spot _, rfl⟩, ⟨_, rfl⟩, rfl, rfl⟩

theorem newFrame (valid : directory.Valid m) (parent : FrameId) :
    Ends directory spot blame m (Machine.newFrame parent) fun frame m' =>
      frame = m.store.frames.size ∧ m' = { m with store := (m.store.child parent).2 } :=
  ⟨.child spot valid parent, rfl, rfl⟩

theorem inFrame {frame : FrameId} {P' : α → Machine → Prop} (valid : directory.Valid m)
    (h : Ends directory spot blame { m with current := frame } x P)
    (k : ∀ a m₁, P a m₁ → P' a { m₁ with current := m.current }) :
    Ends directory spot blame m (Machine.inFrame frame x) P' := by
  unfold Ends Machine.inFrame at *
  have back {m₁ : Machine} (steps : directory.Steps spot { m with current := frame } m₁) :
      directory.Steps spot m { m₁ with current := m.current } :=
    ⟨⟨Nat.lt_of_lt_of_le valid.current steps.grows.size, steps.valid.values⟩, steps.grows, rfl⟩
  cases eq : x { m with current := frame } with
  | ok a m₁ =>
    rw [eq] at h
    exact ⟨back h.1, k a m₁ h.2⟩
  | error stop m₁ =>
    rw [eq] at h
    exact ⟨back h.1, h.2⟩

theorem inCall {P' : α → Machine → Prop} (h : Ends directory spot blame { m with depth := m.depth + 1 } x P)
    (k : ∀ a m₁, P a m₁ → P' a { m₁ with depth := m₁.depth - 1 }) :
    Ends directory spot blame m (Machine.inCall x) P' := by
  unfold Ends Machine.inCall at *
  have back {m₁ : Machine} (steps : directory.Steps spot { m with depth := m.depth + 1 } m₁) :
      directory.Steps spot m { m₁ with depth := m₁.depth - 1 } :=
    ⟨⟨steps.valid.current, steps.valid.values⟩, steps.grows, steps.current⟩
  cases eq : x { m with depth := m.depth + 1 } with
  | ok a m₁ =>
    rw [eq] at h
    exact ⟨back h.1, k a m₁ h.2⟩
  | error stop m₁ =>
    rw [eq] at h
    exact ⟨back h.1, h.2⟩

theorem write {ε : Type} {stop : ε → Stop} {search : FrameId → Store → Except ε FrameId}
    {change : Store → FrameId → Store} {P : Unit → Machine → Prop} (valid : directory.Valid m)
    (found : ∀ frame, search m.current m.store = .ok frame →
      directory.Steps spot m { m with store := change m.store frame } ∧
        P () { m with store := change m.store frame })
    (missed : ∀ e, search m.current m.store = .error e → ∀ d, stop e = .defective d → blame d) :
    Ends directory spot blame m (Machine.write stop search change) P := by
  unfold Ends Machine.write
  cases eq : search m.current m.store with
  | ok frame => exact found frame eq
  | error e => exact ⟨.refl spot valid, missed e eq⟩

theorem defineIn {frame : FrameId} {scopes : Scopes} {v : Value} (valid : directory.Valid m)
    (renders : m.store.Renders frame scopes) (name : Token)
    (admits : directory.AdmitsValue (m.store.add frame name.lexeme v) v) :
    Ends directory (some frame) blame m (Machine.defineIn frame name v) fun _ m' =>
      m'.store.Renders frame (scopes.extend name.lexeme) := by
  have size := renders.covers.lt_size
  have grows := Store.Grows.add size name.lexeme v
  refine .write valid (fun owner free => ?_) (by rintro _ _ _ ⟨⟩)
  unfold Store.free at free
  split at free
  · cases free
  · cases free
    refine ⟨⟨⟨Nat.lt_of_lt_of_le valid.current grows.size, fun f x w found => ?_⟩, grows, rfl⟩, renders.add ..⟩
    rw [Store.find?_add size] at found
    split at found
    · cases found
      exact admits
    · exact (valid.values f x w found).grow grows

theorem define {scopes : Scopes} {v : Value} (valid : directory.Valid m)
    (renders : m.store.Renders m.current scopes) (name : Token)
    (admits : directory.AdmitsValue (m.store.add m.current name.lexeme v) v) :
    Ends directory (some m.current) blame m (Machine.define name v) fun _ m' =>
      m'.store.Renders m'.current (scopes.extend name.lexeme) :=
  (defineIn valid renders name admits).imp fun _ _ steps renders => steps.current.symm ▸ renders

theorem bindParameters {frame : FrameId} {names : List String} {scopes : Scopes} {parameters : List Token}
    {values : List Value} (valid : directory.Valid m) (renders : m.store.Renders frame (names :: scopes))
    (same : values.length = parameters.length) (admits : ∀ v ∈ values, directory.AdmitsValue m.store v) :
    Ends directory (some frame) blame m (Machine.bindParameters frame parameters values) fun _ m' =>
      m'.store.Renders frame ((Scopes.parameters parameters ++ names) :: scopes) := by
  induction parameters generalizing m names values with
  | nil => exact .pure valid renders
  | cons name parameters ih =>
    cases values with
    | nil => cases same
    | cons v values =>
      have grows := Store.Grows.add renders.covers.lt_size name.lexeme v
      have defined : Ends directory _ blame m _ _ :=
        defineIn valid renders name ((admits v List.mem_cons_self).grow grows)
      refine defined.bind fun _ m₁ _ steps renders => ?_
      have same : values.length = parameters.length := by simpa using same
      have rest := ih steps.valid renders same fun w mem =>
        (admits w (List.mem_cons_of_mem v mem)).grow steps.grows
      simpa [Scopes.parameters, Scopes.extend] using rest

theorem lookUp {clock : Nat → Float} {id : UseId} {name : Token} (valid : directory.Valid m)
    (agrees : directory.Agrees m ⟨id, name, false⟩) :
    Ends directory spot blame m (Machine.lookUp (directory.setting clock) id name) fun v m' =>
      directory.AdmitsValue m'.store v := by
  have steps := Steps.refl spot valid
  unfold Ends Machine.lookUp setting
  cases address : directory.addresses[id]? with
  | none =>
    cases found : m.store.get Store.global name with
    | ok v =>
      obtain ⟨f, value⟩ := Store.find?_of_get found
      exact ⟨steps, valid.values f _ v value⟩
    | error e => exact ⟨steps, nofun⟩
  | some d =>
    cases agrees with
    | bound mature binds =>
      obtain ⟨f, v, found, value⟩ := (binds d address).getAt
      simp only [found]
      exact ⟨steps, valid.values f _ v value⟩
    | unborn assigns => cases assigns

theorem assign {clock : Nat → Float} {id : UseId} {name : Token} {v : Value} (valid : directory.Valid m)
    (agrees : directory.Agrees m ⟨id, name, true⟩) (admits : directory.AdmitsValue m.store v)
    (premature : directory.premature id → blame (.unbound name.lexeme 0)) :
    Ends directory spot blame m (Machine.assign (directory.setting clock) id name v) fun _ _ => True := by
  have written (frame : FrameId) := Steps.replace spot valid admits frame name.lexeme
  unfold Machine.assign setting
  cases address : directory.addresses[id]? with
  | none => exact .write valid (fun frame _ => ⟨written frame, trivial⟩) (by rintro _ _ _ ⟨⟩)
  | some d =>
    refine .write valid (fun frame _ => ⟨written frame, trivial⟩) ?_
    rintro _ missed d' ⟨⟩
    cases agrees with
    | bound mature binds =>
      obtain ⟨f, found⟩ := (binds d address).ownerAt
      cases missed.symm.trans found
    | unborn assigns early zero unbound =>
      cases address.symm.trans zero
      cases missed.symm.trans (Store.ownerAt_zero unbound)
      exact premature early

end Ends

theorem AdmitsValue.of_plain {s : Store} {v : Value} (plain : v.Plain) : directory.AdmitsValue s v := by
  rintro _ _ rfl
  exact plain.elim

theorem admitsValue_unary {s : Store} {operator : Token} {x v : Value} (h : unary operator x = .ok v) :
    directory.AdmitsValue s v :=
  .of_plain (plain_unary h)

theorem admitsValue_binary {s : Store} {operator : Token} {x y v : Value} (h : binary operator x y = .ok v) :
    directory.AdmitsValue s v :=
  .of_plain (plain_binary h)

theorem admitsValue_index {s : Store} {bracket : Token} {x y v : Value} (h : index bracket x y = .ok v) :
    directory.AdmitsValue s v :=
  .of_plain (plain_index h)

theorem admitsValue_ofConstant {s : Store} (value : Constant) : directory.AdmitsValue s (.ofConstant value) :=
  .of_plain (Value.plain_ofConstant value)

end Directory
end Scriptlet
