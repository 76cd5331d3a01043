import Scriptlet.Proofs.Machine.Direct
import Scriptlet.Proofs.Machine.Lexical
import Scriptlet.Proofs.Machine.Padding

/-!
Loops do the same if they are run directly. The machine runs beside the procedures that run some steps flat, each with its
own table of addresses. `Tracks` says that two runs from corresponding machines end in corresponding ways. Wherever a flat
step is run, the first machine alone opens a frame, which becomes padding; everything else is done by both.
-/

namespace Scriptlet

namespace Flattening

open Machine

variable (F : Flattening)

def setting (clock : Nat → Float) : Setting :=
  ⟨F.addresses, .lexical, clock⟩

def setting' (clock : Nat → Float) : Setting :=
  ⟨F.addresses', .lexical, clock⟩

/-- Runs that stop for the same reason. A variable that is not there is missed at the distance without the padding. -/
inductive Stops : Stop → Stop → Prop
  | failed (error : Located Fault) : Stops (.failed error) (.failed error)
  | unbound (name : String) {layers : List Layer} {d d' : Nat} (shrinks : Layer.shrink layers d = some d') :
      Stops (.defective (.unbound name d)) (.defective (.unbound name d'))
  | tooShallow : Stops (.defective .tooShallow) (.defective .tooShallow)
  | exhausted : Stops .exhausted .exhausted

inductive Ends (t : Padded) {α : Type} (P : α → α → Padded → Prop) :
    EStateM.Result Stop Machine α → EStateM.Result Stop Machine α → Prop
  | ok {a a' : α} {u : Padded} (steps : F.Steps t u) (post : P a a' u) : Ends t P (.ok a u.left) (.ok a' u.right)
  | error {e e' : Stop} {u : Padded} (steps : F.Steps t u) (same : Stops e e') :
      Ends t P (.error e u.left) (.error e' u.right)

def Tracks (t : Padded) {α : Type} (x x' : Run α) (P : α → α → Padded → Prop) : Prop :=
  F.Ends t P (x t.left) (x' t.right)

inductive Flows (t : Padded) : Flow → Flow → Prop
  | onward : Flows t .onward .onward
  | returned {v v' : Value} (same : F.Values t v v') : Flows t (.returned v) (.returned v')

variable {F} {t u : Padded} {f f' : FrameId} {layers : List Layer} {v v' : Value} {name : Token} {clock : Nat → Float}
  {α β : Type} {x x' : Run α} {P Q : α → α → Padded → Prop}

theorem Flows.grow {flow flow' : Flow} (h : F.Flows t flow flow') (grows : Padded.Grows t u) : F.Flows u flow flow' := by
  cases h with
  | onward => exact .onward
  | returned same => exact .returned (same.grow grows)

namespace Tracks

theorem pure {a a' : α} (valid : F.Valid t) (post : P a a' t) : F.Tracks t (pure a) (Pure.pure a') P :=
  .ok (.refl valid) post

theorem stop {e e' : Stop} (valid : F.Valid t) (same : Stops e e') : F.Tracks t (throw e : Run α) (throw e') P :=
  .error (.refl valid) same

theorem fail (valid : F.Valid t) (name : Token) (cause : Fault) :
    F.Tracks t (fail name cause : Run α) (Machine.fail name cause) P :=
  stop valid (.failed _)

theorem after (h : F.Tracks u x x' P) (steps : F.Steps t u) : F.Ends t P (x u.left) (x' u.right) := by
  unfold Tracks at h
  generalize x u.left = r, x' u.right = r' at h ⊢
  cases h with
  | ok later post => exact .ok (steps.trans later) post
  | error later same => exact .error (steps.trans later) same

theorem bind {k k' : α → Run β} {Q : β → β → Padded → Prop} (h : F.Tracks t x x' P)
    (next : ∀ a a' u, F.Steps t u → P a a' u → F.Tracks u (k a) (k' a') Q) :
    F.Tracks t (x >>= k) (x' >>= k') Q := by
  unfold Tracks at *
  change F.Ends t Q (EStateM.bind x k t.left) (EStateM.bind x' k' t.right)
  unfold EStateM.bind
  generalize x t.left = r, x' t.right = r' at h ⊢
  cases h with
  | ok steps post => exact Tracks.after (next _ _ _ steps post) steps
  | error steps same => exact .error steps same

theorem get {k k' : Machine → Run β} {Q : β → β → Padded → Prop} (next : F.Tracks t (k t.left) (k' t.right) Q) :
    F.Tracks t (MonadState.get >>= k) (MonadState.get >>= k') Q :=
  next

theorem emit (valid : F.Valid t) (same : F.Values t v v') :
    F.Tracks t (emit v) (Machine.emit v') fun _ _ _ => True := by
  refine .ok (u := ⟨_, _, t.embed⟩) ⟨?_, .ofStores rfl rfl rfl, rfl, rfl⟩ trivial
  exact valid.ofStores rfl rfl rfl valid.depth valid.readings valid.nextSerial (.cons same valid.printed)

theorem readClock (valid : F.Valid t) :
    F.Tracks t (readClock (F.setting clock)) (Machine.readClock (F.setting' clock)) fun w w' u => F.Values u w w' := by
  refine .ok (u := ⟨_, _, t.embed⟩) ⟨?_, .ofStores rfl rfl rfl, rfl, rfl⟩ ?_
  · exact valid.ofStores rfl rfl rfl valid.depth (congrArg (· + 1) valid.readings) valid.nextSerial valid.printed
  · rw [valid.readings]
    exact .number _

theorem newFunction {callable callable' : Callable} (valid : F.Valid t) :
    F.Tracks t (newFunction callable) (Machine.newFunction callable') fun w w' _ =>
      ∃ serial, w = .function serial callable ∧ w' = .function serial callable' := by
  refine .ok (u := ⟨_, _, t.embed⟩) ⟨?_, .ofStores rfl rfl rfl, rfl, rfl⟩ ?_
  · exact valid.ofStores rfl rfl rfl valid.depth valid.readings (congrArg (· + 1) valid.nextSerial) valid.printed
  · exact ⟨t.left.nextSerial, rfl, congrArg (Value.function · callable') valid.nextSerial⟩

theorem inFrame (h : F.Tracks (t.enter f f') x x' P)
    (grow : ∀ a a' u w, Padded.Grows u w → P a a' u → P a a' w) : F.Tracks t (inFrame f x) (Machine.inFrame f' x') P := by
  have back {u : Padded} (steps : F.Steps (t.enter f f') u) :
      F.Steps t (u.enter t.left.current t.right.current) :=
    ⟨steps.valid.enter _ _, (Padded.Grows.enter t _ _).trans (steps.grows.trans (.enter u _ _)), rfl, rfl⟩
  unfold Tracks Machine.inFrame at *
  change F.Ends (t.enter f f') P (x { t.left with current := f }) (x' { t.right with current := f' }) at h
  generalize x { t.left with current := f } = r, x' { t.right with current := f' } = r' at h ⊢
  cases h with
  | ok steps post => exact .ok (back steps) (grow _ _ _ _ (.enter _ _ _) post)
  | error steps same => exact .error (back steps) same

theorem inFrame_left (h : F.Tracks (t.enter f t.right.current) x x' P)
    (grow : ∀ a a' u w, Padded.Grows u w → P a a' u → P a a' w) : F.Tracks t (Machine.inFrame f x) x' P := by
  have back {u : Padded} (steps : F.Steps (t.enter f t.right.current) u) :
      F.Steps t (u.enter t.left.current u.right.current) :=
    ⟨steps.valid.enter _ _, (Padded.Grows.enter t _ _).trans (steps.grows.trans (.enter u _ _)), rfl, steps.current'⟩
  unfold Tracks Machine.inFrame at *
  change F.Ends (t.enter f t.right.current) P (x { t.left with current := f }) (x' t.right) at h
  generalize x { t.left with current := f } = r, x' t.right = r' at h ⊢
  cases h with
  | ok steps post => exact .ok (back steps) (grow _ _ _ _ (.enter _ _ _) post)
  | error steps same => exact .error (back steps) same

theorem inCall (valid : F.Valid t) (h : ∀ u, F.Valid u → Padded.Grows t u → F.Tracks u x x' fun v v' w => P v v' w)
    (grow : ∀ a a' u w, Padded.Grows u w → P a a' u → P a a' w) : F.Tracks t (inCall x) (Machine.inCall x') P := by
  let deeper : Padded := ⟨{ t.left with depth := t.left.depth + 1 }, { t.right with depth := t.right.depth + 1 }, t.embed⟩
  have down : Padded.Grows t deeper := .ofStores rfl rfl rfl
  have deep : F.Valid deeper :=
    valid.ofStores rfl rfl rfl (congrArg (· + 1) valid.depth) valid.readings valid.nextSerial valid.printed
  have up (u : Padded) : Padded.Grows u
      ⟨{ u.left with depth := u.left.depth - 1 }, { u.right with depth := u.right.depth - 1 }, u.embed⟩ :=
    .ofStores rfl rfl rfl
  have back {u : Padded} (steps : F.Steps deeper u) : F.Steps t
      ⟨{ u.left with depth := u.left.depth - 1 }, { u.right with depth := u.right.depth - 1 }, u.embed⟩ := by
    refine ⟨?_, down.trans (steps.grows.trans (up u)), steps.current, steps.current'⟩
    exact steps.valid.ofStores rfl rfl rfl (congrArg (· - 1) steps.valid.depth) steps.valid.readings steps.valid.nextSerial
      steps.valid.printed
  have inner := h deeper deep down
  unfold Tracks Machine.inCall at *
  change F.Ends deeper P (x { t.left with depth := t.left.depth + 1 })
    (x' { t.right with depth := t.right.depth + 1 }) at inner
  generalize x { t.left with depth := t.left.depth + 1 } = r, x' { t.right with depth := t.right.depth + 1 } = r'
    at inner ⊢
  cases inner with
  | ok steps post => exact .ok (back steps) (grow _ _ _ _ (up _) post)
  | error steps same => exact .error (back steps) same

theorem newFrame (valid : F.Valid t) (covers : t.Covers f f' layers) :
    F.Tracks t (newFrame f) (Machine.newFrame f') fun g g' u => u.Covers g g' (.scope :: layers) :=
  .ok (u := t.child f f') ⟨valid.child f f', .child t f f', rfl, rfl⟩
    (covers.child (valid.lt_size covers) (covers.lt_size' valid.present))

theorem defineIn (valid : F.Valid t) (covers : t.Covers f f' layers) (opened : Layer.Open layers)
    (same : F.Values t v v') : F.Tracks t (defineIn f name v) (Machine.defineIn f' name v') fun _ _ _ => True := by
  have there := covers.lt_size' valid.present
  have here := covers.eq_embed opened valid.global
  unfold Tracks Machine.defineIn
  rw [write_eq, write_eq]
  unfold Store.free
  rw [here, valid.binds_eq there]
  by_cases bound : t.left.store.binds (t.embed f') name.lexeme = true
  · rw [if_pos bound, if_pos bound]
    exact .error (.refl valid) (.failed _)
  · rw [if_neg bound, if_neg bound]
    have grows := Padded.Grows.add t f' name.lexeme v v'
    exact .ok (u := t.add f' name.lexeme v v') ⟨valid.add there _ (same.grow grows), grows, rfl, rfl⟩ trivial

theorem define (valid : F.Valid t) (here : t.Current layers) (opened : Layer.Open layers) (same : F.Values t v v') :
    F.Tracks t (define name v) (Machine.define name v') fun _ _ _ => True :=
  defineIn valid here opened same

theorem bindParameters {parameters : List Token} {values values' : List Value} (valid : F.Valid t)
    (covers : t.Covers f f' (.scope :: layers)) (same : List.Forall₂ (F.Values t) values values') :
    F.Tracks t (bindParameters f parameters values) (Machine.bindParameters f' parameters values') fun _ _ _ => True := by
  induction parameters generalizing t values values' with
  | nil => exact .pure valid trivial
  | cons name names ih =>
    cases same with
    | nil => exact .pure valid trivial
    | cons head tail =>
      refine (defineIn valid covers (Layer.open_scope layers) head).bind fun _ _ u steps _ => ?_
      exact ih steps.valid (covers.grow steps.grows) (tail.imp fun _ _ same => same.grow steps.grows)

inductive Targets (t : Padded) : Except Stop FrameId → Except Stop FrameId → Prop
  | found {g' : FrameId} (inside : g' < t.size) : Targets t (.ok (t.embed g')) (.ok g')
  | missed {e e' : Stop} (same : Stops e e') : Targets t (.error e) (.error e')

theorem target (clock : Nat → Float) {use : Use} (valid : F.Valid t) (here : t.Current layers)
    (aligns : F.Aligns layers use) :
    Targets t (target (F.setting clock) use.id use.name t.left)
      (Machine.target (F.setting' clock) use.id use.name t.right) := by
  unfold Aligns at aligns
  unfold Machine.target
  simp only [setting, setting']
  cases address : F.addresses[use.id]? with
  | none =>
    rw [address, Option.map_none, Option.map_eq_none_iff] at aligns
    have binds : t.right.store.binds Store.global use.name.lexeme = t.left.store.binds Store.global use.name.lexeme := by
      conv => rhs; rw [← valid.global]
      exact valid.binds_eq valid.present _
    simp only [aligns, Likeness.owner_global, binds]
    split
    · have found : Targets t (.ok (t.embed Store.global)) (.ok Store.global) := .found valid.present
      rw [valid.global] at found
      exact found
    · exact .missed (.failed _)
  | some d =>
    rw [address, Option.map_some] at aligns
    obtain ⟨d', address', shrinks⟩ := Option.map_eq_some_iff.1 aligns
    have shrinks := shrinks.symm
    simp only [address', Store.ownerAt]
    have same := here.ancestor? valid.present valid.global shrinks
    generalize t.left.store.ancestor? t.left.current d = g, t.right.store.ancestor? t.right.current d' = g' at same
    cases same with
    | none => exact .missed .tooShallow
    | some inside =>
      dsimp only
      rw [valid.binds_eq inside]
      split
      · exact .found inside
      · exact .missed (.unbound _ shrinks)

theorem lookUp {id : UseId} {assigns : Bool} (valid : F.Valid t) (here : t.Current layers)
    (aligns : F.Aligns layers ⟨id, name, assigns⟩) :
    F.Tracks t (lookUp (F.setting clock) id name) (Machine.lookUp (F.setting' clock) id name) fun w w' u =>
      F.Values u w w' := by
  have targets := target clock valid here aligns
  dsimp only at targets
  unfold Tracks
  generalize goal : Machine.target (F.setting clock) id name t.left = r at targets
  generalize goal' : Machine.target (F.setting' clock) id name t.right = r' at targets
  cases targets with
  | found inside =>
    obtain ⟨w, found⟩ := find?_of_target goal
    obtain ⟨w', found', same⟩ := valid.find? inside found
    rw [lookUp_of_target goal found, lookUp_of_target goal' found']
    exact .ok (.refl valid) same
  | missed same =>
    rw [lookUp_of_target_error goal, lookUp_of_target_error goal']
    exact .error (.refl valid) same

theorem assign {id : UseId} (valid : F.Valid t) (here : t.Current layers) (aligns : F.Aligns layers ⟨id, name, true⟩)
    (same : F.Values t v v') :
    F.Tracks t (assign (F.setting clock) id name v) (Machine.assign (F.setting' clock) id name v') fun _ _ u =>
      F.Values u v v' := by
  have targets := target clock valid here aligns
  dsimp only at targets
  unfold Tracks
  rw [assign_eq, assign_eq]
  generalize Machine.target (F.setting clock) id name t.left = r at targets
  generalize Machine.target (F.setting' clock) id name t.right = r' at targets
  cases targets with
  | @found g' inside =>
    have grows := Padded.Grows.replace t g' name.lexeme v v'
    exact .ok (u := t.replace g' name.lexeme v v') ⟨valid.replace inside same _, grows, rfl, rfl⟩ (same.grow grows)
  | missed same => exact .error (.refl valid) same

theorem orFail {r r' : Result} (valid : F.Valid t) (same : r' = r) (plain : ∀ w, r = .ok w → w.Plain) :
    F.Tracks t (orFail r) (Machine.orFail r') fun w w' u => F.Values u w w' := by
  subst same
  cases r' with
  | ok w => exact .pure valid (.ofPlain (plain w rfl))
  | error e => exact .stop valid (.failed e)

end Tracks

theorem unary_eq (operator : Token) (same : F.Values t v v') : unary operator v' = unary operator v := by
  unfold unary
  generalize operator.kind = kind
  cases kind <;> cases same <;> rfl

theorem binary_eq (operator : Token) {w w' : Value} (same : F.Values t v v') (second : F.Values t w w') :
    binary operator v' w' = binary operator v w := by
  by_cases equal : operator.kind = .equal
  · simp only [binary, equal, same.equals_eq second]
  by_cases notEqual : operator.kind = .notEqual
  · simp only [binary, notEqual, same.equals_eq second]
  by_cases plus : operator.kind = .plus
  · simp only [binary, plus]
    cases same <;> cases second <;> rfl
  rw [Likeness.binary_of_ne equal notEqual plus, Likeness.binary_of_ne equal notEqual plus]
  cases same <;> cases second <;> rfl

theorem index_eq (bracket : Token) {w w' : Value} (same : F.Values t v v') (second : F.Values t w w') :
    index bracket v' w' = index bracket v w := by
  unfold index
  cases same <;> cases second <;> rfl

variable (F) in
abbrev direct (clock : Nat → Float) (n : Nat) : Procedures :=
  Machine.direct F.flat (F.setting' clock) n

structure Lockstep (F : Flattening) (clock : Nat → Float) (n : Nat) : Prop where
  evaluate : ∀ {t layers e}, F.Valid t → t.Current layers → (∀ u ∈ e.uses, F.Aligns layers u) →
    F.Tracks t (evaluate (F.setting clock) n e) ((F.direct clock n).evaluate e) fun v v' u => F.Values u v v'
  evaluateAll : ∀ {t layers es}, F.Valid t → t.Current layers → (∀ u ∈ Expr.usesIn es, F.Aligns layers u) →
    F.Tracks t (evaluateAll (F.setting clock) n es) ((F.direct clock n).evaluateAll es) fun vs vs' u =>
      List.Forall₂ (F.Values u) vs vs'
  evaluate? : ∀ {t layers e}, F.Valid t → t.Current layers → (∀ u ∈ (e.map Expr.uses).getD [], F.Aligns layers u) →
    F.Tracks t (evaluate? (F.setting clock) n e) ((F.direct clock n).evaluate? e) fun v v' u => F.Values u v v'
  call : ∀ {t paren f f' vs vs'}, F.Valid t → F.Values t f f' → List.Forall₂ (F.Values t) vs vs' →
    F.Tracks t (call (F.setting clock) n paren f vs) ((F.direct clock n).call paren f' vs') fun v v' u => F.Values u v v'
  apply : ∀ {t serial callable callable' vs vs'}, F.Valid t →
    F.Values t (.function serial callable) (.function serial callable') → List.Forall₂ (F.Values t) vs vs' →
    F.Tracks t (apply (F.setting clock) n callable vs) ((F.direct clock n).apply callable' vs') fun v v' u =>
      F.Values u v v'
  execute : ∀ {t layers stmt}, F.Valid t → t.Current layers → F.Aligned layers false stmt →
    F.Tracks t (execute (F.setting clock) n stmt) ((F.direct clock n).execute stmt) fun flow flow' u => F.Flows u flow flow'
  executeAll : ∀ {t layers stmts}, F.Valid t → t.Current layers → F.AlignedIn layers stmts →
    F.Tracks t (executeAll (F.setting clock) n stmts) ((F.direct clock n).executeAll stmts) fun flow flow' u =>
      F.Flows u flow flow'
  executeFlat : ∀ {t layers stmts}, F.Valid t → t.Current layers → F.AlignedIn (.padding :: layers) stmts →
    F.Tracks t (Machine.execute (F.setting clock) n (.block stmts)) ((F.direct clock n).executeFlat stmts)
      fun flow flow' u => F.Flows u flow flow'

namespace Lockstep

theorem zero (F : Flattening) (clock : Nat → Float) : Lockstep F clock 0 := by
  constructor
  all_goals
    intros
    exact Tracks.stop (by assumption) .exhausted

variable {n : Nat} (ih : Lockstep F clock n) (valid : F.Valid t)

include ih valid

theorem evaluate_succ {e : Expr} (here : t.Current layers) (aligned : ∀ u ∈ e.uses, F.Aligns layers u) :
    F.Tracks t (Machine.evaluate (F.setting clock) (n + 1) e) ((F.direct clock (n + 1)).evaluate e) fun v v' u =>
      F.Values u v v' := by
  unfold Machine.evaluate
  cases e with
  | constant value => exact .pure valid (.ofPlain (Value.plain_ofConstant value))
  | read id name => exact .lookUp valid here (aligned _ List.mem_cons_self)
  | assign id name e =>
    obtain ⟨right, target⟩ := List.forall_mem_append.1 aligned
    have aligns := target _ List.mem_cons_self
    refine (ih.evaluate valid here right).bind fun v v' u steps value => ?_
    refine (Tracks.assign steps.valid (steps.covers here) aligns value).bind fun _ _ w later value => ?_
    exact .pure later.valid value
  | binary operator left right =>
    obtain ⟨first, second⟩ := List.forall_mem_append.1 aligned
    refine (ih.evaluate valid here first).bind fun x x' u steps left => ?_
    refine (ih.evaluate steps.valid (steps.covers here) second).bind fun y y' w later right => ?_
    exact .orFail later.valid (binary_eq operator (left.grow later.grows) right) fun _ => plain_binary
  | logical operator left right =>
    obtain ⟨first, second⟩ := List.forall_mem_append.1 aligned
    refine (ih.evaluate valid here first).bind fun x x' u steps left => ?_
    rw [left.truthy_eq]
    split
    · exact .pure steps.valid left
    · exact ih.evaluate steps.valid (steps.covers here) second
  | unary operator operand =>
    have inner : ∀ u ∈ operand.uses, F.Aligns layers u := aligned
    refine (ih.evaluate valid here inner).bind fun x x' u steps value => ?_
    exact .orFail steps.valid (unary_eq operator value) fun _ => plain_unary
  | group inner => exact ih.evaluate valid here aligned
  | call callee paren arguments =>
    obtain ⟨first, rest⟩ := List.forall_mem_append.1 aligned
    refine (ih.evaluate valid here first).bind fun f f' u steps callee => ?_
    refine (ih.evaluateAll steps.valid (steps.covers here) rest).bind fun vs vs' w later values => ?_
    exact ih.call later.valid (callee.grow later.grows) values
  | index target bracket place =>
    obtain ⟨first, second⟩ := List.forall_mem_append.1 aligned
    refine (ih.evaluate valid here first).bind fun x x' u steps target => ?_
    refine (ih.evaluate steps.valid (steps.covers here) second).bind fun y y' w later place => ?_
    exact .orFail later.valid (index_eq bracket (target.grow later.grows) place) fun _ => plain_index

theorem evaluateAll_succ {es : List Expr} (here : t.Current layers) (aligned : ∀ u ∈ Expr.usesIn es, F.Aligns layers u) :
    F.Tracks t (Machine.evaluateAll (F.setting clock) (n + 1) es) ((F.direct clock (n + 1)).evaluateAll es) fun vs vs' u =>
      List.Forall₂ (F.Values u) vs vs' := by
  unfold Machine.evaluateAll
  cases es with
  | nil => exact .pure valid .nil
  | cons e rest =>
    obtain ⟨first, others⟩ := List.forall_mem_append.1 aligned
    refine (ih.evaluate valid here first).bind fun v v' u steps value => ?_
    refine (ih.evaluateAll steps.valid (steps.covers here) others).bind fun vs vs' w later values => ?_
    exact .pure later.valid (.cons (value.grow later.grows) values)

theorem evaluate?_succ {e : Option Expr} (here : t.Current layers)
    (aligned : ∀ u ∈ (e.map Expr.uses).getD [], F.Aligns layers u) :
    F.Tracks t (Machine.evaluate? (F.setting clock) (n + 1) e) ((F.direct clock (n + 1)).evaluate? e) fun v v' u =>
      F.Values u v v' := by
  unfold Machine.evaluate?
  cases e with
  | none => exact .pure valid .nil
  | some e => exact ih.evaluate valid here aligned

theorem call_succ {paren : Token} {callee callee' : Value} {vs vs' : List Value} (same : F.Values t callee callee')
    (values : List.Forall₂ (F.Values t) vs vs') :
    F.Tracks t (Machine.call (F.setting clock) (n + 1) paren callee vs) ((F.direct clock (n + 1)).call paren callee' vs')
      fun v v' u => F.Values u v v' := by
  -- a function is called on both sides with the same number of arguments, at the same depth
  have called {serial : Nat} {callable callable' : Callable}
      (same : F.Values t (.function serial callable) (.function serial callable'))
      (arity : callable'.arity = callable.arity) :
      F.Tracks t (Machine.call (F.setting clock) (n + 1) paren (.function serial callable) vs)
        ((F.direct clock (n + 1)).call paren (.function serial callable') vs') fun v v' u => F.Values u v v' := by
    unfold Machine.call
    simp only [direct, Machine.direct, Procedures.next]
    rw [arity, ← values.length_eq]
    split
    · exact .fail valid _ _
    · apply Tracks.get
      rw [valid.depth]
      split
      · exact .fail valid _ _
      · refine .inCall valid (fun u valid' grows => ?_) fun _ _ _ _ grows value => value.grow grows
        exact ih.apply valid' (same.grow grows) (values.imp fun _ _ same => same.grow grows)
  cases same with
  | closure serial covers aligned => exact called (.closure serial covers aligned) rfl
  | builtin serial clock => exact called (.builtin serial clock) rfl
  | _ => exact .fail valid _ _

theorem apply_succ {serial : Nat} {callable callable' : Callable} {vs vs' : List Value}
    (same : F.Values t (.function serial callable) (.function serial callable'))
    (values : List.Forall₂ (F.Values t) vs vs') :
    F.Tracks t (Machine.apply (F.setting clock) (n + 1) callable vs) ((F.direct clock (n + 1)).apply callable' vs')
      fun v v' u => F.Values u v v' := by
  unfold Machine.apply
  cases same with
  | closure serial covers aligned =>
    refine (Tracks.newFrame valid covers).bind fun g g' u steps covers => ?_
    have values := values.imp fun _ _ same => same.grow steps.grows
    refine (Tracks.bindParameters steps.valid covers values).bind fun _ _ w later _ => ?_
    have there : (w.enter g g').Current _ := (covers.grow later.grows).grow (.enter w g g')
    have body := ih.executeAll (later.valid.enter g g') there aligned
    refine (Tracks.inFrame body fun _ _ _ _ grows flows => flows.grow grows).bind fun flow flow' _ last flows => ?_
    cases flows with
    | onward => exact .pure last.valid .nil
    | returned same => exact .pure last.valid same
  | builtin serial clock =>
    simp only [direct, Machine.direct, Procedures.next, clock]
    exact .readClock valid

theorem executeBody {stmt : Stmt} (here : t.Current layers) (aligned : F.Aligned layers true stmt) :
    F.Tracks t (Machine.execute (F.setting clock) n stmt) ((F.direct clock n).executeBody F.flat true stmt)
      fun flow flow' u => F.Flows u flow flow' := by
  cases stmt with
  | block stmts =>
    simp only [Aligned, Layer.ofBlock] at aligned
    simp only [Procedures.executeBody]
    by_cases flat : Stmt.isFlat F.flat true stmts = true
    · rw [if_pos flat] at aligned ⊢
      exact ih.executeFlat valid here aligned
    · rw [if_neg flat] at aligned ⊢
      exact ih.execute valid here aligned
  | _ => exact ih.execute valid here aligned

theorem execute_succ {stmt : Stmt} (here : t.Current layers) (aligned : F.Aligned layers false stmt) :
    F.Tracks t (Machine.execute (F.setting clock) (n + 1) stmt) ((F.direct clock (n + 1)).execute stmt)
      fun flow flow' u => F.Flows u flow flow' := by
  unfold Machine.execute
  cases stmt with
  | expression e =>
    refine (ih.evaluate valid here aligned).bind fun v v' u steps _ => ?_
    exact .pure steps.valid .onward
  | print e =>
    refine (ih.evaluate valid here aligned).bind fun v v' u steps value => ?_
    refine (Tracks.emit steps.valid value).bind fun _ _ w later _ => ?_
    exact .pure later.valid .onward
  | declare name initial =>
    obtain ⟨opened, value⟩ := aligned
    refine (ih.evaluate? valid here value).bind fun v v' u steps value => ?_
    refine (Tracks.define steps.valid (steps.covers here) opened value).bind fun _ _ w later _ => ?_
    exact .pure later.valid .onward
  | block body =>
    apply Tracks.get
    refine (Tracks.newFrame valid here).bind fun g g' u steps covers => ?_
    have there : (u.enter g g').Current _ := covers.grow (.enter u g g')
    have inside := ih.executeAll (steps.valid.enter g g') there aligned
    exact .inFrame inside fun _ _ _ _ grows flows => flows.grow grows
  | ifThen condition yes =>
    obtain ⟨test, holds⟩ := aligned
    refine (ih.evaluate valid here test).bind fun v v' u steps value => ?_
    rw [value.truthy_eq]
    split
    · exact ih.execute steps.valid (steps.covers here) holds
    · exact .pure steps.valid .onward
  | ifElse condition yes no =>
    obtain ⟨test, holds, fails⟩ := aligned
    refine (ih.evaluate valid here test).bind fun v v' u steps value => ?_
    rw [value.truthy_eq]
    split
    · exact ih.execute steps.valid (steps.covers here) holds
    · exact ih.execute steps.valid (steps.covers here) fails
  | loop condition body =>
    obtain ⟨test, again⟩ := aligned
    refine (ih.evaluate valid here test).bind fun v v' u steps value => ?_
    rw [value.truthy_eq]
    split
    · refine (ih.executeBody steps.valid (steps.covers here) again).bind fun flow flow' w later flows => ?_
      cases flows with
      | onward => exact ih.execute later.valid (later.covers (steps.covers here)) ⟨test, again⟩
      | returned same => exact .pure later.valid (.returned same)
    · exact .pure steps.valid .onward
  | function name parameters body =>
    obtain ⟨opened, inside⟩ := aligned
    apply Tracks.get
    refine (Tracks.newFunction valid).bind ?_
    rintro _ _ u steps ⟨serial, rfl, rfl⟩
    have declared : F.Values u (.function serial (.closure name parameters body t.left.current))
        (.function serial (.closure name parameters body t.right.current)) :=
      .closure serial (here.grow steps.grows) inside
    refine (Tracks.define steps.valid (steps.covers here) opened declared).bind fun _ _ w later _ => ?_
    exact .pure later.valid .onward
  | leave keyword value =>
    refine (ih.evaluate? valid here aligned).bind fun v v' u steps value => ?_
    exact .pure steps.valid (.returned value)

theorem executeAll_succ {stmts : List Stmt} (here : t.Current layers) (aligned : F.AlignedIn layers stmts) :
    F.Tracks t (Machine.executeAll (F.setting clock) (n + 1) stmts) ((F.direct clock (n + 1)).executeAll stmts)
      fun flow flow' u => F.Flows u flow flow' := by
  unfold Machine.executeAll
  cases stmts with
  | nil => exact .pure valid .onward
  | cons stmt rest =>
    obtain ⟨first, others⟩ := aligned
    refine (ih.execute valid here first).bind fun flow flow' u steps flows => ?_
    cases flows with
    | onward => exact ih.executeAll steps.valid (steps.covers here) others
    | returned same => exact .pure steps.valid (.returned same)

/-- The frame that only the first machine opens is padding. -/
theorem executeFlat_succ {stmts : List Stmt} (here : t.Current layers) (aligned : F.AlignedIn (.padding :: layers) stmts) :
    F.Tracks t (Machine.execute (F.setting clock) (n + 1) (.block stmts)) ((F.direct clock (n + 1)).executeFlat stmts)
      fun flow flow' u => F.Flows u flow flow' := by
  let padded := t.pad t.left.current
  have steps : F.Steps t padded := ⟨valid.pad _, .pad t _, rfl, rfl⟩
  have covers := here.pad (valid.lt_size here) valid.inside
  have there : (padded.enter t.left.store.frames.size t.right.current).Current _ := covers.grow (.enter padded _ _)
  have inside := ih.executeAll (steps.valid.enter _ _) there aligned
  have tracked : F.Tracks padded _ _ _ := Tracks.inFrame_left inside fun _ _ _ _ grows flows => flows.grow grows
  exact tracked.after steps

end Lockstep

theorem lockstep (F : Flattening) (clock : Nat → Float) (n : Nat) : Lockstep F clock n := by
  induction n with
  | zero => exact .zero F clock
  | succ n ih =>
    exact
      { evaluate := fun valid => ih.evaluate_succ valid
        evaluateAll := fun valid => ih.evaluateAll_succ valid
        evaluate? := fun valid => ih.evaluate?_succ valid
        call := fun valid => ih.call_succ valid
        apply := fun valid => ih.apply_succ valid
        execute := fun valid => ih.execute_succ valid
        executeAll := fun valid => ih.executeAll_succ valid
        executeFlat := fun valid => ih.executeFlat_succ valid }

end Flattening
end Scriptlet
