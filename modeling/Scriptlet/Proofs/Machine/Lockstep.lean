import Scriptlet.Proofs.Machine.Tracking

namespace Scriptlet.Likeness

open Machine

/-- Statements that hand on alike; `onward` is what holds if both go on. -/
inductive Flows (like : Likeness) (t : Twin) (onward : Prop) : Flow → Flow → Prop
  | onward (holds : onward) : Flows like t onward .onward .onward
  | returned {v v' : Value} (same : like.Values t v v') : Flows like t onward (.returned v) (.returned v')

/-- What all procedures do with a budget of `n` and one with `spare` more. -/
structure Lockstep (like : Likeness) (s s' : Setting) (spare n : Nat) : Prop where
  evaluate : ∀ {t p e e'}, like.Valid t → t.Renders t.left.current p → e.Paired like.token (like.use p) e' →
    Tracks like spare none t (evaluate s n e) (evaluate s' (n + spare) e') fun v v' u => like.Values u v v'
  evaluateAll : ∀ {t p es es'}, like.Valid t → t.Renders t.left.current p →
    Expr.PairedIn like.token (like.use p) es es' →
    Tracks like spare none t (evaluateAll s n es) (evaluateAll s' (n + spare) es') fun vs vs' u =>
      List.Forall₂ (like.Values u) vs vs'
  evaluate? : ∀ {t p e e'}, like.Valid t → t.Renders t.left.current p → Expr.Paired? like.token (like.use p) e e' →
    Tracks like spare none t (evaluate? s n e) (evaluate? s' (n + spare) e') fun v v' u => like.Values u v v'
  call : ∀ {t paren paren' f f' vs vs'}, like.Valid t → like.token paren paren' → like.Values t f f' →
    List.Forall₂ (like.Values t) vs vs' →
    Tracks like spare none t (call s n paren f vs) (call s' (n + spare) paren' f' vs') fun v v' u => like.Values u v v'
  apply : ∀ {t callable callable' vs vs'}, like.Valid t → like.Functions t callable callable' →
    List.Forall₂ (like.Values t) vs vs' → vs.length = callable.arity →
    Tracks like spare none t (apply s n callable vs) (apply s' (n + spare) callable' vs') fun v v' u =>
      like.Values u v v'
  execute : ∀ {t p q stmt stmt'}, like.Valid t → t.Renders t.left.current p → Stmt.Paired like p stmt stmt' q →
    Tracks like spare (some t.left.current) t (execute s n stmt) (execute s' (n + spare) stmt') fun flow flow' u =>
      like.Flows u (u.Renders u.left.current q) flow flow'
  executeAll : ∀ {t p stmts stmts'}, like.Valid t → t.Renders t.left.current p → Stmt.PairedIn like p stmts stmts' →
    Tracks like spare (some t.left.current) t (executeAll s n stmts) (executeAll s' (n + spare) stmts')
      fun flow flow' u => like.Flows u True flow flow'

variable {like : Likeness} {s s' : Setting} {spare n : Nat} {t : Twin} {p q : Place}

theorem Tracks.exhausted {α : Type} {spot : Option FrameId} {x x' : Run α} {P : α → α → Twin → Prop}
    (valid : like.Valid t) (first : x = throw .exhausted) (second : spare = 0 → x' = throw .exhausted) :
    Tracks like spare spot t x x' P := by
  subst first
  by_cases more : spare = 0
  · rw [second more]
    exact .stop valid .exhausted
  · exact .spent more _ _

theorem Tracks.staying {α : Type} {spot : Option FrameId} {x x' : Run α} {P : α → α → Twin → Prop}
    (h : Tracks like spare none t x x' P) (valid : like.Valid t) (renders : t.Renders t.left.current p) :
    Tracks like spare spot t x x' fun b b' u => P b b' u ∧ u.Renders u.left.current p :=
  (h.imp fun _ _ _ steps post => ⟨post, steps.renders valid renders⟩).anywhere

theorem Flows.leave {f : FrameId} {flow flow' : Flow} (h : like.Flows t True flow flow') :
    like.Flows (t.enter f) True flow flow' := by
  cases h with
  | onward holds => exact .onward holds
  | returned same => exact .returned (same.grow (.ofStores none rfl rfl rfl))

namespace Lockstep

theorem zero (like : Likeness) (s s' : Setting) (spare : Nat) : Lockstep like s s' spare 0 := by
  constructor
  all_goals
    intros
    refine .exhausted (by assumption) ?_ fun none => ?_
    · rfl
    · subst none
      rfl

variable (sound : like.Sound s s') (ih : Lockstep like s s' spare n) (valid : like.Valid t)

include sound ih valid

theorem evaluate_succ {e e' : Expr} (renders : t.Renders t.left.current p)
    (paired : e.Paired like.token (like.use p) e') :
    Tracks like spare none t (Machine.evaluate s (n + 1) e) (Machine.evaluate s' (n + 1 + spare) e') fun v v' u =>
      like.Values u v v' := by
  rw [Nat.add_right_comm]
  unfold Machine.evaluate
  cases paired with
  | constant value =>
    refine .pure valid ?_
    cases value <;> constructor
  | read same => exact .lookUp sound valid renders same
  | assign right same =>
    refine (ih.evaluate valid renders right).bind fun v v' u steps value => ?_
    have renders := steps.renders valid renders
    refine (Tracks.assign sound steps.valid renders same value).bind fun _ _ w later value => ?_
    exact .pure later.valid value
  | binary same first second =>
    refine (ih.evaluate valid renders first).bind fun x x' u steps left => ?_
    refine (ih.evaluate steps.valid (steps.renders valid renders) second).bind fun y y' w later right => ?_
    exact .orFail later.valid (binary_alike sound same (left.grow later.grows) right)
  | logical same first second =>
    refine (ih.evaluate valid renders first).bind fun x x' u steps left => ?_
    rw [left.truthy_eq, sound.kind same]
    split
    · exact .pure steps.valid left
    · exact ih.evaluate steps.valid (steps.renders valid renders) second
  | unary same inner =>
    refine (ih.evaluate valid renders inner).bind fun x x' u steps value => ?_
    exact .orFail steps.valid (unary_alike sound same value)
  | group inner => exact ih.evaluate valid renders inner
  | call first same rest =>
    refine (ih.evaluate valid renders first).bind fun f f' u steps callee => ?_
    refine (ih.evaluateAll steps.valid (steps.renders valid renders) rest).bind fun vs vs' w later values => ?_
    exact ih.call later.valid same (callee.grow later.grows) values
  | index first same second =>
    refine (ih.evaluate valid renders first).bind fun x x' u steps target => ?_
    refine (ih.evaluate steps.valid (steps.renders valid renders) second).bind fun y y' w later place => ?_
    exact .orFail later.valid (index_alike same (target.grow later.grows) place)

omit sound in
theorem evaluateAll_succ {es es' : List Expr} (renders : t.Renders t.left.current p)
    (paired : Expr.PairedIn like.token (like.use p) es es') :
    Tracks like spare none t (Machine.evaluateAll s (n + 1) es) (Machine.evaluateAll s' (n + 1 + spare) es')
      fun vs vs' u => List.Forall₂ (like.Values u) vs vs' := by
  rw [Nat.add_right_comm]
  unfold Machine.evaluateAll
  cases paired with
  | nil => exact .pure valid .nil
  | cons first others =>
    refine (ih.evaluate valid renders first).bind fun v v' u steps value => ?_
    refine (ih.evaluateAll steps.valid (steps.renders valid renders) others).bind fun vs vs' w later values => ?_
    exact .pure later.valid (.cons (value.grow later.grows) values)

omit sound in
theorem evaluate?_succ {e e' : Option Expr} (renders : t.Renders t.left.current p)
    (paired : Expr.Paired? like.token (like.use p) e e') :
    Tracks like spare none t (Machine.evaluate? s (n + 1) e) (Machine.evaluate? s' (n + 1 + spare) e')
      fun v v' u => like.Values u v v' := by
  rw [Nat.add_right_comm]
  unfold Machine.evaluate?
  cases paired with
  | none => exact .pure valid .nil
  | some inner => exact ih.evaluate valid renders inner

omit sound in
theorem call_succ {paren paren' : Token} {f f' : Value} {vs vs' : List Value} (place : like.token paren paren')
    (callee : like.Values t f f') (values : List.Forall₂ (like.Values t) vs vs') :
    Tracks like spare none t (Machine.call s (n + 1) paren f vs) (Machine.call s' (n + 1 + spare) paren' f' vs')
      fun v v' u => like.Values u v v' := by
  rw [Nat.add_right_comm]
  unfold Machine.call
  cases callee with
  | function serial same =>
    dsimp only
    rw [same.arity_eq, ← values.length_eq]
    split
    · exact .fail valid place (.same _)
    · next arity =>
      apply Tracks.get
      rw [valid.depth]
      split
      · exact .fail valid place (.same _)
      · have grows : Twin.Grows none t (Tracks.deeper t) := .ofStores none rfl rfl rfl
        have deeper : like.Values (Tracks.deeper t) (.function serial _) (.function serial _) :=
          Values.grow (.function serial same) grows
        cases deeper with
        | function _ same =>
          have applied := ih.apply (Tracks.valid_deeper valid) same (values.imp fun _ _ same => same.grow grows)
            (Decidable.not_not.1 arity)
          exact .inCall applied fun v v' u value => value.grow (.ofStores none rfl rfl rfl)
  | _ => exact .fail valid place (.same _)

theorem apply_succ {callable callable' : Callable} {vs vs' : List Value} (same : like.Functions t callable callable')
    (values : List.Forall₂ (like.Values t) vs vs') (arity : vs.length = callable.arity) :
    Tracks like spare none t (Machine.apply s (n + 1) callable vs) (Machine.apply s' (n + 1 + spare) callable' vs')
      fun v v' u => like.Values u v v' := by
  rw [Nat.add_right_comm]
  unfold Machine.apply
  cases same with
  | closure lexeme covers opens binds inside keeps =>
    refine Tracks.outside (f := t.size) ?_ (Nat.le_refl _)
    refine (Tracks.newFrame sound valid covers opens).bind ?_
    rintro _ _ u steps ⟨rfl, rfl, renders⟩
    have values := values.imp fun _ _ same => same.grow steps.grows
    refine (Tracks.bindParameters sound steps.valid renders binds values arity).bind fun _ _ w later renders => ?_
    have within := renders.covers.lt_size (Nat.zero_lt_of_lt later.valid.inside)
    have moved : Twin.Grows none w (w.enter t.size) := .ofStores none rfl rfl rfl
    have there : (w.enter t.size).Renders t.size _ := renders.grow (Nat.zero_lt_of_lt later.valid.inside) moved
    have body := ih.executeAll (later.valid.enter within) there inside
    refine Tracks.bind (P := fun flow flow' u => like.Flows u True flow flow') ?_ fun flow flow' _ last flows => ?_
    · exact .inFrame later.valid body fun _ _ _ => Flows.leave
    · cases flows with
      | onward _ => exact .pure last.valid .nil
      | returned same => exact .pure last.valid same
  | builtin clock =>
    simp only [clock]
    exact .readClock valid sound.clock

theorem execute_succ {stmt stmt' : Stmt} (renders : t.Renders t.left.current p)
    (paired : Stmt.Paired like p stmt stmt' q) :
    Tracks like spare (some t.left.current) t (Machine.execute s (n + 1) stmt)
      (Machine.execute s' (n + 1 + spare) stmt') fun flow flow' u =>
        like.Flows u (u.Renders u.left.current q) flow flow' := by
  rw [Nat.add_right_comm]
  unfold Machine.execute
  cases paired with
  | expression value =>
    refine ((ih.evaluate valid renders value).staying valid renders).bind fun v v' u steps ⟨_, renders⟩ => ?_
    exact .pure steps.valid (.onward renders)
  | print value =>
    refine ((ih.evaluate valid renders value).staying valid renders).bind fun v v' u steps ⟨value, renders⟩ => ?_
    have printed : Tracks like spare none u _ _ _ := .emit steps.valid value
    refine (printed.staying steps.valid renders).bind fun _ _ w later ⟨_, renders⟩ => ?_
    exact .pure later.valid (.onward renders)
  | declare value declares =>
    refine ((ih.evaluate? valid renders value).staying valid renders).bind fun v v' u steps ⟨value, renders⟩ => ?_
    have inside := renders.covers.lt_size (Nat.zero_lt_of_lt steps.valid.inside)
    rw [← steps.current]
    refine (Tracks.define sound steps.valid renders declares (value.grow (.add inside steps.valid.size))).bind ?_
    exact fun _ _ w later renders => .pure later.valid (.onward renders)
  | block opens inside =>
    apply Tracks.get
    rw [valid.current]
    refine (Tracks.imp (P := fun flow flow' u => like.Flows u True flow flow') ?_ ?_).anywhere
    · -- the frame of the block is not there when the block is entered
      refine Tracks.outside (f := t.size) ?_ (Nat.le_refl _)
      refine (Tracks.newFrame sound valid renders.covers opens).bind ?_
      rintro _ _ u steps ⟨rfl, rfl, renders⟩
      have within := renders.covers.lt_size (Nat.zero_lt_of_lt steps.valid.inside)
      have there : (u.enter t.size).Renders t.size _ :=
        renders.grow (Nat.zero_lt_of_lt steps.valid.inside) (.ofStores none rfl rfl rfl)
      exact .inFrame steps.valid (ih.executeAll (steps.valid.enter within) there inside) fun _ _ _ => Flows.leave
    · intro flow flow' u steps flows
      cases flows with
      | onward _ => exact .onward (steps.renders valid renders)
      | returned same => exact .returned same
  | ifThen test holds =>
    refine ((ih.evaluate valid renders test).staying valid renders).bind fun v v' u steps ⟨value, renders⟩ => ?_
    rw [value.truthy_eq, ← steps.current]
    split
    · exact ih.execute steps.valid renders holds
    · exact .pure steps.valid (.onward renders)
  | ifElse test holds fails =>
    refine ((ih.evaluate valid renders test).staying valid renders).bind fun v v' u steps ⟨value, renders⟩ => ?_
    rw [value.truthy_eq, ← steps.current]
    split
    · exact ih.execute steps.valid renders holds
    · exact ih.execute steps.valid renders fails
  | loop test again =>
    refine ((ih.evaluate valid renders test).staying valid renders).bind fun v v' u steps ⟨value, renders⟩ => ?_
    rw [value.truthy_eq, ← steps.current]
    split
    · refine (ih.execute steps.valid renders again).bind fun flow flow' w later flows => ?_
      cases flows with
      | onward renders =>
        rw [← later.current]
        exact ih.execute later.valid renders (.loop test again)
      | returned same => exact .pure later.valid (.returned same)
    · exact .pure steps.valid (.onward renders)
  | function declares lexeme opens binds inside keeps =>
    apply Tracks.get
    rw [valid.current]
    refine ((Tracks.newFunction valid).staying valid renders).bind ?_
    rintro _ _ u steps ⟨⟨serial, rfl, rfl⟩, renders⟩
    rw [← steps.current]
    refine (Tracks.define sound steps.valid renders declares ?_).bind fun _ _ w later renders => ?_
    · -- the body may call the function by its name, which the definition itself binds
      refine .function serial (.closure lexeme ?_ opens binds inside keeps)
      exact (Tracks.renders_add steps.valid renders declares).covers
    · exact .pure later.valid (.onward renders)
  | leave result =>
    refine ((ih.evaluate? valid renders result).staying valid renders).bind fun v v' u steps ⟨value, _⟩ => ?_
    exact .pure steps.valid (.returned value)

omit sound in
theorem executeAll_succ {stmts stmts' : List Stmt} (renders : t.Renders t.left.current p)
    (paired : Stmt.PairedIn like p stmts stmts') :
    Tracks like spare (some t.left.current) t (Machine.executeAll s (n + 1) stmts)
      (Machine.executeAll s' (n + 1 + spare) stmts') fun flow flow' u => like.Flows u True flow flow' := by
  rw [Nat.add_right_comm]
  unfold Machine.executeAll
  cases paired with
  | nil => exact .pure valid (.onward trivial)
  | cons first others =>
    refine (ih.execute valid renders first).bind fun flow flow' u steps flows => ?_
    cases flows with
    | onward renders =>
      rw [← steps.current]
      exact ih.executeAll steps.valid renders others
    | returned same => exact .pure steps.valid (.returned same)

end Lockstep

theorem lockstep (sound : like.Sound s s') (spare n : Nat) : Lockstep like s s' spare n := by
  induction n with
  | zero => exact .zero like s s' spare
  | succ n ih =>
    exact
      { evaluate := fun valid => ih.evaluate_succ sound valid
        evaluateAll := fun valid => ih.evaluateAll_succ valid
        evaluate? := fun valid => ih.evaluate?_succ valid
        call := fun valid => ih.call_succ valid
        apply := fun valid => ih.apply_succ sound valid
        execute := fun valid => ih.execute_succ sound valid
        executeAll := fun valid => ih.executeAll_succ valid }

end Scriptlet.Likeness
