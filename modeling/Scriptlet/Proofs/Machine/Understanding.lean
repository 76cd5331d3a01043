import Scriptlet.Proofs.Grammar.Operator
import Scriptlet.Proofs.Machine.Outcome
import Scriptlet.Proofs.Machine.Origin

namespace Scriptlet

def Callable.Understood : Callable → Prop
  | .closure _ _ body _ => Stmt.UnderstoodIn body
  | .builtin _ => True

def Value.Understood : Value → Prop
  | .function _ callable => callable.Understood
  | .nil | .boolean _ | .number _ | .text _ => True

theorem Value.understood_headD {values : List Value} (h : ∀ v ∈ values, v.Understood) :
    (values.headD .nil).Understood := by
  cases values with
  | nil => trivial
  | cons v values => exact h v List.mem_cons_self

theorem Value.understood_getLastD {values : List Value} (h : ∀ v ∈ values, v.Understood) :
    (values.getLastD .nil).Understood := by
  rcases List.eq_nil_or_concat values with rfl | ⟨values, v, rfl⟩
  · trivial
  · simpa using h v (by simp)

theorem Value.Plain.understood {v : Value} (h : v.Plain) : v.Understood := by
  cases v with
  | function => exact h.elim
  | _ => trivial

namespace Machine

variable {α β : Type} {s : Setting} {m : Machine} {v : Value}

def Understands (m : Machine) : Prop :=
  ∀ f x v, m.store.find? f x = some v → v.Understood

theorem Understands.add (h : m.Understands) (hv : v.Understood) (frame : FrameId) (x : String) :
    Understands { m with store := m.store.add frame x v } := by
  by_cases there : frame < m.store.frames.size
  · intro f y w found
    rw [Store.find?_add there] at found
    split at found
    · exact Option.some.inj found ▸ hv
    · exact h f y w found
  · rw [Store.add, Store.update_of_size_le (Nat.le_of_not_lt there)]
    exact h

theorem Understands.replace (h : m.Understands) (hv : v.Understood) (frame : FrameId) (x : String) :
    Understands { m with store := m.store.replace frame x v } := by
  intro f y w found
  obtain ⟨old, there, rfl⟩ := Option.map_eq_some_iff.1 ((Store.find?_replace ..).symm.trans found)
  split
  · exact hv
  · exact h f y old there

def Stop.Understood : Stop → Prop
  | .failed e => (∀ operator, e.cause ≠ .unknownUnary operator) ∧ ∀ operator, e.cause ≠ .unknownBinary operator
  | .defective _ | .exhausted => True

def Flow.Understood : Flow → Prop
  | .onward => True
  | .returned v => v.Understood

theorem understood_unary {operator : Token} {x : Value} {e : Located Fault} (fits : operator.kind ∈ unaryOperators)
    (h : unary operator x = .error e) : (Stop.failed e).Understood := by
  unfold unary at h
  split at h <;> cases h
  · simp [Stop.Understood]
  · simp_all [unaryOperators]

theorem understood_arithmetic {operator : Token} {x y : Float} {e : Located Fault}
    (fits : operator.kind ∈ binaryOperators) (equal : operator.kind ≠ .equal) (notEqual : operator.kind ≠ .notEqual)
    (plus : operator.kind ≠ .plus) (h : arithmetic operator x y = .error e) : (Stop.failed e).Understood := by
  unfold arithmetic at h
  split at h <;> cases h
  simp_all [binaryOperators]

theorem understood_binary {operator : Token} {x y : Value} {e : Located Fault} (fits : operator.kind ∈ binaryOperators)
    (h : binary operator x y = .error e) : (Stop.failed e).Understood := by
  unfold binary at h
  split at h
  case h_6 equal notEqual plus => exact understood_arithmetic fits equal notEqual plus h
  all_goals cases h
  · simp [Stop.Understood]
  · simp [Stop.Understood]

/-- From a machine that understands its functions, a run comes to such a machine again, with a result of which `P` holds or
with a stop for another reason than an operator. -/
def Safe (run : Run α) (P : α → Prop) : Prop :=
  ∀ m, m.Understands → match run m with
    | .ok a m' => m'.Understands ∧ P a
    | .error stop m' => m'.Understands ∧ stop.Understood

namespace Safe

variable {run : Run α} {f : α → Run β} {P P' : α → Prop} {Q : β → Prop}

theorem pure {a : α} (h : P a) : Safe (pure a) P :=
  fun _ understands => ⟨understands, h⟩

theorem throws {stop : Stop} (h : stop.Understood) : Safe (throw stop : Run α) P :=
  fun _ understands => ⟨understands, h⟩

theorem bind (h : Safe run P) (k : ∀ a, P a → Safe (f a) Q) : Safe (run >>= f) Q := by
  intro m understands
  have first := h m understands
  change match EStateM.bind run f m with | .ok _ _ => _ | .error _ _ => _
  unfold EStateM.bind
  cases ran : run m with
  | ok a m' =>
    rw [ran] at first
    exact k a first.2 m' first.1
  | error stop m' =>
    rw [ran] at first
    exact first

theorem get {f : Machine → Run β} (h : ∀ m, Safe (f m) Q) : Safe (MonadState.get >>= f) Q :=
  fun m understands => h m m understands

theorem beside {act : Machine → α × Machine} (same : ∀ m, (act m).2.store = m.store) (h : ∀ m, P (act m).1) :
    Safe (modifyGet act) P := by
  intro m understands
  refine ⟨fun f x v found => ?_, h m⟩
  exact understands f x v (same m ▸ found)

theorem fail {token : Token} {fault : Fault} (h : (Stop.failed ⟨token, fault⟩).Understood) :
    Safe (Machine.fail token fault : Run α) P :=
  .throws h

theorem orFail {r : Except (Located Fault) α} (done : ∀ a, r = .ok a → P a)
    (failed : ∀ e, r = .error e → (Stop.failed e).Understood) : Safe (Machine.orFail r) P := by
  cases r with
  | ok a => exact .pure (done a rfl)
  | error e => exact .throws (failed e rfl)

theorem inFrame (h : Safe run P) (frame : FrameId) : Safe (Machine.inFrame frame run) P := by
  intro m understands
  have ends := h { m with current := frame } understands
  unfold Machine.inFrame
  cases ran : run { m with current := frame } with
  | ok a m' =>
    rw [ran] at ends
    exact ends
  | error stop m' =>
    rw [ran] at ends
    exact ends

theorem inCall (h : Safe run P) : Safe (Machine.inCall run) P := by
  intro m understands
  have ends := h { m with depth := m.depth + 1 } understands
  unfold Machine.inCall
  cases ran : run { m with depth := m.depth + 1 } with
  | ok a m' =>
    rw [ran] at ends
    exact ends
  | error stop m' =>
    rw [ran] at ends
    exact ends

theorem emit (v : Value) : Safe (Machine.emit v) fun _ => True :=
  beside (fun _ => rfl) fun _ => trivial

theorem emitAll (values : List Value) : Safe (values.forM Machine.emit) fun _ => True := by
  induction values with
  | nil => exact .pure trivial
  | cons v values ih => exact (emit v).bind fun _ _ => ih

theorem newFrame (parent : FrameId) : Safe (Machine.newFrame parent) fun _ => True :=
  fun _ understands => ⟨fun f x v found => understands f x v ((Store.find?_child ..).symm.trans found), trivial⟩

theorem newFunction {callable : Callable} (h : callable.Understood) :
    Safe (Machine.newFunction callable) Value.Understood :=
  beside (fun _ => rfl) fun _ => h

theorem readClock (s : Setting) : Safe (Machine.readClock s) Value.Understood :=
  beside (fun _ => rfl) fun _ => trivial

theorem defineIn (hv : v.Understood) (frame : FrameId) (name : Token) :
    Safe (Machine.defineIn frame name v) fun _ => True := by
  intro m understands
  unfold Machine.defineIn write Store.free
  dsimp only
  by_cases bound : m.store.binds frame name.lexeme = true
  · rw [if_pos bound]
    exact ⟨understands, by simp [Stop.Understood]⟩
  · rw [if_neg bound]
    exact ⟨understands.add hv frame name.lexeme, trivial⟩

theorem define (hv : v.Understood) (name : Token) : Safe (Machine.define name v) fun _ => True :=
  fun m understands => defineIn hv m.current name m understands

theorem bindParameters {values : List Value} (h : ∀ v ∈ values, v.Understood) (frame : FrameId) (parameters : List Token) :
    Safe (Machine.bindParameters frame parameters values) fun _ => True := by
  induction parameters generalizing values with
  | nil => exact .pure trivial
  | cons name parameters ih =>
    cases values with
    | nil => exact .pure trivial
    | cons v values =>
      have first := h v List.mem_cons_self
      exact (defineIn first frame name).bind fun _ _ => ih fun w mem => h w (List.mem_cons_of_mem v mem)

theorem understood_of_target {id : UseId} {name : Token} {stop : Stop} (h : target s id name m = .error stop) :
    stop.Understood := by
  rcases target_error h with rfl | ⟨d, rfl⟩
  · simp [Stop.Understood]
  · trivial

theorem lookUp (s : Setting) (id : UseId) (name : Token) : Safe (Machine.lookUp s id name) Value.Understood := by
  intro m understands
  cases found : target s id name m with
  | ok f =>
    obtain ⟨v, there⟩ := find?_of_target found
    rw [lookUp_of_target found there]
    exact ⟨understands, understands f _ v there⟩
  | error stop =>
    rw [lookUp_of_target_error found]
    exact ⟨understands, understood_of_target found⟩

theorem assign (hv : v.Understood) (s : Setting) (id : UseId) (name : Token) :
    Safe (Machine.assign s id name v) fun _ => True := by
  intro m understands
  rw [assign_eq]
  cases found : target s id name m with
  | ok f => exact ⟨understands.replace hv f name.lexeme, trivial⟩
  | error stop => exact ⟨understands, understood_of_target found⟩

end Safe

structure SafeRuns (s : Setting) (n : Nat) : Prop where
  evaluate : ∀ e, e.Understood → Safe (evaluate s n e) Value.Understood
  evaluateAll : ∀ es, Expr.UnderstoodIn es → Safe (evaluateAll s n es) fun values => ∀ v ∈ values, v.Understood
  evaluate? : ∀ e?, (∀ e ∈ e?, e.Understood) → Safe (evaluate? s n e?) Value.Understood
  call : ∀ paren f values, f.Understood → (∀ v ∈ values, v.Understood) → Safe (call s n paren f values) Value.Understood
  apply : ∀ callable values, callable.Understood → (∀ v ∈ values, v.Understood) →
    Safe (apply s n callable values) Value.Understood
  execute : ∀ stmt, stmt.Understood → Safe (execute s n stmt) Flow.Understood
  executeAll : ∀ stmts, Stmt.UnderstoodIn stmts → Safe (executeAll s n stmts) Flow.Understood

namespace SafeRuns

variable {n : Nat}

theorem evaluate_succ (ih : SafeRuns s n) (e : Expr) (h : e.Understood) :
    Safe (Machine.evaluate s (n + 1) e) Value.Understood := by
  unfold Machine.evaluate
  cases e with
  | constant value => exact .pure (Value.plain_ofConstant value).understood
  | group inner => exact ih.evaluate inner h
  | read id name => exact .lookUp s id name
  | assign id name e =>
    refine (ih.evaluate e h).bind fun v hv => ?_
    exact (Safe.assign hv s id name).bind fun _ _ => .pure hv
  | logical operator left right =>
    refine (ih.evaluate left h.2.1).bind fun v hv => ?_
    split
    · exact .pure hv
    · exact ih.evaluate right h.2.2
  | unary operator e =>
    refine (ih.evaluate e h.2).bind fun v _ => ?_
    exact .orFail (fun w done => (plain_unary done).understood) fun fault failed => understood_unary h.1 failed
  | binary operator left right =>
    refine (ih.evaluate left h.2.1).bind fun x _ => (ih.evaluate right h.2.2).bind fun y _ => ?_
    exact .orFail (fun w done => (plain_binary done).understood) fun fault failed => understood_binary h.1 failed
  | call callee paren arguments =>
    refine (ih.evaluate callee h.1).bind fun f hf => (ih.evaluateAll arguments h.2).bind fun values hv => ?_
    exact ih.call paren f values hf hv
  | index target bracket place =>
    refine (ih.evaluate target h.1).bind fun x _ => (ih.evaluate place h.2).bind fun y _ => ?_
    refine .orFail (fun w done => (plain_index done).understood) fun fault failed => ?_
    cases index_error failed
    simp [Stop.Understood]

theorem evaluateAll_succ (ih : SafeRuns s n) (es : List Expr) (h : Expr.UnderstoodIn es) :
    Safe (Machine.evaluateAll s (n + 1) es) fun values => ∀ v ∈ values, v.Understood := by
  unfold Machine.evaluateAll
  cases es with
  | nil => exact .pure (by simp)
  | cons e rest =>
    refine (ih.evaluate e h.1).bind fun v hv => (ih.evaluateAll rest h.2).bind fun values hvs => ?_
    exact .pure (List.forall_mem_cons.2 ⟨hv, hvs⟩)

theorem evaluate?_succ (ih : SafeRuns s n) (e? : Option Expr) (h : ∀ e ∈ e?, e.Understood) :
    Safe (Machine.evaluate? s (n + 1) e?) Value.Understood := by
  unfold Machine.evaluate?
  cases e? with
  | none => exact .pure trivial
  | some e => exact ih.evaluate e (h e rfl)

theorem call_succ (ih : SafeRuns s n) (paren : Token) (f : Value) (values : List Value) (hf : f.Understood)
    (hv : ∀ v ∈ values, v.Understood) : Safe (Machine.call s (n + 1) paren f values) Value.Understood := by
  cases f with
  | function serial callable =>
    unfold Machine.call
    split
    · exact .fail (by simp [Stop.Understood])
    · refine .get fun m => ?_
      split
      · exact .fail (by simp [Stop.Understood])
      · exact (ih.apply callable values hf hv).inCall
  | _ => exact Safe.fail (by simp [Stop.Understood])

theorem apply_succ (ih : SafeRuns s n) (callable : Callable) (values : List Value) (hc : callable.Understood)
    (hv : ∀ v ∈ values, v.Understood) : Safe (Machine.apply s (n + 1) callable values) Value.Understood := by
  cases callable with
  | closure name parameters body outer =>
    unfold Machine.apply
    refine (Safe.newFrame outer).bind fun frame _ => (Safe.bindParameters hv frame parameters).bind fun _ _ => ?_
    refine ((ih.executeAll body hc).inFrame frame).bind fun flow hflow => ?_
    cases flow with
    | onward => exact .pure trivial
    | returned v => exact .pure hflow
  | builtin builtin =>
    unfold Machine.apply
    split
    · exact .readClock s
    · exact .pure trivial
    · exact .pure trivial
    · exact .pure (Value.understood_getLastD hv)
    · exact (Safe.emitAll _).bind fun _ _ => .pure trivial
    · exact .fail (by simp [Stop.Understood])
    · next serial callable values _ =>
      obtain ⟨hf, hv⟩ := List.forall_mem_cons.1 hv
      exact ih.apply callable values hf hv
    · exact .pure (Value.understood_headD hv)
    · exact .pure trivial

theorem execute_succ (ih : SafeRuns s n) (stmt : Stmt) (h : stmt.Understood) :
    Safe (Machine.execute s (n + 1) stmt) Flow.Understood := by
  unfold Machine.execute
  cases stmt with
  | expression e => exact (ih.evaluate e h).bind fun _ _ => .pure trivial
  | print e => exact (ih.evaluate e h).bind fun v _ => (Safe.emit v).bind fun _ _ => .pure trivial
  | declare name initial =>
    exact (ih.evaluate? initial h).bind fun v hv => (Safe.define hv name).bind fun _ _ => .pure trivial
  | block body =>
    refine .get fun m => (Safe.newFrame m.current).bind fun frame _ => ?_
    exact (ih.executeAll body h).inFrame frame
  | ifThen condition yes =>
    refine (ih.evaluate condition h.1).bind fun v _ => ?_
    split
    · exact ih.execute yes h.2
    · exact .pure trivial
  | ifElse condition yes no =>
    refine (ih.evaluate condition h.1).bind fun v _ => ?_
    split
    · exact ih.execute yes h.2.1
    · exact ih.execute no h.2.2
  | loop condition body =>
    refine (ih.evaluate condition h.1).bind fun v _ => ?_
    split
    · refine (ih.execute body h.2).bind fun flow hflow => ?_
      cases flow with
      | onward => exact ih.execute (.loop condition body) h
      | returned v => exact .pure hflow
    · exact .pure trivial
  | function name parameters body =>
    refine .get fun m => ?_
    have made : Callable.Understood (.closure name parameters body m.current) := h
    exact (Safe.newFunction made).bind fun f hf => (Safe.define hf name).bind fun _ _ => .pure trivial
  | leave keyword value => exact (ih.evaluate? value h).bind fun v hv => .pure hv

theorem executeAll_succ (ih : SafeRuns s n) (stmts : List Stmt) (h : Stmt.UnderstoodIn stmts) :
    Safe (Machine.executeAll s (n + 1) stmts) Flow.Understood := by
  unfold Machine.executeAll
  cases stmts with
  | nil => exact .pure trivial
  | cons stmt rest =>
    refine (ih.execute stmt h.1).bind fun flow hflow => ?_
    cases flow with
    | onward => exact ih.executeAll rest h.2
    | returned v => exact .pure hflow

end SafeRuns

theorem safeRuns (s : Setting) : ∀ n, SafeRuns s n
  | 0 => ⟨fun _ _ => .throws trivial, fun _ _ => .throws trivial, fun _ _ => .throws trivial,
      fun _ _ _ _ _ => .throws trivial, fun _ _ _ _ => .throws trivial, fun _ _ => .throws trivial,
      fun _ _ => .throws trivial⟩
  | n + 1 =>
    have ih := safeRuns s n
    ⟨ih.evaluate_succ, ih.evaluateAll_succ, ih.evaluate?_succ, ih.call_succ, ih.apply_succ, ih.execute_succ,
      ih.executeAll_succ⟩

end Machine
end Scriptlet
