import Scriptlet.Proofs.Address.Record
import Scriptlet.Proofs.Machine.Moment
import Scriptlet.Proofs.Machine.Target

namespace Scriptlet.Machine

variable {α β : Type} {s : Setting} {n k : Nat} {task task' : Task} {m m₁ m' : Machine} {stop : Stop}

def Stops (run : Run α) (m : Machine) (stop : Stop) : Prop :=
  ∃ m', run m = .error stop m'

section Run

variable {run : Run α} {a : α}

theorem stops_bind {f : α → Run β} :
    Stops (run >>= f) m stop ↔ Stops run m stop ∨ ∃ a m₁, run m = .ok a m₁ ∧ Stops (f a) m₁ stop := by
  constructor
  · rintro ⟨m', run⟩
    rcases bind_eq_error.1 run with first | ⟨a, m₁, first, later⟩
    · exact .inl ⟨m', first⟩
    · exact .inr ⟨a, m₁, first, m', later⟩
  · rintro (⟨m', first⟩ | ⟨a, m₁, first, m', later⟩)
    · exact ⟨m', bind_eq_error.2 (.inl first)⟩
    · exact ⟨m', bind_eq_error.2 (.inr ⟨a, m₁, first, later⟩)⟩

theorem stops_get {f : Machine → Run β} (h : Stops (get >>= f) m stop) : Stops (f m) m stop := h

theorem not_stops (ran : run m = .ok a m') : ¬Stops run m stop := by
  rintro ⟨_, stops⟩
  cases ran.symm.trans stops

theorem stops_fail {token : Token} {fault : Fault} (h : Stops (fail token fault : Run α) m stop) :
    stop = .failed ⟨token, fault⟩ := by
  obtain ⟨_, ⟨⟩⟩ := h
  rfl

theorem stops_orFail {r : Except (Located Fault) α} (h : Stops (orFail r) m stop) :
    ∃ e, r = .error e ∧ stop = .failed e := by
  cases r with
  | ok a => exact absurd h (not_stops rfl)
  | error e =>
    obtain ⟨_, ⟨⟩⟩ := h
    exact ⟨e, rfl, rfl⟩

theorem stops_inFrame {frame : FrameId} (h : Stops (inFrame frame run) m stop) :
    Stops run { m with current := frame } stop := by
  obtain ⟨_, stops⟩ := h
  unfold inFrame at stops
  split at stops
  · cases stops
  · next failed =>
    cases stops
    exact ⟨_, failed⟩

theorem stops_inCall (h : Stops (inCall run) m stop) : Stops run { m with depth := m.depth + 1 } stop := by
  obtain ⟨_, stops⟩ := h
  unfold inCall at stops
  split at stops
  · cases stops
  · next failed =>
    cases stops
    exact ⟨_, failed⟩

theorem not_stops_emitAll (values : List Value) : ¬Stops (values.forM emit) m stop := by
  induction values generalizing m with
  | nil => exact not_stops rfl
  | cons v values ih =>
    intro stops
    rcases stops_bind.1 stops with first | ⟨_, _, _, later⟩
    · exact not_stops rfl first
    · exact ih later

end Run

section Primitive

variable {id : UseId} {name operator bracket : Token} {frame : FrameId} {v x y : Value} {e : Located Fault}

theorem target_error (h : target s id name m = .error stop) :
    stop = .failed ⟨name, .undefined name.lexeme⟩ ∨ ∃ d, stop = .defective d := by
  have missing {frame : FrameId} (h : (m.store.owner frame name).mapError Stop.failed = .error stop) :
      stop = .failed ⟨name, .undefined name.lexeme⟩ := by
    obtain ⟨e, missed, rfl⟩ := mapError_eq_error.1 h
    unfold Store.owner at missed
    split at missed <;> cases missed
    rfl
  unfold target at h
  split at h
  · exact .inl (missing h)
  · exact .inl (missing h)
  · obtain ⟨d, _, rfl⟩ := mapError_eq_error.1 h
    exact .inr ⟨d, rfl⟩

theorem stops_lookUp (h : Stops (lookUp s id name) m stop) : target s id name m = .error stop := by
  cases found : target s id name m with
  | ok frame =>
    obtain ⟨v, value⟩ := find?_of_target found
    exact absurd h (not_stops (lookUp_of_target found value))
  | error other =>
    obtain ⟨_, stops⟩ := h
    cases (lookUp_of_target_error found).symm.trans stops
    rfl

theorem stops_assign (h : Stops (assign s id name v) m stop) : target s id name m = .error stop := by
  obtain ⟨_, stops⟩ := h
  rw [assign_eq] at stops
  split at stops
  · cases stops
  · next missed =>
    cases stops
    exact missed

theorem stops_defineIn (h : Stops (defineIn frame name v) m stop) :
    m.store.binds frame name.lexeme = true ∧ stop = .failed ⟨name, .redefined name.lexeme⟩ := by
  obtain ⟨_, stops⟩ := h
  unfold defineIn write Store.free at stops
  dsimp only at stops
  by_cases bound : m.store.binds frame name.lexeme = true
  · rw [if_pos bound] at stops
    cases stops
    exact ⟨bound, rfl⟩
  · rw [if_neg bound] at stops
    cases stops

theorem stops_define (h : Stops (define name v) m stop) :
    m.store.binds m.current name.lexeme = true ∧ stop = .failed ⟨name, .redefined name.lexeme⟩ :=
  stops_defineIn (show Stops (defineIn m.current name v) m stop from h)

theorem stops_bindParameters {parameters : List Token} {values : List Value}
    (h : Stops (bindParameters frame parameters values) m stop) :
    ∃ before name after firsts v rest m', parameters = before ++ name :: after ∧ values = firsts ++ v :: rest ∧
      firsts.length = before.length ∧ bindParameters frame before firsts m = .ok () m' ∧
      m'.store.binds frame name.lexeme = true ∧ stop = .failed ⟨name, .redefined name.lexeme⟩ := by
  induction parameters generalizing m values with
  | nil => exact absurd h (not_stops rfl)
  | cons name parameters ih =>
    cases values with
    | nil => exact absurd h (not_stops rfl)
    | cons v values =>
      rcases stops_bind.1 h with here | ⟨_, m₁, defined, later⟩
      · obtain ⟨bound, stop⟩ := stops_defineIn here
        exact ⟨[], name, parameters, [], v, values, m, rfl, rfl, rfl, rfl, bound, stop⟩
      · obtain ⟨before, other, after, firsts, w, rest, m', rfl, rfl, paired, ran, rest⟩ := ih later
        have ran : bindParameters frame (name :: before) (v :: firsts) m = .ok () m' := (bind_of_ok defined).trans ran
        exact ⟨name :: before, other, after, v :: firsts, w, _, m', rfl, rfl, congrArg _ paired, ran, rest⟩

theorem unary_error (h : unary operator x = .error e) :
    e = ⟨operator, .operandNotNumber⟩ ∨ e = ⟨operator, .unknownUnary operator⟩ := by
  unfold unary at h
  split at h <;> cases h
  · exact .inl rfl
  · exact .inr rfl

theorem binary_error (h : binary operator x y = .error e) :
    e = ⟨operator, .operandsNotAddable⟩ ∨ e = ⟨operator, .operandsNotNumbers⟩ ∨ e = ⟨operator, .unknownBinary operator⟩ := by
  unfold binary at h
  split at h
  case h_6 =>
    unfold arithmetic at h
    split at h <;> cases h
    exact .inr (.inr rfl)
  all_goals cases h
  · exact .inl rfl
  · exact .inr (.inl rfl)

theorem index_error (h : index bracket x y = .error e) : e = ⟨bracket, .invalidIndex⟩ := by
  unfold index at h
  dsimp only at h
  split at h <;> cases h
  rfl

end Primitive

inductive Declares (name : Token) : Task → Prop
  | declare (initial : Option Expr) : Declares name (.execute (.declare name initial))
  | function (parameters : List Token) (body : List Stmt) : Declares name (.execute (.function name parameters body))

/-- With a budget of `n` left for its pieces, a task on a machine comes to define a name in a frame, on another machine. -/
inductive Defines (s : Setting) (n : Nat) : Task → Machine → FrameId → Token → Machine → Prop
  | declare {name initial m v m₁} (first : evaluate? s n initial m = .ok v m₁) :
      Defines s n (.execute (.declare name initial)) m m₁.current name m₁
  | function {name parameters body m f m₁} (made : newFunction (.closure name parameters body m.current) m = .ok f m₁) :
      Defines s n (.execute (.function name parameters body)) m m₁.current name m₁
  | parameter {outer m frame m₁ before firsts m₂ parameter name after body v rest}
      (opened : newFrame outer m = .ok frame m₁) (paired : firsts.length = before.length)
      (bound : bindParameters frame before firsts m₁ = .ok () m₂) :
      Defines s n (.apply (.closure name (before ++ parameter :: after) body outer) (firsts ++ v :: rest)) m frame
        parameter m₂

/-- With a budget of `n` left for its pieces, a task on a machine stops by itself, on another machine. -/
inductive Raises (s : Setting) (n : Nat) : Task → Machine → Stop → Machine → Prop
  | read {id name m stop} (missed : target s id name m = .error stop) : Raises s n (.evaluate (.read id name)) m stop m
  | assign {id name e m v m₁ stop} (first : evaluate s n e m = .ok v m₁) (missed : target s id name m₁ = .error stop) :
      Raises s n (.evaluate (.assign id name e)) m stop m₁
  | unary {operator e m x m₁ fault} (first : evaluate s n e m = .ok x m₁) (wrong : unary operator x = .error fault) :
      Raises s n (.evaluate (.unary operator e)) m (.failed fault) m₁
  | binary {operator left right m x m₁ y m₂ fault} (first : evaluate s n left m = .ok x m₁)
      (second : evaluate s n right m₁ = .ok y m₂) (wrong : binary operator x y = .error fault) :
      Raises s n (.evaluate (.binary operator left right)) m (.failed fault) m₂
  | index {target bracket place m x m₁ y m₂ fault} (first : evaluate s n target m = .ok x m₁)
      (second : evaluate s n place m₁ = .ok y m₂) (wrong : index bracket x y = .error fault) :
      Raises s n (.evaluate (.index target bracket place)) m (.failed fault) m₂
  | notCallable {paren f values m} (other : ∀ serial callable, f ≠ .function serial callable) :
      Raises s n (.call paren f values) m (.failed ⟨paren, .notCallable f.typeName⟩) m
  | wrongArity {paren serial callable values m} (differs : values.length ≠ callable.arity) :
      Raises s n (.call paren (.function serial callable) values) m
        (.failed ⟨paren, .wrongArity callable.arity values.length⟩) m
  | tooDeep {paren serial callable values m} (deep : maxDepth ≤ m.depth) :
      Raises s n (.call paren (.function serial callable) values) m (.failed ⟨paren, .stackOverflow⟩) m
  | primitive {builtin values m} (fails : builtin.action = .fail) :
      Raises s n (.apply (.builtin builtin) values) m (.failed ⟨.ofName builtin.name, .primitiveFailed⟩) m
  | redefined {task m frame name m₁} (defines : Defines s n task m frame name m₁)
      (bound : m₁.store.binds frame name.lexeme = true) :
      Raises s n task m (.failed ⟨name, .redefined name.lexeme⟩) m₁

theorem Raises.defines {token : Token} {x : String} (h : Raises s n task m (.failed ⟨token, .redefined x⟩) m') :
    x = token.lexeme ∧ ∃ frame, Defines s n task m frame token m' ∧ m'.store.binds frame token.lexeme = true := by
  cases h with
  | redefined defines bound => exact ⟨rfl, _, defines, bound⟩
  | read missed => rcases target_error missed with same | ⟨_, same⟩ <;> cases same
  | assign _ missed => rcases target_error missed with same | ⟨_, same⟩ <;> cases same
  | unary _ wrong => rcases unary_error wrong with same | same <;> cases same
  | binary _ _ wrong => rcases binary_error wrong with same | same | same <;> cases same
  | index _ _ wrong => cases index_error wrong

namespace Task

def Stops (s : Setting) (n : Nat) (m : Machine) (stop : Stop) : Task → Prop
  | .evaluate e => Machine.Stops (Machine.evaluate s n e) m stop
  | .evaluateAll es => Machine.Stops (Machine.evaluateAll s n es) m stop
  | .evaluate? e => Machine.Stops (Machine.evaluate? s n e) m stop
  | .call paren f values => Machine.Stops (Machine.call s n paren f values) m stop
  | .apply callable values => Machine.Stops (Machine.apply s n callable values) m stop
  | .execute stmt => Machine.Stops (Machine.execute s n stmt) m stop
  | .executeAll stmts => Machine.Stops (Machine.executeAll s n stmts) m stop

end Task

inductive Source (s : Setting) (n : Nat) (task : Task) (m : Machine) (stop : Stop) : Prop
  | here {m' : Machine} (raises : Raises s n task m stop m')
  | inside {task' : Task} {m₁ : Machine} (enters : Enters s n task m task' m₁) (stops : task'.Stops s n m₁ stop)

namespace Task.Stops

theorem source_evaluate {e : Expr} (stops : (Task.evaluate e).Stops s (n + 1) m stop) : Source s n (.evaluate e) m stop := by
  change Machine.Stops (Machine.evaluate s (n + 1) e) m stop at stops
  unfold Machine.evaluate at stops
  cases e with
  | constant value => exact absurd stops (not_stops rfl)
  | group inner => exact .inside .group stops
  | read id name => exact .here (.read (stops_lookUp stops))
  | assign id name e =>
    rcases stops_bind.1 stops with first | ⟨v, m₁, first, stops⟩
    · exact .inside .assign first
    rcases stops_bind.1 stops with second | ⟨_, _, _, stops⟩
    · exact .here (.assign first (stops_assign second))
    · exact absurd stops (not_stops rfl)
  | logical operator left right =>
    rcases stops_bind.1 stops with first | ⟨v, m₁, first, stops⟩
    · exact .inside .logicalLeft first
    split at stops
    · exact absurd stops (not_stops rfl)
    · next undecided => exact .inside (.logicalRight first (Bool.eq_false_iff.2 undecided)) stops
  | unary operator e =>
    rcases stops_bind.1 stops with first | ⟨v, m₁, first, stops⟩
    · exact .inside .unary first
    obtain ⟨fault, wrong, rfl⟩ := stops_orFail stops
    exact .here (.unary first wrong)
  | binary operator left right =>
    rcases stops_bind.1 stops with first | ⟨v, m₁, first, stops⟩
    · exact .inside .binaryLeft first
    rcases stops_bind.1 stops with second | ⟨w, m₂, second, stops⟩
    · exact .inside (.binaryRight first) second
    obtain ⟨fault, wrong, rfl⟩ := stops_orFail stops
    exact .here (.binary first second wrong)
  | call callee paren arguments =>
    rcases stops_bind.1 stops with first | ⟨f, m₁, first, stops⟩
    · exact .inside .callee first
    rcases stops_bind.1 stops with second | ⟨values, m₂, second, stops⟩
    · exact .inside (.arguments first) second
    exact .inside (.call first second) stops
  | index target bracket place =>
    rcases stops_bind.1 stops with first | ⟨v, m₁, first, stops⟩
    · exact .inside .indexTarget first
    rcases stops_bind.1 stops with second | ⟨w, m₂, second, stops⟩
    · exact .inside (.indexPlace first) second
    obtain ⟨fault, wrong, rfl⟩ := stops_orFail stops
    exact .here (.index first second wrong)

theorem source_evaluateAll {es : List Expr} (stops : (Task.evaluateAll es).Stops s (n + 1) m stop) :
    Source s n (.evaluateAll es) m stop := by
  change Machine.Stops (Machine.evaluateAll s (n + 1) es) m stop at stops
  unfold Machine.evaluateAll at stops
  cases es with
  | nil => exact absurd stops (not_stops rfl)
  | cons e es =>
    rcases stops_bind.1 stops with first | ⟨v, m₁, first, stops⟩
    · exact .inside .head first
    rcases stops_bind.1 stops with second | ⟨_, _, _, stops⟩
    · exact .inside (.tail first) second
    · exact absurd stops (not_stops rfl)

theorem source_evaluate? {e : Option Expr} (stops : (Task.evaluate? e).Stops s (n + 1) m stop) :
    Source s n (.evaluate? e) m stop := by
  change Machine.Stops (Machine.evaluate? s (n + 1) e) m stop at stops
  unfold Machine.evaluate? at stops
  cases e with
  | none => exact absurd stops (not_stops rfl)
  | some e => exact .inside .some stops

theorem source_call {paren : Token} {f : Value} {values : List Value}
    (stops : (Task.call paren f values).Stops s (n + 1) m stop) : Source s n (.call paren f values) m stop := by
  change Machine.Stops (Machine.call s (n + 1) paren f values) m stop at stops
  cases f with
  | function serial callable =>
    unfold Machine.call at stops
    split at stops
    · next differs =>
      cases stops_fail stops
      exact .here (.wrongArity differs)
    next arity =>
    have stops := stops_get stops
    split at stops
    · next deep =>
      cases stops_fail stops
      exact .here (.tooDeep deep)
    · next shallow =>
      exact .inside (.apply (Decidable.not_not.1 arity) (Nat.lt_of_not_le shallow)) (stops_inCall stops)
  | _ =>
    cases stops_fail stops
    exact .here (.notCallable fun _ _ => nofun)

theorem source_apply {callable : Callable} {values : List Value}
    (stops : (Task.apply callable values).Stops s (n + 1) m stop) : Source s n (.apply callable values) m stop := by
  change Machine.Stops (Machine.apply s (n + 1) callable values) m stop at stops
  cases callable with
  | closure name parameters body outer =>
    unfold Machine.apply at stops
    rcases stops_bind.1 stops with opened | ⟨frame, m₁, opened, stops⟩
    · exact absurd opened (not_stops rfl)
    rcases stops_bind.1 stops with failed | ⟨_, m₂, bound, stops⟩
    · -- binding the parameters is no task, so the function itself raises what goes wrong there
      obtain ⟨_, _, _, _, _, _, _, rfl, rfl, paired, ran, taken, rfl⟩ := stops_bindParameters failed
      exact .here (.redefined (.parameter opened paired ran) taken)
    rcases stops_bind.1 stops with inner | ⟨flow, _, _, stops⟩
    · exact .inside (.closure opened bound) (stops_inFrame inner)
    · cases flow <;> exact absurd stops (not_stops rfl)
  | builtin builtin =>
    unfold Machine.apply at stops
    split at stops
    case h_6 fails =>
      cases stops_fail stops
      exact .here (.primitive fails)
    case h_7 applies => exact .inside (.builtin applies) stops
    case h_5 =>
      rcases stops_bind.1 stops with printed | ⟨_, _, _, stops⟩
      · exact absurd printed (not_stops_emitAll _)
      · exact absurd stops (not_stops rfl)
    all_goals exact absurd stops (not_stops rfl)

theorem source_execute {stmt : Stmt} (stops : (Task.execute stmt).Stops s (n + 1) m stop) :
    Source s n (.execute stmt) m stop := by
  change Machine.Stops (Machine.execute s (n + 1) stmt) m stop at stops
  unfold Machine.execute at stops
  cases stmt with
  | expression e =>
    rcases stops_bind.1 stops with first | ⟨_, _, _, stops⟩
    · exact .inside .expression first
    · exact absurd stops (not_stops rfl)
  | print e =>
    rcases stops_bind.1 stops with first | ⟨_, _, _, stops⟩
    · exact .inside .print first
    · exact absurd stops (not_stops rfl)
  | declare name initial =>
    rcases stops_bind.1 stops with first | ⟨v, m₁, first, stops⟩
    · exact .inside .declare first
    rcases stops_bind.1 stops with failed | ⟨_, _, _, stops⟩
    · obtain ⟨taken, rfl⟩ := stops_define failed
      exact .here (.redefined (.declare first) taken)
    · exact absurd stops (not_stops rfl)
  | block body =>
    rcases stops_bind.1 (stops_get stops) with opened | ⟨frame, m₁, opened, stops⟩
    · exact absurd opened (not_stops rfl)
    · exact .inside (.block opened) (stops_inFrame stops)
  | ifThen condition yes =>
    rcases stops_bind.1 stops with first | ⟨v, m₁, first, stops⟩
    · exact .inside .ifThenCondition first
    split at stops
    · next holds => exact .inside (.ifThenYes first holds) stops
    · exact absurd stops (not_stops rfl)
  | ifElse condition yes no =>
    rcases stops_bind.1 stops with first | ⟨v, m₁, first, stops⟩
    · exact .inside .ifElseCondition first
    split at stops
    · next holds => exact .inside (.ifElseYes first holds) stops
    · next fails => exact .inside (.ifElseNo first (Bool.eq_false_iff.2 fails)) stops
  | loop condition body =>
    rcases stops_bind.1 stops with first | ⟨v, m₁, first, stops⟩
    · exact .inside .loopCondition first
    split at stops
    · next holds =>
      rcases stops_bind.1 stops with round | ⟨flow, m₂, round, stops⟩
      · exact .inside (.loopBody first holds) round
      cases flow with
      | onward => exact .inside (.loopAgain first holds round) stops
      | returned v => exact absurd stops (not_stops rfl)
    · exact absurd stops (not_stops rfl)
  | function name parameters body =>
    rcases stops_bind.1 (stops_get stops) with made | ⟨f, m₁, made, stops⟩
    · exact absurd made (not_stops rfl)
    rcases stops_bind.1 stops with failed | ⟨_, _, _, stops⟩
    · obtain ⟨taken, rfl⟩ := stops_define failed
      exact .here (.redefined (.function made) taken)
    · exact absurd stops (not_stops rfl)
  | leave keyword value =>
    rcases stops_bind.1 stops with first | ⟨_, _, _, stops⟩
    · exact .inside .leave first
    · exact absurd stops (not_stops rfl)

theorem source_executeAll {stmts : List Stmt} (stops : (Task.executeAll stmts).Stops s (n + 1) m stop) :
    Source s n (.executeAll stmts) m stop := by
  change Machine.Stops (Machine.executeAll s (n + 1) stmts) m stop at stops
  unfold Machine.executeAll at stops
  cases stmts with
  | nil => exact absurd stops (not_stops rfl)
  | cons stmt rest =>
    rcases stops_bind.1 stops with first | ⟨flow, m₁, first, stops⟩
    · exact .inside .first first
    cases flow with
    | onward => exact .inside (.next first) stops
    | returned v => exact absurd stops (not_stops rfl)

theorem source (stops : task.Stops s (n + 1) m stop) : Source s n task m stop := by
  cases task with
  | evaluate e => exact source_evaluate stops
  | evaluateAll es => exact source_evaluateAll stops
  | evaluate? e => exact source_evaluate? stops
  | call paren f values => exact source_call stops
  | apply callable values => exact source_apply stops
  | execute stmt => exact source_execute stops
  | executeAll stmts => exact source_executeAll stops

theorem exhausted (stops : task.Stops s 0 m stop) : stop = .exhausted := by
  cases task <;> obtain ⟨_, ⟨⟩⟩ := stops <;> rfl

/-- Every other stop of a run is raised at one of its moments. -/
theorem raised (stops : task.Stops s n m stop) (funded : stop ≠ .exhausted) :
    ∃ k task' m₁ m', Visits s n task m (k + 1) task' m₁ ∧ Raises s k task' m₁ stop m' := by
  -- each task that is entered has a budget of one less, so the search for the source ends
  induction n generalizing task m with
  | zero => exact absurd stops.exhausted funded
  | succ n ih =>
    cases stops.source with
    | here raises => exact ⟨n, task, m, _, .here .., raises⟩
    | inside enters stops =>
      obtain ⟨k, task', m₁, m', visits, raises⟩ := ih stops
      exact ⟨k, task', m₁, m', .step enters visits, raises⟩

end Task.Stops

end Scriptlet.Machine
