import Scriptlet.Proofs.Machine.Confinement

namespace Scriptlet.Machine

variable {α β : Type} {s : Setting} {n k : Nat} {task task' : Task} {m m₁ : Machine}

def frameCount (m : Machine) : Nat :=
  m.store.frames.size

def Expands (run : Run α) : Prop :=
  ∀ m, m.frameCount ≤ (left (run m)).frameCount

theorem Task.expands (s : Setting) (n : Nat) (task : Task) (m : Machine) :
    m.frameCount ≤ (task.left s n m).frameCount :=
  ((Region.ready_everywhere task m).left s n).grows.size

theorem expands_of_runs {spot : Machine → Option FrameId} {run : Run α} {P : Machine → α → Machine → Prop}
    (h : ∀ m, Region.everywhere.Runs (spot m) m run (P m)) : Expands run :=
  fun m => (h m).left.grows.size

theorem left_bind {run : Run α} {next : α → Run β} {a : α} (eq : run m = .ok a m₁) :
    left ((run >>= next) m) = left (next a m₁) := by
  change left (EStateM.bind run next m) = _
  rw [EStateM.bind, eq]

theorem frameCount_behind {run : Run α} {next : α → Run β} {a : α} {count : Nat} (first : run m = .ok a m₁)
    (rest : count ≤ (left (next a m₁)).frameCount) : count ≤ (left ((run >>= next) m)).frameCount :=
  left_bind first ▸ rest

theorem frameCount_bind {run : Run α} {next : α → Run β} (later : ∀ a, Expands (next a)) (m : Machine) :
    (left (run m)).frameCount ≤ (left ((run >>= next) m)).frameCount := by
  cases eq : run m with
  | ok a m₁ =>
    rw [left_bind eq]
    exact later a m₁
  | error e m₁ =>
    change _ ≤ (left (EStateM.bind run next m)).frameCount
    rw [EStateM.bind, eq]
    exact Nat.le_refl _

theorem Expands.bind {run : Run α} {next : α → Run β} (h : Expands run) (later : ∀ a, Expands (next a)) :
    Expands (run >>= next) :=
  fun m => Nat.le_trans (h m) (frameCount_bind later m)

theorem frameCount_inFrame (frame : FrameId) (run : Run α) (m : Machine) :
    (left (inFrame frame run m)).frameCount = (left (run { m with current := frame })).frameCount := by
  unfold inFrame
  dsimp only
  cases run { m with current := frame } <;> rfl

theorem frameCount_inCall (run : Run α) (m : Machine) :
    (left (inCall run m)).frameCount = (left (run { m with depth := m.depth + 1 })).frameCount := by
  unfold inCall
  cases run { m with depth := m.depth + 1 } <;> rfl

theorem expands_pure (a : α) : Expands (pure a) :=
  fun _ => Nat.le_refl _

theorem expands_orFail (result : Except (Located Fault) α) : Expands (orFail result) := by
  cases result <;> exact fun _ => Nat.le_refl _

theorem expands_emit (v : Value) : Expands (emit v) :=
  fun _ => Nat.le_refl _

theorem expands_define (name : Token) (v : Value) : Expands (define name v) :=
  expands_of_runs fun m => Region.Runs.define (Region.contains_everywhere m) name fun _ _ => trivial

theorem expands_assign (s : Setting) (use : UseId) (name : Token) (v : Value) : Expands (assign s use name v) :=
  expands_of_runs fun m => Region.Runs.assign (Region.contains_everywhere m) s use name fun _ _ => trivial

section Left

theorem evaluate_frameCount {e : Expr} (enters : Enters s n (.evaluate e) m task' m₁) :
    (task'.left s n m₁).frameCount ≤ (left (evaluate s (n + 1) e m)).frameCount := by
  unfold evaluate
  cases enters with
  | group => exact Nat.le_refl _
  | assign => exact frameCount_bind (fun v => (expands_assign s _ _ v).bind fun _ => expands_pure v) m
  | logicalLeft =>
    refine frameCount_bind (fun v => ?_) m
    split
    · exact expands_pure v
    · exact Task.expands s n (.evaluate _)
  | logicalRight first undecided =>
    refine frameCount_behind first ?_
    rw [undecided]
    exact Nat.le_refl _
  | unary => exact frameCount_bind (fun _ => expands_orFail _) m
  | binaryLeft =>
    exact frameCount_bind (fun _ => Expands.bind (Task.expands s n (.evaluate _)) fun _ => expands_orFail _) m
  | binaryRight first =>
    exact frameCount_behind first (frameCount_bind (fun _ => expands_orFail _) m₁)
  | callee =>
    refine frameCount_bind (fun f => ?_) m
    exact Expands.bind (Task.expands s n (.evaluateAll _)) fun values => Task.expands s n (.call _ f values)
  | arguments first =>
    exact frameCount_behind first (frameCount_bind (fun values => Task.expands s n (.call _ _ values)) m₁)
  | call first second =>
    exact frameCount_behind first (frameCount_behind second (Nat.le_refl _))
  | indexTarget =>
    exact frameCount_bind (fun _ => Expands.bind (Task.expands s n (.evaluate _)) fun _ => expands_orFail _) m
  | indexPlace first =>
    exact frameCount_behind first (frameCount_bind (fun _ => expands_orFail _) m₁)

theorem apply_frameCount {callable : Callable} {values : List Value}
    (enters : Enters s n (.apply callable values) m task' m₁) :
    (task'.left s n m₁).frameCount ≤ (left (apply s (n + 1) callable values m)).frameCount := by
  unfold apply
  cases enters with
  | @closure outer _ frame _ _ _ _ _ body opened bound =>
    refine frameCount_behind opened (frameCount_behind bound ?_)
    change (left (executeAll s n body _)).frameCount ≤ _
    rw [← frameCount_inFrame]
    refine frameCount_bind (fun flow => ?_) _
    cases flow <;> exact expands_pure _
  | builtin applies =>
    dsimp only
    rw [applies]
    exact Nat.le_refl _

theorem execute_frameCount {stmt : Stmt} (enters : Enters s n (.execute stmt) m task' m₁) :
    (task'.left s n m₁).frameCount ≤ (left (execute s (n + 1) stmt m)).frameCount := by
  unfold execute
  cases enters with
  | expression => exact frameCount_bind (fun _ => expands_pure _) m
  | print => exact frameCount_bind (fun v => (expands_emit v).bind fun _ => expands_pure _) m
  | declare => exact frameCount_bind (fun v => (expands_define _ v).bind fun _ => expands_pure _) m
  | leave => exact frameCount_bind (fun _ => expands_pure _) m
  | @block _ frame _ body opened =>
    change _ ≤ (left ((newFrame m.current >>= fun frame => inFrame frame (executeAll s n body)) m)).frameCount
    refine frameCount_behind opened ?_
    rw [frameCount_inFrame]
    exact Nat.le_refl _
  | ifThenCondition =>
    refine frameCount_bind (fun v => ?_) m
    split
    · exact Task.expands s n (.execute _)
    · exact expands_pure _
  | ifThenYes first holds =>
    refine frameCount_behind first ?_
    rw [holds]
    exact Nat.le_refl _
  | ifElseCondition =>
    refine frameCount_bind (fun v => ?_) m
    split <;> exact Task.expands s n (.execute _)
  | ifElseYes first holds =>
    refine frameCount_behind first ?_
    rw [holds]
    exact Nat.le_refl _
  | ifElseNo first fails =>
    refine frameCount_behind first ?_
    rw [fails]
    exact Nat.le_refl _
  | loopCondition =>
    refine frameCount_bind (fun v => ?_) m
    split
    · refine Expands.bind (Task.expands s n (.execute _)) fun flow => ?_
      cases flow
      · exact Task.expands s n (.execute _)
      · exact expands_pure _
    · exact expands_pure _
  | loopBody first holds =>
    refine frameCount_behind first ?_
    rw [holds]
    refine frameCount_bind (fun flow => ?_) m₁
    cases flow
    · exact Task.expands s n (.execute _)
    · exact expands_pure _
  | loopAgain first holds second =>
    refine frameCount_behind first ?_
    rw [holds]
    exact frameCount_behind second (Nat.le_refl _)

theorem call_of_shallow {paren : Token} {serial : Nat} {callable : Callable} {values : List Value}
    (arity : values.length = callable.arity) (shallow : m.depth < maxDepth) :
    call s (n + 1) paren (.function serial callable) values m = inCall (apply s n callable values) m := by
  unfold call
  rw [if_neg (not_not.2 arity)]
  change (if maxDepth ≤ m.depth then fail paren .stackOverflow else inCall (apply s n callable values)) m = _
  rw [if_neg (Nat.not_le_of_lt shallow)]

theorem Enters.frameCount_left (enters : Enters s n task m task' m₁) :
    (task'.left s n m₁).frameCount ≤ (task.left s (n + 1) m).frameCount := by
  cases task with
  | evaluate e => exact evaluate_frameCount enters
  | apply callable values => exact apply_frameCount enters
  | execute stmt => exact execute_frameCount enters
  | evaluateAll es =>
    cases enters with
    | head =>
      refine frameCount_bind (fun v => ?_) m
      exact Expands.bind (Task.expands s n (.evaluateAll _)) fun _ => expands_pure _
    | tail first => exact frameCount_behind first (frameCount_bind (fun _ => expands_pure _) m₁)
  | evaluate? e =>
    cases enters
    exact Nat.le_refl _
  | call paren f values =>
    cases enters with
    | @apply _ callable _ _ serial arity shallow =>
      change _ ≤ (left (Machine.call s (n + 1) paren (.function serial callable) values m)).frameCount
      rw [call_of_shallow arity shallow, frameCount_inCall]
      exact Nat.le_refl _
  | executeAll stmts =>
    cases enters with
    | first =>
      refine frameCount_bind (fun flow => ?_) m
      cases flow
      · exact Task.expands s n (.executeAll _)
      · exact expands_pure _
    | next first => exact frameCount_behind first (Nat.le_refl _)

end Left

theorem Visits.frameCount_le (visits : Visits s n task m k task' m₁) : m.frameCount ≤ m₁.frameCount := by
  induction visits with
  | here => exact Nat.le_refl _
  | step enters later ih => exact Nat.le_trans ((Region.ready_everywhere _ _).enter enters).size ih

theorem Visits.frameCount_left (visits : Visits s n task m k task' m₁) :
    m₁.frameCount ≤ (task.left s n m).frameCount := by
  induction visits with
  | here n task m => exact task.expands s n m
  | step enters later ih => exact Nat.le_trans ih enters.frameCount_left

/-- The machines after a given one: when something is begun there or in the course of it, when something has ended in the
course of which it was met, and when what has been printed is taken away behind a program. -/
inductive Later (m₀ : Machine) : Machine → Prop
  | here : Later m₀ m₀
  | begun {s : Setting} {n k : Nat} {task task' : Task} {m m' : Machine} (before : Later m₀ m)
      (visits : Visits s n task m k task' m') : Later m₀ m'
  | ended {s : Setting} {n k : Nat} {task task' : Task} {m m' : Machine} (before : Later m₀ m')
      (visits : Visits s n task m k task' m') : Later m₀ (task.left s n m)
  | cleared {m : Machine} (before : Later m₀ m) : Later m₀ { m with printed := [] }

theorem Later.frameCount_le (later : Later m m₁) : m.frameCount ≤ m₁.frameCount := by
  induction later with
  | here => exact Nat.le_refl _
  | begun before visits ih => exact Nat.le_trans ih visits.frameCount_le
  | ended before visits ih => exact Nat.le_trans ih visits.frameCount_left
  | cleared before ih => exact ih

theorem Enters.fresh {name : Token} {parameters : List Token} {body : List Stmt} {outer : FrameId} {values : List Value}
    (enters : Enters s n (.apply (.closure name parameters body outer) values) m task' m₁) :
    m.frameCount ≤ m₁.current ∧ m₁.current < m₁.frameCount := by
  cases enters with
  | closure opened bound =>
    cases opened
    refine ⟨Nat.le_refl _, ?_⟩
    have closed := (Region.contains_everywhere { m with store := (m.store.child outer).2 }).closed
    obtain ⟨moves, _⟩ := (Region.Runs.bindParameters closed trivial fun _ _ _ _ => trivial).ok bound
    refine Nat.lt_of_lt_of_le ?_ moves.grows.size
    rw [Store.size_child]
    exact Nat.lt_succ_self _

end Scriptlet.Machine
