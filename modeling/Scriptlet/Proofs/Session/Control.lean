import Scriptlet.Proofs.Machine.Confinement
import Scriptlet.Proofs.Session.Outcome

namespace Scriptlet

namespace Machine

variable {s : Setting} {n k : Nat} {task task' : Task} {tasks : List Task} {m m' : Machine}

/-- The tasks under way at a moment of a run, the outermost first: each of them has entered the next one, and the last of
them the task that is begun at that moment. -/
inductive Underway (s : Setting) : Nat → Task → Machine → List Task → Nat → Task → Machine → Prop
  | here (n : Nat) (task : Task) (m : Machine) : Underway s n task m [] n task m
  | step {n k : Nat} {task task' task'' : Task} {tasks : List Task} {m m' m'' : Machine}
      (enters : Enters s n task m task' m') (later : Underway s n task' m' tasks k task'' m'') :
      Underway s (n + 1) task m (task :: tasks) k task'' m''

/-- The calls among the tasks under way. A call enters nothing but its function, so that function is being run. -/
def runningCalls (tasks : List Task) : Nat :=
  tasks.countP Task.isCall

theorem Task.control_left (s : Setting) (n : Nat) (task : Task) (m : Machine) :
    (task.left s n m).current = m.current ∧ (task.left s n m).depth = m.depth := by
  have moves := (Region.ready_everywhere task m).left s n
  exact ⟨moves.current, moves.depth⟩

theorem Enters.depth_eq (enters : Enters s n task m task' m') : m'.depth = m.depth + task.isCall.toNat :=
  ((Region.ready_everywhere task m).enter enters).depth

theorem Enters.depth_le (enters : Enters s n task m task' m') (bounded : m.depth ≤ maxDepth) : m'.depth ≤ maxDepth := by
  cases task with
  | call paren f values =>
    cases enters with
    | apply arity shallow => exact shallow
  | _ => exact enters.depth_eq ▸ bounded

namespace Underway

theorem depth_eq (h : Underway s n task m tasks k task' m') : m'.depth = m.depth + runningCalls tasks := by
  induction h with
  | here => rfl
  | @step n k task task' task'' tasks m m' m'' enters later ih =>
    have counted : runningCalls (task :: tasks) = runningCalls tasks + task.isCall.toNat := by
      rw [runningCalls, List.countP_cons, runningCalls]
      cases task.isCall <;> rfl
    rw [ih, enters.depth_eq, counted]
    omega

theorem depth_le (h : Underway s n task m tasks k task' m') (bounded : m.depth ≤ maxDepth) : m'.depth ≤ maxDepth := by
  induction h with
  | here => exact bounded
  | step enters later ih => exact ih (enters.depth_le bounded)

end Underway

end Machine

namespace Session

open Machine

/-- The machines between two programs. A session starts with one, and every program leaves one behind, whatever the
addresses with which it is run and however it ends. -/
inductive Idle : Machine → Prop
  | start (clock : Nat → Float) : Idle (start clock).machine
  | interpret {s : Session} (before : Idle s.machine) (policy : Policy) (program : Program) :
      Idle (s.interpret policy program).1.machine

theorem control_interpret (policy : Policy) (s : Session) (program : Program) :
    (s.interpret policy program).1.machine.current = s.machine.current ∧
      (s.interpret policy program).1.machine.depth = s.machine.depth := by
  rw [interpret_eq]
  exact Task.control_left _ _ (.executeAll program) s.machine

theorem Idle.control {m : Machine} (idle : Idle m) : m.current = Store.global ∧ m.depth = 0 := by
  induction idle with
  | start clock => exact ⟨rfl, rfl⟩
  | @interpret s before policy program ih =>
    obtain ⟨current, depth⟩ := control_interpret policy s program
    exact ⟨current.trans ih.1, depth.trans ih.2⟩

/-- Every task gives control back, however it ends; at every moment of a run that is begun outside of all calls, the
depth is the number of calls whose function is being run, and never above 2048; and every program leaves the session in
the global frame and outside of all calls. -/
theorem control_restored :
    (∀ (s : Setting) (n : Nat) (task : Task) (m : Machine),
      (task.left s n m).current = m.current ∧ (task.left s n m).depth = m.depth) ∧
    (∀ {s : Setting} {n : Nat} {program : Program} {m : Machine} {tasks : List Task} {k : Nat} {task : Task} {m' : Machine},
      m.depth = 0 → Underway s n (.executeAll program) m tasks k task m' →
      m'.depth = runningCalls tasks ∧ (task.left s k m').depth = runningCalls tasks ∧ runningCalls tasks ≤ 2048) ∧
    ∀ {s : Session}, Idle s.machine → ∀ (policy : Policy) (program : Program),
      (s.interpret policy program).1.machine.current = Store.global ∧ (s.interpret policy program).1.machine.depth = 0 := by
  refine ⟨Task.control_left, ?_, fun idle policy program => (Idle.interpret idle policy program).control⟩
  intro s n program m tasks k task m' outside underway
  have depth : m'.depth = runningCalls tasks := by rw [underway.depth_eq, outside, Nat.zero_add]
  have bounded : m'.depth ≤ maxDepth := underway.depth_le (outside ▸ Nat.zero_le _)
  exact ⟨depth, (Task.control_left s k task m').2.trans depth, depth ▸ bounded⟩

def calledInBlock : Program :=
  [.block [.function (.ofName "f") [] [.expression (.constant .nil)],
    .expression (.call (.read 0 (.ofName "f")) (.ofName ")") [])]]

theorem control_restored_calledInBlock :
    let s : Setting := ⟨(∅ : Addresses).insert 0 0, .lexical, fun _ => 0⟩
    let m := (start fun _ => 0).machine
    (∃ tasks k task m', Underway s 12 (.executeAll calledInBlock) m tasks k task m' ∧ runningCalls tasks = 1 ∧
      m'.depth = 1 ∧ (task.left s k m').depth = 1 ∧ m'.current = 2) ∧
    (interpret (.keeping .withFunctions 12) (start fun _ => 0) calledInBlock).1.machine.current = Store.global := by
  intro s m
  refine ⟨?_, (control_restored.2.2 (.start _) _ _).1⟩
  let body : List Stmt := [.expression (.constant .nil)]
  let inside : Machine := { m with store := (m.store.child 0).2, current := 1 }
  let declared := Machine.left (execute s 9 (.function (.ofName "f") [] body) inside)
  have declares : execute s 9 (.function (.ofName "f") [] body) inside = .ok .onward declared := rfl
  have callee : evaluate s 6 (.read 0 (.ofName "f")) declared =
    .ok (.function 1 (.closure (.ofName "f") [] body 1)) declared := rfl
  have arguments : evaluateAll s 6 [] declared = .ok [] declared := rfl
  have shallow : declared.depth < maxDepth := Nat.zero_lt_succ _
  let called : Machine := { declared with depth := 1 }
  have underway : Underway s 12 (.executeAll calledInBlock) m _ 4 (.executeAll body)
      { called with store := (called.store.child 1).2, current := 2 } :=
    .step .first (.step (.block rfl) (.step (.next declares) (.step .first (.step .expression
      (.step (.call callee arguments) (.step (.apply rfl shallow) (.step (.closure rfl rfl) (.here ..))))))))
  obtain ⟨depth, depth', -⟩ := control_restored.2.1 rfl underway
  exact ⟨_, _, _, _, underway, rfl, depth, depth', rfl⟩

end Session
end Scriptlet
