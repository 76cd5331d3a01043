import Scriptlet.Machine.Eval
import Scriptlet.Proofs.Address.Rules

namespace Scriptlet.Machine

variable {s : Setting} {n : Nat} {m m' : Machine} {flow : Flow}

theorem executeAll_append {stmts : List Stmt} (run : executeAll s n stmts m = .ok .onward m') (more : List Stmt) :
    stmts.length < n ∧ executeAll s n (stmts ++ more) m = executeAll s (n - stmts.length) more m' := by
  induction stmts generalizing n m with
  | nil =>
    obtain _ | n := n
    · cases run
    · cases run
      exact ⟨Nat.zero_lt_succ n, rfl⟩
  | cons stmt rest ih =>
    obtain _ | n := n
    · cases run
    unfold executeAll at run
    obtain ⟨flow, m₁, first, run⟩ := bind_eq_ok.1 run
    cases flow with
    | returned value => cases run
    | onward =>
      obtain ⟨enough, later⟩ := ih run
      refine ⟨Nat.succ_lt_succ enough, ?_⟩
      rw [List.length_cons, Nat.add_sub_add_right, ← later, List.cons_append, executeAll]
      change EStateM.bind _ _ m = _
      simp only [EStateM.bind, first]

structure Proceeds (s : Setting) (n : Nat) : Prop where
  execute : ∀ {scopes stmt m flow m'}, stmt.Obeys scopes false → execute s n stmt m = .ok flow m' → flow = .onward
  executeAll : ∀ {scopes stmts m flow m'}, Stmt.ObeysIn scopes false stmts → executeAll s n stmts m = .ok flow m' →
    flow = .onward

theorem inFrame_eq_ok {α : Type} {frame : FrameId} {run : Run α} {a : α} (h : inFrame frame run m = .ok a m') :
    ∃ m₁, run { m with current := frame } = .ok a m₁ := by
  unfold inFrame at h
  split at h
  · next m₁ ran =>
    cases h
    exact ⟨m₁, ran⟩
  · cases h

namespace Proceeds

theorem execute_succ (ih : Proceeds s n) {scopes : Scopes} {stmt : Stmt} (obeys : stmt.Obeys scopes false)
    (run : Machine.execute s (n + 1) stmt m = .ok flow m') : flow = .onward := by
  unfold Machine.execute at run
  cases stmt with
  | expression e =>
    obtain ⟨_, _, _, ⟨⟩⟩ := bind_eq_ok.1 run
    rfl
  | print e =>
    obtain ⟨_, _, _, run⟩ := bind_eq_ok.1 run
    obtain ⟨_, _, _, ⟨⟩⟩ := bind_eq_ok.1 run
    rfl
  | declare name value =>
    obtain ⟨_, _, _, run⟩ := bind_eq_ok.1 run
    obtain ⟨_, _, _, ⟨⟩⟩ := bind_eq_ok.1 run
    rfl
  | block body =>
    obtain ⟨_, _, _, run⟩ := bind_eq_ok.1 run
    obtain ⟨_, _, _, run⟩ := bind_eq_ok.1 run
    obtain ⟨_, inner⟩ := inFrame_eq_ok run
    exact ih.executeAll obeys inner
  | ifThen condition yes =>
    obtain ⟨_, _, _, run⟩ := bind_eq_ok.1 run
    have obeys : yes.Obeys scopes false := obeys
    split at run
    · exact ih.execute obeys run
    · cases run
      rfl
  | ifElse condition yes no =>
    obtain ⟨_, _, _, run⟩ := bind_eq_ok.1 run
    split at run
    · exact ih.execute obeys.1 run
    · exact ih.execute obeys.2 run
  | loop condition body =>
    obtain ⟨_, _, _, run⟩ := bind_eq_ok.1 run
    split at run
    · obtain ⟨flow, _, round, run⟩ := bind_eq_ok.1 run
      have inner : body.Obeys scopes false := obeys
      cases ih.execute inner round
      exact ih.execute obeys run
    · cases run
      rfl
  | function name parameters body =>
    obtain ⟨_, _, _, run⟩ := bind_eq_ok.1 run
    obtain ⟨_, _, _, run⟩ := bind_eq_ok.1 run
    obtain ⟨_, _, _, ⟨⟩⟩ := bind_eq_ok.1 run
    rfl
  | leave keyword value => cases obeys

theorem executeAll_succ (ih : Proceeds s n) {scopes : Scopes} {stmts : List Stmt}
    (obeys : Stmt.ObeysIn scopes false stmts) (run : Machine.executeAll s (n + 1) stmts m = .ok flow m') :
    flow = .onward := by
  unfold Machine.executeAll at run
  cases stmts with
  | nil =>
    cases run
    rfl
  | cons stmt rest =>
    obtain ⟨flow, _, first, run⟩ := bind_eq_ok.1 run
    cases ih.execute obeys.1 first
    exact ih.executeAll obeys.2 run

end Proceeds

theorem proceeds (s : Setting) : ∀ n, Proceeds s n
  | 0 => ⟨fun _ run => (nomatch run), fun _ run => (nomatch run)⟩
  | n + 1 => ⟨(proceeds s n).execute_succ, (proceeds s n).executeAll_succ⟩

theorem onward_of_obeys {program : Program} (obeys : program.Obeys) (run : executeAll s n program m = .ok flow m') :
    flow = .onward :=
  (proceeds s n).executeAll obeys run

end Scriptlet.Machine
