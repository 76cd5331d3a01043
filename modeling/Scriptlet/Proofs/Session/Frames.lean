import Scriptlet.Proofs.Session.Control

namespace Scriptlet

namespace Store

variable {s : Store} {f parent : FrameId}

def Rooted (s : Store) : Prop :=
  ∀ f, f < s.frames.size → s.parent? f = none → f = global

theorem rooted_update (id : FrameId) (change : Bindings → Bindings) : (s.update id change).Rooted ↔ s.Rooted := by
  simp only [Rooted, size_update, parent?_update]

theorem Rooted.child (rooted : s.Rooted) (there : parent < s.frames.size) : (s.child parent).2.Rooted := by
  intro f inside none
  rw [size_child] at inside
  rcases Nat.lt_succ_iff_lt_or_eq.1 inside with old | rfl
  · exact rooted f old ((parent?_child_of_lt parent old).symm.trans none)
  · cases none.symm.trans (parent?_child_self there)

theorem Rooted.of_child (rooted : (s.child parent).2.Rooted) : s.Rooted := by
  intro f inside none
  refine rooted f ?_ ((parent?_child_of_lt parent inside).trans none)
  rw [size_child]
  exact Nat.lt_succ_of_lt inside

def Anchored (s : Store) (f : FrameId) : Prop :=
  f < s.frames.size ∧ s.Rooted

theorem anchored_update (id : FrameId) (change : Bindings → Bindings) :
    (s.update id change).Anchored f ↔ s.Anchored f := by
  rw [Anchored, size_update, rooted_update, Anchored]

theorem anchored_child (there : s.Anchored parent) :
    (s.child parent).2.Anchored f ↔ s.Anchored f ∨ f = s.frames.size := by
  rw [Anchored, size_child, Nat.lt_succ_iff_lt_or_eq]
  constructor
  · rintro ⟨old | new, rooted⟩
    · exact .inl ⟨old, rooted.of_child⟩
    · exact .inr new
  · rintro (⟨old, rooted⟩ | new)
    · exact ⟨.inl old, rooted.child there.1⟩
    · exact ⟨.inr new, there.2.child there.1⟩

theorem Rooted.getLast?_chain (rooted : s.Rooted) (inside : f < s.frames.size) : (s.chain f).getLast? = some global := by
  fun_induction Store.chain s f with
  | case1 f none => simp [rooted f inside none]
  | case2 f parent up ih =>
    have outer := ih (Nat.lt_trans (parent?_lt up) inside)
    rw [List.getLast?_cons, outer, Option.getD_some]

end Store

namespace Region

open Machine

def rooted : Region :=
  plain Store.Anchored Store.anchored_update Store.anchored_child

theorem closed_initial : rooted.Closed Store.initial where
  global := by
    refine ⟨Nat.zero_lt_one, fun f inside _ => ?_⟩
    exact Nat.lt_one_iff.1 inside
  parent there up := ⟨Nat.lt_trans (Store.parent?_lt up) there.1, there.2⟩
  values there found := by cases (Store.find?_initial ..).symm.trans found

end Region

namespace Session

open Machine

theorem Idle.contains {m : Machine} (idle : Idle m) : Region.rooted.Contains m := by
  induction idle with
  | start clock =>
    have outside : (Value.function 0 (.builtin clockBuiltin)).frame? = none := rfl
    have closed : Region.rooted.Closed (Session.start clock).machine.store :=
      Region.closed_initial.add (Region.admits_of_frame?_eq_none outside) Store.global "clock"
    exact ⟨closed, closed.global⟩
  | @interpret s before policy program ih =>
    rw [interpret_eq]
    have ready : Region.rooted.Ready (.executeAll program) s.machine := ⟨ih.closed, ih.current⟩
    have after := (ready.left ⟨s.addresses, policy.addressing, s.clock⟩ policy.budget).contains ih
    exact ⟨after.closed, after.current⟩

theorem Idle.ready {m : Machine} (idle : Idle m) (program : Program) : Region.rooted.Ready (.executeAll program) m :=
  ⟨idle.contains.closed, idle.contains.current⟩

/-- The machines in the course of a session, where a task is begun or has ended. -/
inductive Reached : Machine → Prop
  | begun {s : Setting} {n k : Nat} {program : Program} {task : Task} {m m' : Machine} (idle : Idle m)
      (visits : Visits s n (.executeAll program) m k task m') : Reached m'
  | ended {s : Setting} {n k : Nat} {program : Program} {task : Task} {m m' : Machine} (idle : Idle m)
      (visits : Visits s n (.executeAll program) m k task m') : Reached (task.left s k m')

theorem Reached.rooted {m : Machine} (reached : Reached m) : m.store.Rooted := by
  cases reached with
  | begun idle visits => exact ((idle.ready _).visit visits).closed.global.2
  | ended idle visits => exact (((idle.ready _).visit visits).left _ _).closed.global.2

/-- Whatever is run on a machine in the course of a session and however it ends: the frames keep their parents and names,
and only a statement other than a block can give new names, to the frame in which it is executed. -/
theorem frames_only_grow {m : Machine} (reached : Reached m) :
    (∀ f, f < m.store.frames.size → (m.store.chain f).getLast? = some Store.global) ∧
    ∀ (s : Setting) (n : Nat),
      (∀ e, m.store.Grows none (Machine.left (evaluate s n e m)).store) ∧
      (∀ body, m.store.Grows none (Machine.left (execute s n (.block body) m)).store) ∧
      ∀ stmt, m.store.Grows (some m.current) (Machine.left (execute s n stmt m)).store := by
  refine ⟨fun f inside => reached.rooted.getLast?_chain inside, fun s n => ?_⟩
  have everywhere := Region.contains_everywhere m
  have all := Region.confined Region.everywhere s n
  refine ⟨fun e => ?_, fun body => ?_, fun stmt => ?_⟩
  · exact (all.evaluate everywhere).left.grows
  · exact (Region.runs_block everywhere s n body).left.grows
  · exact (all.execute everywhere).left.grows

theorem frames_only_grow_inBlock :
    ∃ m, Reached m ∧ m.current = 1 ∧ m.store.names 1 = ["a"] ∧ (m.store.chain 1).getLast? = some Store.global ∧
      ∀ (s : Setting) (n : Nat),
        m.store.Grows (some 1) (Machine.left (execute s n (.declare (.ofName "b") none) m)).store := by
  let s : Setting := ⟨∅, .lexical, fun _ => 0⟩
  let m := (start fun _ => 0).machine
  let opened : Machine := { m with store := (m.store.child 0).2, current := 1 }
  let declared := Machine.left (execute s 2 (.declare (.ofName "a") none) opened)
  have declares : execute s 2 (.declare (.ofName "a") none) opened = .ok .onward declared := rfl
  have visits : Visits s 5 (.executeAll [.block [.declare (.ofName "a") none]]) m 2 (.executeAll []) declared :=
    .step .first (.step (.block rfl) (.step (.next declares) (.here ..)))
  have reached : Reached declared := .begun (.start _) visits
  obtain ⟨chains, runs⟩ := frames_only_grow reached
  exact ⟨declared, reached, rfl, rfl, chains 1 (by decide), fun s n => (runs s n).2.2 _⟩

end Session
end Scriptlet
