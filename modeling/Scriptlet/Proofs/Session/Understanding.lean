import Scriptlet.Proofs.Machine.Understanding
import Scriptlet.Proofs.Session.Outcome

namespace Scriptlet.Session

open Machine (Stop)

theorem understands_start (clock : Nat → Float) : (start clock).machine.Understands := by
  intro f x v found
  change (Store.initial.add Store.global "clock" (.function 0 (.builtin clockBuiltin))).find? f x = some v at found
  rw [Store.find?_add (by decide)] at found
  split at found
  · exact Option.some.inj found ▸ trivial
  · cases (Store.find?_initial f x).symm.trans found

theorem understood_programOf (s : Session) (text : String) : Stmt.UnderstoodIn (s.programOf text) :=
  Grammar.read_understood (scan text).tokens s.nextId

section Batch

variable {s : Session}

theorem perform_understood {program : Program} (policy : Policy) (understands : s.machine.Understands)
    (understood : Stmt.UnderstoodIn program) :
    (perform policy s program).1.machine.Understands ∧
      ∀ e, .failure e ∈ (perform policy s program).2.events → (Stop.failed e).Understood := by
  have ends := (Machine.safeRuns ⟨addAll (resolvedBy policy program).1.addresses s.addresses, policy.addressing, s.clock⟩
    policy.budget).executeAll program understood s.machine understands
  rcases perform_cases policy s program with refused | run
  · rw [refused]
    exact ⟨understands, by simp⟩
  · rw [run]
    generalize Machine.executeAll _ policy.budget program s.machine = result at ends ⊢
    constructor
    · cases result <;> exact ends.1
    · intro e reported
      obtain ⟨m, rfl⟩ : ∃ m, result = .error (.failed e) m := by
        simpa [Report.failure_mem_ofResult] using reported
      exact ends.2

theorem run_understood (policy : Policy) (text : String) (understands : s.machine.Understands) :
    (s.run policy text).1.machine.Understands ∧
      ∀ e, .failure e ∈ (s.run policy text).2.events → (Stop.failed e).Understood := by
  have performed := perform_understood (s := { s with nextId := s.nextIdOf text }) policy understands
    (understood_programOf s text)
  refine ⟨performed.1, fun e reported => performed.2 e ?_⟩
  have silent : Event.failure e ∉ (Parse.ofString text s.nextId).events := by simp [Parse.ofString]
  exact (List.mem_append.1 reported).resolve_left silent

end Batch

def played (clock : Nat → Float) (batches : List (Policy × String)) : Session :=
  batches.foldl (fun s batch => (s.run batch.1 batch.2).1) (start clock)

theorem understands_played (clock : Nat → Float) (batches : List (Policy × String)) :
    (played clock batches).machine.Understands := by
  induction batches using List.reverseRecOn with
  | nil => exact understands_start clock
  | append_singleton batches batch ih =>
    rw [played, List.foldl_append]
    exact (run_understood batch.1 batch.2 ih).1

/-- The operators in what is read fit their nodes, and branches are no declarations, whatever the tokens are. Therefore no
batch of a session ever fails for an operator. -/
theorem operators_understood (clock : Nat → Float) :
    (∀ tokens nextId, Stmt.UnderstoodIn (Grammar.read tokens nextId).program ∧
      Stmt.PlainIn (Grammar.read tokens nextId).program) ∧
    ∀ (batches : List (Policy × String)) (policy : Policy) (text : String) (token operator : Token),
      .failure ⟨token, .unknownBinary operator⟩ ∉ ((played clock batches).run policy text).2.events ∧
      .failure ⟨token, .unknownUnary operator⟩ ∉ ((played clock batches).run policy text).2.events := by
  refine ⟨fun tokens nextId => ⟨Grammar.read_understood tokens nextId, (Grammar.read_numbered tokens nextId).2⟩, ?_⟩
  intro batches policy text token operator
  have reported := (run_understood policy text (understands_played clock batches)).2
  exact ⟨fun mem => (reported _ mem).2 operator rfl, fun mem => (reported _ mem).1 operator rfl⟩

end Scriptlet.Session
