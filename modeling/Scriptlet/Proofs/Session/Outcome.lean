import Scriptlet.Proofs.Address.Rules
import Scriptlet.Proofs.Machine.Inventory
import Scriptlet.Proofs.Session.Agreement

namespace Scriptlet

open Machine (Stop)

namespace Session

theorem holds_start (known : Stmt → Prop) (clock : Nat → Float) : (start clock).machine.Holds known := by
  have size : Store.global < Store.initial.frames.size := by decide
  have names (f : FrameId) : Store.initial.bindings f = [] := by
    cases f with
    | zero => rfl
    | succ => rfl
  refine ⟨rfl, Nat.zero_lt_one, fun f => ?_, fun f b mem => ?_, rfl⟩
  · change ((Store.initial.add Store.global "clock" _).names f).Nodup
    rw [Store.names_add size, Store.names, names]
    split <;> simp [Bindings.names]
  · change b ∈ (Store.initial.add Store.global "clock" (.function 0 (.builtin clockBuiltin))).bindings f at mem
    rw [Store.bindings_add size, names] at mem
    split at mem
    · cases List.mem_singleton.1 mem
      exact .builtin 0 rfl
    · cases mem

theorem proper_programOf (s : Session) (text : String) : (s.programOf text).Proper :=
  ⟨plain_programOf s text, (within_programOf s text).nodup⟩

def reports (policy : Policy) : Session → List String → List Report
  | _, [] => []
  | s, text :: rest => (s.run policy text).2 :: reports policy (s.run policy text).1 rest

/-- The sessions that texts can lead to, each run within a budget of its own. -/
inductive Reachable (clock : Nat → Float) : Session → Prop
  | start : Reachable clock (start clock)
  | run {s : Session} (before : Reachable clock s) (n : Nat) (text : String) :
      Reachable clock (s.run (.keeping .withFunctions n) text).1

end Session
end Scriptlet
