import Scriptlet.Command
import Scriptlet.Proofs.Machine.Relocation
import Scriptlet.Proofs.Session.Batch

namespace Scriptlet

open Machine (Stop)
open Command (Transcript)

def Event.value? : Event → Option Value
  | .printed value => some value
  | _ => none

theorem Command.Transcript.unlines_append (lines lines' : List String) :
    unlines (lines ++ lines') = unlines lines ++ unlines lines' := by
  rw [unlines, List.map_append, String.join_append]
  rfl

namespace Report

def printed (report : Report) : List Value :=
  report.events.filterMap Event.value?

def errors (report : Report) : List Event :=
  report.events.filter Event.isError

theorem output_eq (report : Report) :
    (Transcript.ofEvents report.events).output = Transcript.unlines (report.printed.map Value.display) := by
  unfold Transcript.ofEvents printed
  rw [List.map_filterMap]
  refine congrArg Transcript.unlines (List.filterMap_congr fun event _ => ?_)
  cases event <;> rfl

end Report

namespace Machine

variable {α : Type}

def failures : EStateM.Result Stop Machine α → List Event
  | .error (.failed e) _ => [.failure e]
  | _ => []

end Machine

theorem Report.printed_ofResult {α : Type} (result : EStateM.Result Stop Machine α) :
    (Report.ofResult result).printed = (Machine.left result).printed.reverse := by
  have values (values : List Value) : (values.map Event.printed).filterMap Event.value? = values := by
    simp [List.filterMap_map, Function.comp_def, Event.value?]
  unfold Report.ofResult Report.printed
  split <;> simp [values, Event.value?, List.filterMap_append, List.filterMap_cons]

theorem Report.errors_ofResult {α : Type} (result : EStateM.Result Stop Machine α) :
    (Report.ofResult result).errors = Machine.failures result := by
  have none (values : List Value) : (values.map Event.printed).filter Event.isError = [] := by
    simp [List.filter_eq_nil_iff, Event.isError, Event.complaint?]
  unfold Report.ofResult Report.errors Machine.failures
  split <;> simp [none, List.filter_append, Event.isError, Event.complaint?]

theorem Value.Alike.display_eq_of_names {functions : Stmt → Stmt → Prop} {v v' : Value} (h : v.Alike functions v')
    (names : ∀ {name name' parameters parameters' body body'},
      functions (.function name parameters body) (.function name' parameters' body') → name'.lexeme = name.lexeme) :
    v'.display = v.display := by
  cases h with
  | closure serial frame same =>
    simp only [Value.display, Callable.marked, Callable.name, names same]
    rfl
  | _ => rfl

theorem Value.Alike.display_eq {functions : Stmt → Stmt → Prop} {v v' : Value} (h : v.Alike functions v')
    (views : ∀ g g', functions g g' → ∃ f : Token → Token, (∀ a, (f a).lexeme = a.lexeme) ∧ g'.unnumbered = g.view f) :
    v'.display = v.display := by
  refine h.display_eq_of_names fun {name _ _ _ _ _} same => ?_
  obtain ⟨f, lexeme, view⟩ := views _ _ same
  obtain ⟨rfl, -⟩ := Stmt.function.inj view
  exact lexeme name

end Scriptlet
