import Scriptlet.Proofs.Grammar.Sequel
import Scriptlet.Proofs.Grammar.Spelling
import Scriptlet.Proofs.Tree.Reread
import Scriptlet.Session

namespace Scriptlet

namespace Parse

theorem spelled_program {text : String} {nextId : UseId} (clean : (ofString text nextId).events = [])
    (finite : ∀ t ∈ (scan text).tokens, t.payload.all Token.Payload.isFinite = true) :
    Stmt.SpelledIn (ofString text nextId).program := by
  obtain ⟨body, last, tokens, ends, inside⟩ := tokens_eq text
  have faults : (Grammar.read (scan text).tokens nextId).faults = [] :=
    List.map_eq_nil_iff.1 (List.append_eq_nil_iff.1 clean).2
  have faithful : ∀ t ∈ body, t.Faithful := by
    intro t mem
    have listed : t ∈ (scan text).tokens := tokens ▸ List.mem_append_left _ mem
    obtain ⟨payload, lexeme⟩ := lexeme_of_mem listed
    exact ⟨⟨lexeme (inside t mem), payload⟩, finite t listed⟩
  rw [tokens] at faults
  have derived := Grammar.derives_of_faults_eq_nil inside ends faults
  rw [← tokens] at derived
  exact derived.spelled faithful

/-- Two texts without faults whose literals are finite are read as the same statements, up to positions and numbers, if the
texts of these statements are the same. -/
theorem render_unambiguous {text text' : String} {nextId nextId' : UseId} (clean : (ofString text nextId).events = [])
    (clean' : (ofString text' nextId').events = [])
    (finite : ∀ t ∈ (scan text).tokens, t.payload.all Token.Payload.isFinite = true)
    (finite' : ∀ t ∈ (scan text').tokens, t.payload.all Token.Payload.isFinite = true)
    (same : (ofString text nextId).program.render = (ofString text' nextId').program.render) :
    (ofString text nextId).program.map (Stmt.view Token.unplaced) =
      (ofString text' nextId').program.map (Stmt.view Token.unplaced) :=
  Program.view_eq_of_render_eq (spelled_program clean finite) (spelled_program clean' finite') same

def dense : String := "if(a)if(b)print-1.50-x;else{}for(;;)f(\"; \x7d\")[x=2]();"

def loose : String :=
  "if (a)\n  if (b) print -1.5 - x; // one\n  else \x7b\x7d\nwhile (true) f(\"; \x7d\")[x = 2.0]();"

theorem render_unambiguous_dense :
    (ofString dense 0).program.render =
        ["if (a) if (b) print (- (- 1.5) x); else \x7b  \x7d",
          "while (true) (call (index (call f \"; \x7d\") (= x 2)));"] ∧
      (ofString dense 0).program.map (Stmt.view Token.unplaced) =
        (ofString loose 7).program.map (Stmt.view Token.unplaced) := by
  refine ⟨by decide +kernel, render_unambiguous ?_ ?_ ?_ ?_ ?_⟩
  · exact List.isEmpty_iff.1 (by decide +kernel)
  · exact List.isEmpty_iff.1 (by decide +kernel)
  · decide +kernel
  · decide +kernel
  · decide +kernel

end Parse

end Scriptlet
