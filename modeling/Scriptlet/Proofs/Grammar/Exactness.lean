import Scriptlet.Proofs.Grammar.Completeness
import Scriptlet.Proofs.Grammar.Refinement

namespace Scriptlet.Grammar

open Outcome Episode Cursor

namespace Episode

theorem faultsIn_append (before later : List Episode) :
    faultsIn (before ++ later) = faultsIn before ++ faultsIn later := by
  induction before with
  | nil => rfl
  | cons episode before ih => simp [faultsIn, ih]

theorem faultsIn_reverse_eq_nil {history : List Episode} : faultsIn history.reverse = [] ↔ faultsIn history = [] := by
  induction history with
  | nil => rfl
  | cons episode rest ih => simp [faultsIn, faultsIn_append, ih, and_comm]

mutual

theorem faults_of_flawless : ∀ {episode : Episode}, episode.flawless = true → episode.faults = []
  | .fault .., h => by cases h
  | .declaration history kept, h => by
    simp only [flawless, Bool.and_eq_true] at h
    exact faultsIn_of_flawlessIn h.2

theorem faultsIn_of_flawlessIn : ∀ {history : List Episode}, flawlessIn history = true → faultsIn history = []
  | [], _ => rfl
  | episode :: rest, h => by
    simp only [flawlessIn, Bool.and_eq_true] at h
    rw [faultsIn, faults_of_flawless h.1, faultsIn_of_flawlessIn h.2, List.append_nil]

end

theorem flawless_of_mem {episode : Episode} {history : List Episode} (h : flawlessIn history = true)
    (hm : episode ∈ history) : episode.flawless = true := by
  induction history with
  | nil => cases hm
  | cons head rest ih =>
    simp only [flawlessIn, Bool.and_eq_true] at h
    cases hm with
    | head => exact h.1
    | tail _ hm => exact ih h.2 hm

theorem Happens.flawless {episode : Episode} {history : List Episode} (h : Happens episode history)
    (flawless : flawlessIn history = true) : episode.flawless = true := by
  induction h with
  | here hm => exact flawless_of_mem flawless hm
  | inside _ hm ih =>
    have outer := flawless_of_mem flawless hm
    simp only [Episode.flawless, Bool.and_eq_true] at outer
    exact ih outer.2

end Episode

def Cursor.Settles (c d : Cursor) : Prop :=
  (faultsIn d.history = [] → faultsIn c.history = []) ∧ (c.Calm → faultsIn d.history = [] → d.Calm)

namespace Cursor.Settles

theorem of_eq {c d : Cursor} (history : d.history = c.history) (recovering : d.recovering = c.recovering) :
    Settles c d := by
  unfold Settles Calm
  rw [history, recovering]
  exact ⟨id, fun calm _ => calm⟩

theorem trans {c d e : Cursor} (h : Settles c d) (k : Settles d e) : Settles c e :=
  ⟨fun none => h.1 (k.1 none), fun calm none => k.2 (h.2 calm (k.1 none)) none⟩

theorem report (c : Cursor) (t : Token) (fault : Fault) : Settles c (c.report t fault) := by
  refine ⟨fun none => ?_, fun calm none => ?_⟩
  · rw [history_report, faultsIn, List.append_eq_nil_iff] at none
    exact none.2
  · simp [faultsIn, faults, calm.1] at none

theorem conclude {c d : Cursor} (h : Settles { c with history := [] } d) : Settles c (d.conclude c.history) := by
  simp only [Settles, history_conclude, faultsIn, faults, List.append_eq_nil_iff, faultsIn_reverse_eq_nil]
  refine ⟨And.right, fun calm none => ?_⟩
  have inside := h.2 ⟨calm.1, rfl⟩ none.1
  refine ⟨recovering_conclude _ _, ?_⟩
  simp [flawlessIn, Episode.flawless, inside.1, inside.2, calm.2]

theorem trail : Cursor.Trail Settles :=
  .ofSteps (fun _ => of_eq rfl rfl) trans (fun c => of_eq c.history_advance c.recovering_advance) report
    (fun _ => of_eq rfl rfl) (fun _ _ => of_eq rfl rfl) conclude

end Cursor.Settles

theorem ofTokens_append {body : List Token} {last : Token} (inside : ∀ t ∈ body, t.kind ≠ .endMark)
    (ends : last.kind = .endMark) (nextId : UseId) :
    ofTokens (body ++ [last]) nextId =
      { previous := body.headD last, rest := body, endMark := last, depth := 0, recovering := false, nextId,
        history := [] } := by
  have all : ∀ t ∈ body, (!isEnd t) = true := by simpa [isEnd] using inside
  have none : body.find? isEnd = none := by simpa [isEnd] using inside
  have marked : isEnd last = true := by simp [isEnd, ends]
  have head : (body ++ [last]).head? = some (body.headD last) := by cases body <;> rfl
  simp [ofTokens, List.takeWhile_append_of_pos all, List.find?_append, none, marked, head]

theorem read_end (tokens : List Token) (nextId : UseId) :
    ∃ program c, declarations (budget tokens.length) false (ofTokens tokens nextId) = some (program, c) ∧
      read tokens nextId = ⟨program, c.history.reverse, c.nextId⟩ ∧ c.rest = [] ∧
      (faultsIn c.history = [] → c.Calm) := by
  obtain ⟨program, c, run, hread⟩ := read_run tokens nextId
  obtain ⟨⟨-, settles⟩, done | ⟨⟨⟩, -⟩⟩ := (Settles.trail.statements _).declarations _ _ _ _ run
  exact ⟨program, c, run, hread, done, settles ⟨rfl, rfl⟩⟩

/-- A list of tokens is read without a fault exactly if the grammar derives it. Then its program is the only one that the
grammar gives, up to numbers, and no declaration is dropped. -/
theorem read_faults_eq_nil_iff_derives {body : List Token} {last : Token} (inside : ∀ t ∈ body, t.kind ≠ .endMark)
    (ends : last.kind = .endMark) (nextId : UseId) :
    ((read (body ++ [last]) nextId).faults = [] ↔ ∃ program, Derives (.declarations program) body) ∧
      ∀ program, Derives (.declarations program) body →
        Program.unnumbered (read (body ++ [last]) nextId).program = Program.unnumbered program ∧
        Derives (.declarations (read (body ++ [last]) nextId).program) body ∧
        ∀ history kept, Happens (.declaration history kept) (read (body ++ [last]) nextId).history → kept = true := by
  have rest : (ofTokens (body ++ [last]) nextId).rest = body := by rw [ofTokens_append inside ends]
  obtain ⟨program, c, run, hread, done, settled⟩ := read_end (body ++ [last]) nextId
  have sound (none : faultsIn c.history = []) : Derives (.declarations program) body := by
    obtain ⟨-, ts, hts, derived⟩ := (Soundness.statements _).declarations _ _ _ _ run (settled none)
    rw [rest, done, List.append_nil] at hts
    exact hts ▸ derived
  have complete {other : Program} (h : Derives (.declarations other) body) :
      Program.unnumbered program = Program.unnumbered other ∧ flawlessIn c.history = true := by
    have start : (ofTokens (body ++ [last]) nextId).At (body ++ []) := ⟨by simp [rest], rfl, rfl⟩
    obtain ⟨same, -, calm⟩ := h.completes _ [] _ false start (.inl rfl) _ _ run
    exact ⟨same, calm.2⟩
  simp only [Reading.faults, hread, faultsIn_reverse_eq_nil]
  refine ⟨⟨fun none => ⟨program, sound none⟩, fun ⟨other, h⟩ => faultsIn_of_flawlessIn (complete h).2⟩, ?_⟩
  intro other h
  obtain ⟨same, flawless⟩ := complete h
  refine ⟨same, sound (faultsIn_of_flawlessIn flawless), fun history kept happens => ?_⟩
  have whole := happens.flawless (by rw [flawlessIn_reverse, flawless])
  simp only [Episode.flawless, Bool.and_eq_true] at whole
  exact whole.1

def nestedIf : List Token :=
  [⟨.ifWord, "if", none, ⟨0, 1, 1⟩⟩, ⟨.leftParen, "(", none, ⟨3, 1, 4⟩⟩, ⟨.nilWord, "nil", none, ⟨4, 1, 5⟩⟩,
    ⟨.rightParen, ")", none, ⟨7, 1, 8⟩⟩, ⟨.ifWord, "if", none, ⟨9, 1, 10⟩⟩, ⟨.leftParen, "(", none, ⟨12, 1, 13⟩⟩,
    ⟨.nilWord, "nil", none, ⟨13, 1, 14⟩⟩, ⟨.rightParen, ")", none, ⟨16, 1, 17⟩⟩,
    ⟨.printWord, "print", none, ⟨18, 1, 19⟩⟩, ⟨.nilWord, "nil", none, ⟨24, 1, 25⟩⟩,
    ⟨.semicolon, ";", none, ⟨27, 1, 28⟩⟩, ⟨.elseWord, "else", none, ⟨29, 1, 30⟩⟩,
    ⟨.printWord, "print", none, ⟨34, 1, 35⟩⟩, ⟨.nilWord, "nil", none, ⟨40, 1, 41⟩⟩,
    ⟨.semicolon, ";", none, ⟨43, 1, 44⟩⟩]

theorem derives_nestedIf :
    Derives (.declarations [.ifThen (.constant .nil)
      (.ifElse (.constant .nil) (.print (.constant .nil)) (.print (.constant .nil)))]) nestedIf := by
  obtain ⟨derived, only⟩ :=
    @read_faults_eq_nil_iff_derives nestedIf ⟨.endMark, "", none, ⟨44, 1, 45⟩⟩ (by decide) rfl 0
  obtain ⟨program, h⟩ := derived.1 rfl
  exact (only program h).2.1

end Scriptlet.Grammar
