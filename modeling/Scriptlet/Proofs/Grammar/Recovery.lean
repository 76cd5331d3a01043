import Scriptlet.Proofs.Grammar.Refinement

/-!
Which declarations survive a fault. A declaration is dropped when the reader is recovering at its end. But every
declaration nested in it ends the recovery, also one from a fault of the declaration around it, so what is damaged before a
block that is not empty may be kept.
-/

namespace Scriptlet.Grammar

open Outcome

namespace Episode

def after (recovering : Bool) : Episode → Bool
  | .fault error _ => recovering || error.cause.needsRecovery
  | .declaration .. => false

def setsBack : Episode → Bool
  | .fault error hushed => !hushed && error.cause.needsRecovery
  | .declaration .. => false

def isDeclaration : Episode → Bool
  | .fault .. => false
  | .declaration .. => true

inductive Happens (episode : Episode) : List Episode → Prop
  | here {history : List Episode} : episode ∈ history → Happens episode history
  | inside {history outer : List Episode} {kept : Bool} : Happens episode history →
      .declaration history kept ∈ outer → Happens episode outer

mutual

/-- The faults that start a recovery, save those inside a declaration that is dropped. -/
def strays : Episode → List (Located Fault)
  | .fault error hushed => if !hushed && error.cause.needsRecovery then [error] else []
  | .declaration history kept => if kept then straysIn history else []

def straysIn : List Episode → List (Located Fault)
  | [] => []
  | episode :: rest => episode.strays ++ straysIn rest

end

mutual

/-- Whether a recovery is ended by a nested declaration, again save inside a declaration that is dropped. -/
def resumes : Episode → Bool
  | .fault .. => false
  | .declaration history kept => kept && resumesIn history

def resumesIn : List Episode → Bool
  | [] => false
  | episode :: rest => episode.setsBack && rest.any isDeclaration || episode.resumes || resumesIn rest

end

mutual

def Lawful : Episode → Prop
  | .fault .. => True
  | .declaration history kept => (∃ recovering, kept = !history.foldl after recovering) ∧ LawfulIn history

def LawfulIn : List Episode → Prop
  | [] => True
  | episode :: rest => episode.Lawful ∧ LawfulIn rest

end

theorem lawfulIn_append {before later : List Episode} :
    LawfulIn (before ++ later) ↔ LawfulIn before ∧ LawfulIn later := by
  induction before with
  | nil => simp [LawfulIn]
  | cons episode before ih => simp [LawfulIn, ih, and_assoc]

theorem lawful_of_mem {episode : Episode} {history : List Episode} (h : LawfulIn history)
    (hm : episode ∈ history) : episode.Lawful := by
  induction history with
  | nil => cases hm
  | cons head rest ih =>
    cases hm with
    | head => exact h.1
    | tail _ hm => exact ih h.2 hm

theorem Happens.lawful {episode : Episode} {history : List Episode} (h : Happens episode history)
    (lawful : LawfulIn history) : episode.Lawful := by
  induction h with
  | here hm => exact lawful_of_mem lawful hm
  | inside _ hm ih => exact ih (lawful_of_mem lawful hm).2

theorem foldl_after_of_no_declaration {history : List Episode} (h : history.any isDeclaration = false) :
    history.foldl after true = true := by
  induction history with
  | nil => rfl
  | cons episode rest ih =>
    cases episode with
    | fault error hushed =>
      simp only [List.any_cons, isDeclaration, Bool.false_or] at h
      simpa [after] using ih h
    | declaration => simp [isDeclaration] at h

mutual

theorem strays_eq_nil_iff : ∀ {episode : Episode}, episode.Lawful → episode.setsBack = false →
    (episode.strays = [] ↔ episode.resumes = false)
  | .fault error hushed, _, h => by
    simp only [setsBack] at h
    simp [strays, resumes, h]
  | .declaration history false, _, _ => by simp [strays, resumes]
  | .declaration history true, lawful, _ => by
    obtain ⟨⟨recovering, kept⟩, inside⟩ := lawful
    have calm : history.foldl after recovering = false := by simpa using kept
    simpa [strays, resumes] using straysIn_eq_nil_iff inside calm

theorem straysIn_eq_nil_iff : ∀ {history : List Episode} {recovering : Bool}, LawfulIn history →
    history.foldl after recovering = false → (straysIn history = [] ↔ resumesIn history = false)
  | [], _, _, _ => by simp [straysIn, resumesIn]
  | episode :: rest, recovering, lawful, calm => by
    have later := straysIn_eq_nil_iff lawful.2 calm
    cases back : episode.setsBack with
    | false =>
      have here := strays_eq_nil_iff lawful.1 back
      simp [straysIn, resumesIn, back, here, later]
    | true =>
      cases episode with
      | declaration => cases back
      | fault error hushed =>
        have lost : error.cause.needsRecovery = true := by
          simp only [setsBack, Bool.and_eq_true] at back
          exact back.2
        simp only [setsBack] at back
        have ended : rest.any isDeclaration = true := by
          cases some : rest.any isDeclaration with
          | true => rfl
          | false =>
            have stuck := foldl_after_of_no_declaration some
            simp only [List.foldl_cons, after, lost, Bool.or_true, stuck] at calm
            cases calm
        simp [straysIn, resumesIn, strays, setsBack, back, ended]

end

end Episode

open Episode

def Cursor.Records (c d : Cursor) : Prop :=
  ∃ new, d.history = new.reverse ++ c.history ∧ d.recovering = new.foldl after c.recovering ∧ LawfulIn new

namespace Cursor.Records

theorem of_eq {c d : Cursor} (history : d.history = c.history) (recovering : d.recovering = c.recovering) :
    Records c d :=
  ⟨[], by simp [history], by simp [recovering], trivial⟩

theorem trans {c d e : Cursor} (h : Records c d) (k : Records d e) : Records c e := by
  obtain ⟨new, hh, hr, hl⟩ := h
  obtain ⟨new', kh, kr, kl⟩ := k
  exact ⟨new ++ new', by simp [kh, hh], by simp [kr, hr], lawfulIn_append.2 ⟨hl, kl⟩⟩

theorem report (c : Cursor) (t : Token) (fault : Fault) : Records c (c.report t fault) :=
  ⟨[.fault ⟨t, fault⟩ c.recovering], rfl, rfl, trivial, trivial⟩

theorem conclude {c d : Cursor} (h : Records { c with history := [] } d) : Records c (d.conclude c.history) := by
  obtain ⟨new, hh, hr, hl⟩ := h
  have own : d.history.reverse = new := by simp [hh]
  refine ⟨[.declaration new (!d.recovering)], by simp [own], by simp [after], ⟨⟨c.recovering, ?_⟩, hl⟩, trivial⟩
  rw [hr]

theorem trail : Cursor.Trail Records :=
  .ofSteps (fun _ => of_eq rfl rfl) trans (fun c => of_eq c.history_advance c.recovering_advance) report
    (fun _ => of_eq rfl rfl) (fun _ _ => of_eq rfl rfl) conclude

end Cursor.Records

theorem lawfulIn_read (tokens : List Token) (nextId : UseId) : LawfulIn (read tokens nextId).history := by
  obtain ⟨program, c, run, hread⟩ := read_run tokens nextId
  obtain ⟨⟨new, history, -, lawful⟩, -⟩ := (Cursor.Records.trail.statements _).declarations _ _ _ _ run
  simpa [hread, history, Cursor.ofTokens] using lawful

/-- Every fault of a kept declaration that starts a recovery lies inside a dropped one, exactly if no recovery in it is
ended by a nested declaration. -/
theorem straysIn_kept_eq_nil_iff {tokens : List Token} {nextId : UseId} {history : List Episode}
    (kept : Happens (.declaration history true) (read tokens nextId).history) :
    straysIn history = [] ↔ resumesIn history = false := by
  obtain ⟨⟨recovering, calm⟩, lawful⟩ := kept.lawful (lawfulIn_read tokens nextId)
  exact straysIn_eq_nil_iff lawful (by simpa using calm)

def emptyPrint : List Token :=
  [⟨.leftBrace, "\x7b", none, ⟨0, 1, 1⟩⟩, ⟨.printWord, "print", none, ⟨2, 1, 3⟩⟩, ⟨.semicolon, ";", none, ⟨7, 1, 8⟩⟩,
    ⟨.rightBrace, "\x7d", none, ⟨9, 1, 10⟩⟩, ⟨.endMark, "", none, ⟨10, 1, 11⟩⟩]

def emptyPrint.block : List Episode :=
  [.declaration [.fault ⟨⟨.semicolon, ";", none, ⟨7, 1, 8⟩⟩, .missingExpression⟩ false,
    .fault ⟨⟨.rightBrace, "\x7d", none, ⟨9, 1, 10⟩⟩, .missing .printEnd⟩ true] false]

theorem straysIn_emptyPrint : straysIn emptyPrint.block = [] ∧ faultsIn emptyPrint.block ≠ [] := by
  have history : (read emptyPrint 0).history = [.declaration emptyPrint.block true] := by
    rw [read, read?_eq]
    rfl
  have kept : Happens (.declaration emptyPrint.block true) (read emptyPrint 0).history :=
    .here (history ▸ List.mem_singleton_self _)
  exact ⟨(straysIn_kept_eq_nil_iff kept).2 (by decide), by decide⟩

def unopenedIf : List Token :=
  [⟨.ifWord, "if", none, ⟨0, 1, 1⟩⟩, ⟨.nilWord, "nil", none, ⟨3, 1, 4⟩⟩, ⟨.rightParen, ")", none, ⟨6, 1, 7⟩⟩,
    ⟨.leftBrace, "\x7b", none, ⟨8, 1, 9⟩⟩, ⟨.printWord, "print", none, ⟨10, 1, 11⟩⟩,
    ⟨.nilWord, "nil", none, ⟨16, 1, 17⟩⟩, ⟨.semicolon, ";", none, ⟨19, 1, 20⟩⟩,
    ⟨.rightBrace, "\x7d", none, ⟨21, 1, 22⟩⟩, ⟨.endMark, "", none, ⟨22, 1, 23⟩⟩]

/-- The fault is found at `nil`, and `print nil;` ends the recovery. -/
def unopenedIf.header : List Episode :=
  [.fault ⟨⟨.nilWord, "nil", none, ⟨3, 1, 4⟩⟩, .missing .ifStart⟩ false, .declaration [] false]

/-- A declaration with a malformed header is kept, here as `if (nil) { }`. -/
theorem not_straysIn_kept_eq_nil : ¬∀ (tokens : List Token) (nextId : UseId) (history : List Episode),
    Happens (.declaration history true) (read tokens nextId).history → straysIn history = [] := by
  intro claim
  have history : (read unopenedIf 0).history = [.declaration unopenedIf.header true] := by
    rw [read, read?_eq]
    rfl
  have kept : Happens (.declaration unopenedIf.header true) (read unopenedIf 0).history :=
    .here (history ▸ List.mem_singleton_self _)
  exact absurd (claim _ _ _ kept) (by decide)

end Scriptlet.Grammar
