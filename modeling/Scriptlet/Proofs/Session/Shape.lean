import Scriptlet.Command
import Scriptlet.Proofs.Machine.Sequence
import Scriptlet.Proofs.Session.Outcome

namespace Scriptlet

open Command (Transcript)

namespace Machine

variable {s : Setting} {n : Nat} {m m' : Machine} {stmts : List Stmt} {e : Located Fault}

/-- How statements in sequence come to an end: all of them are run, or those before the first one that fails. It fails on
the machine that they leave behind and with the budget that they leave, and what is behind it is not run. -/
inductive Finishes (s : Setting) (n : Nat) (stmts : List Stmt) (m : Machine) : Option (Located Fault) → Machine → Prop
  | through {m' : Machine} (run : executeAll s n stmts m = .ok .onward m') : Finishes s n stmts m none m'
  | failed {before behind : List Stmt} {stmt : Stmt} {m₁ m' : Machine} {e : Located Fault}
      (parts : stmts = before ++ stmt :: behind) (run : executeAll s n before m = .ok .onward m₁)
      (fails : execute s (n - (before.length + 1)) stmt m₁ = .error (.failed e) m') : Finishes s n stmts m (some e) m'

theorem finishes_of_failed (run : executeAll s n stmts m = .error (.failed e) m') : Finishes s n stmts m (some e) m' := by
  induction stmts generalizing n m with
  | nil => cases n <;> cases run
  | cons stmt rest ih =>
    obtain _ | n := n
    · cases run
    unfold executeAll at run
    change EStateM.bind _ _ m = _ at run
    rw [EStateM.bind] at run
    cases first : execute s n stmt m with
    | error stop m₁ =>
      rw [first] at run
      cases run
      exact .failed (List.nil_append _).symm rfl first
    | ok flow m₁ =>
      rw [first] at run
      cases flow with
      | returned value => cases run
      | onward =>
        cases ih run with
        | @failed before behind failing m₂ _ _ parts ran fails =>
          have split : stmt :: rest = (stmt :: before) ++ failing :: behind := congrArg (stmt :: ·) parts
          refine .failed split (bind_eq_ok.2 ⟨.onward, m₁, first, ran⟩) ?_
          rwa [List.length_cons, Nat.add_sub_add_right]

end Machine

theorem Event.isError_eq_false {event : Event} : event.isError = false ↔ ∃ value, event = .printed value := by
  cases event <;> simp [isError, complaint?]

namespace Command

theorem decode_toUTF8 (text : String) : decode text.toUTF8 = .ok text := by
  have valid : String.fromUTF8? text.toUTF8 = some text := dif_pos text.isValidUTF8
  rw [decode, valid]

theorem Transcript.code_ofEvents {events : List Event} :
    (ofEvents events).code = 0 ↔ ∀ event ∈ events, ∃ value, event = .printed value := by
  have clean : events.any Event.isError = false ↔ ∀ event ∈ events, ∃ value, event = .printed value := by
    simp only [List.any_eq_false, Bool.not_eq_true, Event.isError_eq_false]
  rw [← clean, ofEvents]
  cases events.any Event.isError <;> simp

theorem run_path {readFile : String → Except InputFault ByteArray} {path text : String}
    (readable : readFile path = .ok text.toUTF8) (clock : Nat → Float) (input : ByteArray) (verbose : Bool) :
    run clock readFile input ⟨some path, false, verbose⟩ = runText clock text := by
  have decoded : readFile path >>= decode = .ok text := by
    rw [readable]
    exact decode_toUTF8 text
  unfold run
  dsimp only
  rw [decoded]
  rfl

theorem runText_of_regular {clock : Nat → Float} {text : String}
    (regular : ((Session.start clock).run .standard text).2.ending = .regular) :
    runText clock text = .ofEvents ((Session.start clock).run .standard text).2.events := by
  rw [runText, Transcript.ofReport, regular]

end Command

namespace Session

open Machine (Finishes)

variable {s : Session} {n : Nat} {text : String}

theorem finishes_of_regular (accepts : s.Accepts text)
    (regular : (s.run (.keeping .withFunctions n) text).2.ending = .regular) :
    ∃ failure m, Finishes (s.settingOf text) n (s.programOf text) s.machine failure m ∧
      (s.run (.keeping .withFunctions n) text).2.events = (Parse.ofString text s.nextId).events ++
        (m.printed.reverse.map Event.printed ++ failure.toList.map Event.failure) := by
  rw [report_of_accepts accepts] at regular ⊢
  dsimp only at regular ⊢
  cases run : Machine.executeAll (s.settingOf text) n (s.programOf text) s.machine with
  | ok flow m =>
    cases Machine.onward_of_obeys ((proper_programOf s text).obeys accepts) run
    exact ⟨none, m, .through run, by simp [Report.ofResult, Machine.left]⟩
  | error stop m =>
    rw [run] at regular
    cases stop with
    | failed e => exact ⟨some e, m, Machine.finishes_of_failed run, rfl⟩
    | defective d => cases regular
    | exhausted => cases regular

/-- The events of a text that is run to an end: the faults of scanning it, the faults of reading it, and then a single
breach, with machine and addresses as they were, or the values that its statements print and the failure of the first
that fails. A file with the text is run with the code zero just if all events of a new session are printed values. -/
theorem shape_of_run :
    (∀ {s : Session} {n : Nat} {text : String} {t : Session} {report : Report},
      s.run (.keeping .withFunctions n) text = (t, report) → report.ending = .regular →
      ∃ rest, report.events = (scan text).faults.map Event.lexical ++
          (Grammar.read (scan text).tokens s.nextId).faults.map Event.grammar ++ rest ∧
        ((∃ breach, (s.scopingOf text).2 = some breach ∧ rest = [.scope breach] ∧
            t.machine = s.machine ∧ t.addresses = s.addresses) ∨
          (s.scopingOf text).2 = none ∧
            ∃ failure m, Finishes (s.settingOf text) n (s.programOf text) s.machine failure m ∧
              rest = m.printed.reverse.map Event.printed ++ failure.toList.map Event.failure)) ∧
    ∀ {clock : Nat → Float} {readFile : String → Except Command.InputFault ByteArray} {path text : String},
      readFile path = .ok text.toUTF8 → ((start clock).run .standard text).2.ending = .regular → ∀ input verbose,
      ((Command.run clock readFile input ⟨some path, false, verbose⟩).code = 0 ↔
        ∀ event ∈ ((start clock).run .standard text).2.events, ∃ value, event = .printed value) := by
  refine ⟨?_, ?_⟩
  · intro s n text t report ran regular
    cases scoping : (s.scopingOf text).2 with
    | some breach =>
      rw [run_keeping_refused scoping] at ran
      cases ran
      exact ⟨_, rfl, .inl ⟨breach, rfl, rfl, rfl, rfl⟩⟩
    | none =>
      obtain rfl : (s.run (.keeping .withFunctions n) text).2 = report := congrArg Prod.snd ran
      obtain ⟨failure, m, finishes, events⟩ := finishes_of_regular scoping regular
      exact ⟨_, events, .inr ⟨rfl, failure, m, finishes, rfl⟩⟩
  · intro clock readFile path text readable regular input verbose
    rw [Command.run_path readable, Command.runText_of_regular regular]
    exact Transcript.code_ofEvents

def faulty : String := "@ print true; print ); print -\"x\"; print nil;"

theorem shape_of_run_faulty :
    let s := start fun _ => 0
    let report := (s.run (.keeping .withFunctions 20) faulty).2
    let readFile : String → Except Command.InputFault ByteArray := fun _ => .ok faulty.toUTF8
    report.ending = .regular ∧ report.events.length = 4 ∧
    (∃ rest, report.events = (scan faulty).faults.map Event.lexical ++
        (Grammar.read (scan faulty).tokens s.nextId).faults.map Event.grammar ++ rest ∧
      ∃ failure m, Finishes (s.settingOf faulty) 20 (s.programOf faulty) s.machine failure m ∧
        rest = m.printed.reverse.map Event.printed ++ failure.toList.map Event.failure) ∧
    (Command.run (fun _ => 0) readFile .empty ⟨some "faulty", false, false⟩).code = 1 ∧
    ¬∀ event ∈ (s.run .standard faulty).2.events, ∃ value, event = .printed value := by
  intro s report readFile
  have regular : report.ending = .regular := by decide +kernel
  have accepts : (s.scopingOf faulty).2 = none := Option.isNone_iff_eq_none.1 (by decide +kernel)
  have standard : (s.run .standard faulty).2.ending = .regular := by decide +kernel
  have readable : readFile "faulty" = .ok faulty.toUTF8 := rfl
  have code : (Command.run (fun _ => 0) readFile .empty ⟨some "faulty", false, false⟩).code = 1 := by
    rw [Command.run_path readable]
    decide +kernel
  obtain ⟨rest, events, refused | ⟨_, finished⟩⟩ := shape_of_run.1 (Prod.eta _).symm regular
  · obtain ⟨breach, scoping, _⟩ := refused
    cases accepts.symm.trans scoping
  have file := shape_of_run.2 readable standard .empty false
  refine ⟨regular, by decide +kernel, ⟨rest, events, finished⟩, code, fun clean => ?_⟩
  cases code.symm.trans (file.2 clean)

end Session

end Scriptlet
