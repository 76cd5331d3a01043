import Scriptlet.Proofs.Grammar.Sequel
import Scriptlet.Proofs.Machine.Sequence
import Scriptlet.Proofs.Session.Mark

namespace Scriptlet

open Machine (Stop Flow)
open Command (Transcript)

namespace Session

variable {s t : Session} {text more : String} {n : Nat}

theorem executeAll_of_clean {retention : Retention} (regular : (s.run (.keeping retention n) text).2.ending = .regular)
    (clean : (s.run (.keeping retention n) text).2.errors = []) :
    (scan text).faults = [] ∧ (Grammar.read (scan text).tokens s.nextId).faults = [] ∧ s.Accepts text ∧
      ∃ m, Machine.executeAll ⟨s.tableOf text, .lexical, s.clock⟩ n (s.programOf text) s.machine = .ok .onward m := by
  cases breach : (s.scopingOf text).2 with
  | some fault =>
    rw [run_keeping_refused breach, Report.errors, note] at clean
    simp [List.filter_append, Event.isError, Event.complaint?] at clean
  | none =>
    obtain ⟨-, -, errors, ending⟩ := report_keeping retention n breach
    rw [clean] at errors
    rw [regular] at ending
    obtain ⟨faults, failures⟩ := List.append_eq_nil_iff.1 errors.symm
    obtain ⟨lexical, grammar⟩ := List.append_eq_nil_iff.1 faults
    refine ⟨List.map_eq_nil_iff.1 lexical, List.map_eq_nil_iff.1 grammar, breach, ?_⟩
    cases run : Machine.executeAll ⟨s.tableOf text, .lexical, s.clock⟩ n (s.programOf text) s.machine with
    | ok flow m =>
      cases Machine.onward_of_obeys ((proper_programOf s text).obeys breach) run
      exact ⟨m, rfl⟩
    | error stop m =>
      rw [run] at failures ending
      cases stop <;> simp [Machine.failures, Report.ofResult] at failures ending

theorem read_joined {nextId : UseId} (lexical : (scan text).faults = [])
    (grammar : (Grammar.read (scan text).tokens nextId).faults = [])
    (apart : ∀ t ∈ (scan more).tokens.head?, t.kind ≠ .elseWord) (nextId' : UseId) :
    let parse := Parse.ofString (text ++ "\n" ++ more) nextId
    let parse' := Parse.placed (Position.behind (text ++ "\n")) more nextId'
    parse.events = parse'.events ∧
      ∃ stmts stmts', parse.program = stmts ++ stmts' ∧
        stmts.map Stmt.unnumbered = (Parse.ofString text nextId).program.map Stmt.unnumbered ∧
        stmts'.map Stmt.unnumbered = parse'.program.map Stmt.unnumbered := by
  have closed (p : Position) : .unterminated p ∉ (scan text).faults := lexical ▸ List.not_mem_nil
  obtain ⟨tokens, faults⟩ := scan_join closed more
  rw [lexical, List.nil_append] at faults
  obtain ⟨body, last, eq, ends, inside⟩ := tokens_eq text
  obtain ⟨body', last', eq', ends', inside'⟩ := tokens_eq more
  have view : Grammar.View (Token.behind (text ++ "\n")) := ⟨fun _ => rfl, fun _ => rfl⟩
  have apart : ¬Grammar.Begins [.elseWord] body' := by
    rintro ⟨t, rest, rfl, kind⟩
    exact apart t (by simp [eq']) (List.mem_singleton.1 kind)
  rw [eq] at grammar
  obtain ⟨stmts, stmts', program, same, same', errors⟩ :=
    Grammar.read_append inside ends inside' ends' view grammar apart nextId' nextId
  have marks : ∃ t ∈ (scan more).tokens, t.kind = .endMark := ⟨last', by simp [eq'], ends'⟩
  obtain ⟨moved, moved'⟩ := Grammar.read_map view marks nextId' nextId'
  rw [eq, List.dropLast_concat] at tokens
  rw [← eq', ← tokens] at program errors
  rw [← eq'] at same'
  rw [← eq] at same
  refine ⟨?_, stmts, stmts', program, same, same'.trans moved.symm⟩
  rw [Parse.ofString, Parse.placed, faults]
  exact congrArg (_ ++ List.map _ ·) (errors.trans moved'.symm)

/-- Two texts in one: `s` is the session before them and `t` the one between them, and `later` is the program of the second
text at another place. -/
structure Joins (s t : Session) (text more : String) (f : Position → Position) (later stmts stmts' : Program) : Prop where
  program : s.programOf (text ++ "\n" ++ more) = stmts ++ stmts'
  first : stmts.map Stmt.unnumbered = (s.programOf text).map Stmt.unnumbered
  second : stmts'.map Stmt.unnumbered = later.map (Stmt.view (Token.move f))
  accepts : s.Accepts text
  unused : ∀ i : Nat, s.nextId ≤ i → s.addresses[i]? = none
  proper : later.Proper
  accepts' : (Scoping.start.resolve later).2 = none
  fresh : t.Fresh later

namespace Joins

variable {f : Position → Position} {later stmts stmts' : Program} (joins : Joins s t text more f later stmts stmts')

include joins

theorem accepted : s.Accepts (text ++ "\n" ++ more) := by
  refine (Scoping.resolve_accepts_iff (plain_programOf s _)).2 ?_
  rw [joins.program, Program.obeys_append]
  constructor
  · exact (Program.obeys_of_view (f := id) (fun _ => rfl) joins.first).2 ((proper_programOf s text).obeys joins.accepts)
  · exact (Program.obeys_of_view (f := Token.move f) (fun _ => rfl) joins.second).2 (joins.proper.obeys joins.accepts')

theorem table {site : Site} (mem : site ∈ stmts.sites ++ stmts'.sites) :
    (s.tableOf (text ++ "\n" ++ more))[site.use.id]? = site.address? := by
  refine tableOf_site joins.accepted joins.unused ?_
  rwa [joins.program, Program.sites_append]

theorem found : List.Forall₂ (Use.Found (s.tableOf text) (s.tableOf (text ++ "\n" ++ more))) (s.programOf text).uses
    stmts.uses :=
  found_of_addresses (Program.addresses_of_view (f := id) (fun _ => rfl) joins.first)
    (fun _ mem => tableOf_site joins.accepts joins.unused mem) fun _ mem => joins.table (List.mem_append_left _ mem)

theorem found' : List.Forall₂ (Use.Found (t.running later) (s.tableOf (text ++ "\n" ++ more))) later.uses stmts'.uses :=
  found_of_addresses (Program.addresses_of_view (f := Token.move f) (fun _ => rfl) joins.second)
    (fun _ => joins.fresh.running_site joins.proper joins.accepts') fun _ mem => joins.table (List.mem_append_right _ mem)

theorem found_of_agreed {g : Stmt} (agreed : Agreed s.nextId s.addresses s.addresses g) {u : Use} (used : u ∈ g.uses) :
    Use.Found (s.tableOf text) (s.tableOf (text ++ "\n" ++ more)) u u := by
  obtain ⟨low, -⟩ := agreed u used
  exact (getElem?_addAll_of_none (found_of_lt joins.accepted low) _).trans
    (getElem?_addAll_of_none (found_of_lt joins.accepts low) _).symm

theorem executeAll {m : Machine} {a b c : Nat} (holds : s.machine.Holds (Agreed s.nextId s.addresses s.addresses))
    (run : Machine.executeAll ⟨s.tableOf text, .lexical, s.clock⟩ a (s.programOf text) s.machine = .ok .onward m)
    (machine : t.machine = { m with printed := [] }) (clock : t.clock = s.clock)
    (fixed : ∀ g, t.machine.Has g → ∀ a ∈ g.tokens, f a.position = a.position)
    (old : ∀ g, t.machine.Has g → ∀ u ∈ g.uses, t.addresses[u.id]? = (s.tableOf text)[u.id]?) (enough : a + b ≤ c) :
    ∃ w spare, (Likeness.renumbered (s.tableOf text) (s.tableOf (text ++ "\n" ++ more))).Valid w ∧ w.left = m ∧
      w.before = [] ∧
      Likeness.Ends (.moved f (t.running later) (s.tableOf (text ++ "\n" ++ more))) spare (some w.left.current) w.restart
        (fun flow flow' u => Likeness.Flows (.moved f (t.running later) (s.tableOf (text ++ "\n" ++ more))) u True flow flow')
        (Machine.executeAll ⟨t.running later, .lexical, t.clock⟩ b later t.machine)
        (Machine.executeAll ⟨s.tableOf (text ++ "\n" ++ more), .lexical, s.clock⟩ c
          (s.programOf (text ++ "\n" ++ more)) s.machine) := by
  have valid := holds.valid_renumbered fun g agreed u used => joins.found_of_agreed agreed used
  have sound : (Likeness.renumbered (s.tableOf text) (s.tableOf (text ++ "\n" ++ more))).Sound
      ⟨s.tableOf text, .lexical, s.clock⟩ ⟨s.tableOf (text ++ "\n" ++ more), .lexical, s.clock⟩ :=
    Likeness.moved_sound s.clock
  have ends := (Likeness.lockstep sound (c - a) a).executeAll valid
    (Machine.renders_twin (holds.current ▸ holds.present)) (Likeness.pairedIn_moved (f := id) joins.first joins.found)
  have budget : a + (c - a) = c := by omega
  unfold Likeness.Tracks at ends
  rw [show s.machine.twin.left = s.machine from rfl, show s.machine.twin.right = s.machine from rfl, run, budget] at ends
  generalize before : Machine.executeAll ⟨s.tableOf (text ++ "\n" ++ more), .lexical, s.clock⟩ c stmts s.machine = result
    at ends
  cases ends with
  | @ok _ _ w steps post =>
    cases post
    obtain ⟨-, rest⟩ := Machine.executeAll_append before stmts'
    obtain ⟨short, -⟩ := Machine.executeAll_append run []
    have length : stmts.length = (s.programOf text).length := by simpa using congrArg List.length joins.first
    have has {g : Stmt} (has : w.left.Has g) : t.machine.Has g := machine ▸ has
    have tracks := steps.valid.tracks_moved (fun g there => fixed g (has there))
      (fun g there u used => ((joins.fresh.addresses_of_has joins.proper joins.accepts' (has there) used).1).trans
        (old g (has there) u used)) joins.second joins.found' s.clock (c - stmts.length - b) b
    have budget : b + (c - stmts.length - b) = c - stmts.length := by omega
    refine ⟨w, c - stmts.length - b, steps.valid, rfl, steps.before, ?_⟩
    rw [joins.program, rest, machine, clock]
    rw [budget] at tracks
    exact tracks

end Joins

theorem exists_joins {clock : Nat → Float} (reachable : Reachable clock s) (later : Reachable clock t)
    (lexical : (scan text).faults = []) (grammar : (Grammar.read (scan text).tokens s.nextId).faults = [])
    (accepted : s.Accepts text) (apart : ∀ first ∈ (scan more).tokens.head?, first.kind ≠ .elseWord)
    (accepts : t.Accepts more) (n : Nat) :
    let parse := Parse.placed (Position.mark n) more t.nextId
    ∃ stmts stmts', Joins s t text more (Position.carry n (Position.behind (text ++ "\n"))) parse.program stmts stmts' ∧
      List.Forall₂ (Event.Moved (Position.carry n (Position.behind (text ++ "\n")))) parse.events
        (Parse.ofString (text ++ "\n" ++ more) s.nextId).events := by
  intro parse
  obtain ⟨events, stmts, stmts', program, first, second⟩ := read_joined lexical grammar apart t.nextId
  obtain ⟨view, faults⟩ :=
    Parse.placed_moved (Position.carry_mark n (Position.behind (text ++ "\n"))) more t.nextId t.nextId
  refine ⟨stmts, stmts', ⟨program, first, second.trans view, accepted, fun i high => (reachable.matches_self.unused i high).1,
    Parse.proper_placed .., ?_, later.fresh (Nat.le_refl _) _⟩, events ▸ faults⟩
  rw [placed_accepts_iff (Position.mark n) id t.nextId t.nextId, Parse.placed_id]
  exact accepts

theorem addresses_of_has {clock : Nat → Float} (reachable : Reachable clock s) (accepts : s.Accepts text)
    (ran : t = (s.run (.keeping .withFunctions n) text).1) {g : Stmt} (has : t.machine.Has g) {u : Use}
    (used : u ∈ g.uses) : t.addresses[u.id]? = (s.tableOf text)[u.id]? := by
  have mindful : Retention.withFunctions ≠ .never := nofun
  have mindful' : Retention.always ≠ .never := nofun
  have same := (reachable.matches_self.run mindful mindful' n text).2
  rw [← ran] at same
  obtain ⟨f, b, mem, h, declared, inner⟩ := has
  have agreed := declared_of_known (same.holds.values f b mem) declared
  obtain ⟨-, kept⟩ := agreed u (Stmt.uses_of_mem_functions h inner used)
  have always : (s.run (.keeping .always n) text).1.addresses = s.tableOf text := by
    rw [run_keeping accepts]
    rfl
  rw [always] at kept
  exact kept.symm

theorem displays_eq {f : Position → Position} {values values' : List Value}
    (same : List.Forall₂ (Value.Alike (Stmt.Moved f)) values values') : values'.map Value.display = values.map Value.display :=
  forall₂_map_eq_iff.1 (same.imp fun _ _ same => same.display_eq fun _ _ moved => ⟨Token.move f, fun _ => rfl, moved⟩)

/-- A text that runs to its end without an error and another one behind it, which is accepted and does not begin with an
`else`, print the same values as one text, report the same errors, and leave the same names bound to the same values in
all frames.

What the second text contributes stands behind the first. Which positions those are shows when its own are marked: the runs
of it alone and behind the first text are images of the marked run, in which marked positions go back to where they were
or behind the first text, and all others stay. -/
theorem run_joined {clock : Nat → Float} (reachable : Reachable clock s) {a b c : Nat} {u : Session}
    {report report' : Report} (ran : s.run (.keeping .withFunctions a) text = (t, report))
    (regular : report.ending = .regular) (clean : report.errors = [])
    (apart : ∀ first ∈ (scan more).tokens.head?, first.kind ≠ .elseWord) (accepts : t.Accepts more)
    (ran' : t.run (.keeping .withFunctions b) more = (u, report')) (regular' : report'.ending = .regular)
    (enough : a + b ≤ c) (short : (text ++ "\n" ++ more).length < 2 ^ 31) :
    let (u', joined) := s.run (.keeping .withFunctions c) (text ++ "\n" ++ more)
    joined.ending = .regular ∧
      (Transcript.ofEvents joined.events).output =
        (Transcript.ofEvents report.events).output ++ (Transcript.ofEvents report'.events).output ∧
      ∃ printed printed' n, joined.printed = printed ++ printed' ∧
        List.Forall₂ (Value.Alike Stmt.Renumbered) report.printed printed ∧
        (∀ g, t.machine.Has g → ∀ a ∈ g.tokens, a.position.offset < n) ∧
        let marked := t.runAt (Position.mark n) (.keeping .withFunctions b) more
        Moves (Position.carry n id) marked report'.printed report'.errors u.machine.store ∧
          Moves (Position.carry n (Position.behind (text ++ "\n"))) marked printed' joined.errors u'.machine.store ∧
          ∀ e ∈ marked.2.errors, ∀ p : Position, e.position? = some (p.mark n) →
            (p.behind (text ++ "\n")).offset = p.offset + (text.utf8ByteSize + 1) ∧
              (p.behind (text ++ "\n")).line.toInt = p.line.toInt + (text.toList.count '\n' + 1 : Nat) ∧
              (p.behind (text ++ "\n")).column = p.column := by
  rcases whole : s.run (.keeping .withFunctions c) (text ++ "\n" ++ more) with ⟨u', joined⟩
  have next : t = (s.run (.keeping .withFunctions a) text).1 := (congrArg Prod.fst ran).symm
  obtain rfl : (s.run (.keeping .withFunctions a) text).2 = report := congrArg Prod.snd ran
  obtain ⟨lexical, grammar, accepted, m, run⟩ := executeAll_of_clean regular clean
  have later : Reachable clock t := next ▸ reachable.run a text
  obtain ⟨n, early⟩ := t.machine.exists_bound
  obtain ⟨alone, images⟩ := runAt_moves later accepts early id b
  rw [runAt_id, ran'] at alone images
  obtain ⟨stmts, stmts', joins, faults⟩ := exists_joins reachable later lexical grammar accepted apart accepts n
  have leaves : t.machine = { m with printed := [] } ∧ t.clock = s.clock := by
    rw [next, run_keeping accepted, run]
    exact ⟨rfl, rfl⟩
  obtain ⟨w, spare, valid, left, fresh, ends⟩ := joins.executeAll (b := b) reachable.matches_self.holds run leaves.1 leaves.2
    (fun g has a mem => Position.carry_of_lt (early g has a mem) _)
    (fun g has u used => addresses_of_has reachable accepted next has used) enough
  obtain ⟨-, printed₁, -, -⟩ := report_keeping .withFunctions a accepted
  obtain ⟨machine₂, printed₂, errors₂, ending₂⟩ := runAt_keeping .withFunctions b joins.accepts'
  obtain ⟨machine₃, printed₃, errors₃, ending₃⟩ := report_keeping .withFunctions c joins.accepted
  rw [whole] at machine₃ printed₃ errors₃ ending₃
  obtain ⟨same, failures, store, new, shown, alike⟩ := ends.moved (.inr (ending₂.symm.trans (alone.symm.trans regular')))
  -- The second machine was not restarted, so it holds what the first text printed below what the second did.
  change _ = new ++ w.right.printed at shown
  rw [shown, List.reverse_append] at printed₃
  rw [run] at printed₁
  change _ = m.printed.reverse at printed₁
  have first : List.Forall₂ (Value.Alike Stmt.Renumbered) (s.run (.keeping .withFunctions a) text).2.printed
      w.right.printed.reverse := by
    rw [printed₁, ← left, List.forall₂_reverse_iff]
    exact (valid.printed_alike fresh).imp fun _ _ same => same.alike fun _ _ kept => kept.1
  have second : List.Forall₂ (Value.Alike (Stmt.Moved (Position.carry n (Position.behind (text ++ "\n")))))
      (t.runAt (Position.mark n) (.keeping .withFunctions b) more).2.printed new.reverse := by
    rw [printed₂, List.forall₂_reverse_iff]
    exact alike
  refine ⟨ending₃.trans (same.trans (ending₂.symm.trans (alone.symm.trans regular'))), ?_, _, _, n, printed₃, first, early,
    images, ⟨second, ?_, ?_⟩, fun e mem p marked => behind_of_marked later accepts early short mem marked⟩
  · rw [Report.output_eq, Report.output_eq, Report.output_eq, printed₃, List.map_append, Transcript.unlines_append,
      displays_eq first, displays_eq second, displays_eq images.printed]
  · rw [errors₂, errors₃]
    exact List.rel_append faults failures
  · rw [machine₂, machine₃]
    exact store

def declaring : String := "fun f() { return -nil; } if (f) print f; // f"

/-- Its function fails at the same place in its own text as the other one would. -/
def calling : String := "fun g() { return -nil; } print f; g();"

set_option maxRecDepth 20000 in
theorem run_joined_declaring_calling :
    let s := start fun _ => 0
    let first := s.run (.keeping .withFunctions 20) declaring
    let second := first.1.run (.keeping .withFunctions 20) calling
    let both := s.run (.keeping .withFunctions 40) (declaring ++ "\n" ++ calling)
    both.2.ending = .regular ∧
      (Transcript.ofEvents both.2.events).output =
        (Transcript.ofEvents first.2.events).output ++ (Transcript.ofEvents second.2.events).output ∧
      (Transcript.ofEvents first.2.events).output = "<fn f>\n" ∧
      (Transcript.ofEvents second.2.events).output = "<fn f>\n" ∧
      second.2.errors.map Event.complaint? =
        [some "[line 1 column 18] Error at '-' (offset 17): Operand must be a number"] ∧
      both.2.errors.map Event.complaint? =
        [some "[line 2 column 18] Error at '-' (offset 63): Operand must be a number"] := by
  intro s first second both
  have clean : first.2.errors = [] := List.isEmpty_iff.1 (by decide +kernel)
  have accepts : first.1.Accepts calling := by
    unfold Accepts
    decide +kernel
  have ends : first.2.ending = .regular ∧ second.2.ending = .regular := by decide +kernel
  have same := run_joined .start (c := 40) (Prod.eta first).symm ends.1 clean (by decide +kernel) accepts
    (Prod.eta second).symm ends.2 (by decide) (by decide)
  exact ⟨same.1, same.2.1, by decide +kernel⟩

end Session

end Scriptlet
