import Scriptlet.Proofs.Address.Verdict
import Scriptlet.Proofs.Grammar.Placement
import Scriptlet.Proofs.Session.Joining

namespace Scriptlet

open Machine (Stop Flow)
open Command (Transcript)

namespace Program.Placed

variable {places : Token → Token → Prop} {origin : Program} {f f' : Token → Token} {program program' : Program}
  (placed : Placed places origin f f' program program')

include placed

theorem unplaced_eq : program'.map (Stmt.view Token.unplaced) = program.map (Stmt.view Token.unplaced) := by
  have shown {f : Token → Token} (moves : Token.Moves f) {program : Program}
      (view : program.map Stmt.unnumbered = origin.map (Stmt.view f)) :
      program.map (Stmt.view Token.unplaced) = origin.map (Stmt.view Token.unplaced) := by
    have forgets : (fun t => (f t).unplaced) = Token.unplaced := funext moves
    have view := congrArg (List.map (Stmt.view Token.unplaced)) view
    simpa [Function.comp_def, Stmt.map_map, forgets] using view
  rw [shown placed.moves' placed.second, shown placed.moves placed.first]

theorem tokens : List.Forall₂ places (Stmt.tokensIn program) (Stmt.tokensIn program') := by
  have first := congrArg Stmt.tokensIn placed.first
  have second := congrArg Stmt.tokensIn placed.second
  rw [Stmt.tokensIn_map, Stmt.tokensIn_map, List.map_id] at first second
  rw [first, second, List.forall₂_map_left_iff, List.forall₂_map_right_iff]
  exact List.forall₂_same.2 placed.places

theorem names : List.Forall₂ (fun u u' => places u.name u'.name) program.uses program'.uses := by
  have named {f : Token → Token} {program : Program} (view : program.map Stmt.unnumbered = origin.map (Stmt.view f)) :
      program.uses.map Use.name = origin.uses.map (f ∘ Use.name) := by
    have uses := congrArg Stmt.usesIn view
    rw [Stmt.usesIn_map, Stmt.usesIn_map] at uses
    simpa [Function.comp_def, Use.map] using congrArg (List.map Use.name) uses
  have both : List.Forall₂ places (program.uses.map Use.name) (program'.uses.map Use.name) := by
    rw [named placed.first, named placed.second, List.forall₂_map_left_iff, List.forall₂_map_right_iff]
    exact List.forall₂_same.2 fun u used => placed.places _ (Stmt.nameIn_mem_tokens origin used)
  rwa [List.forall₂_map_left_iff, List.forall₂_map_right_iff] at both

theorem breaches : List.Forall₂ (Located.Alike places) program.breaches program'.breaches := by
  rw [breaches_of_view placed.moves.lexeme placed.first, breaches_of_view placed.moves'.lexeme placed.second,
    List.forall₂_map_left_iff, List.forall₂_map_right_iff]
  refine List.forall₂_same.2 fun breach mem => ⟨?_, rfl⟩
  exact placed.places _ (Stmt.token_mem_of_mem_breachesIn origin mem)

theorem addresses_eq : program'.sites.map Site.address? = program.sites.map Site.address? := by
  rw [addresses_of_view placed.moves.lexeme placed.first, addresses_of_view placed.moves'.lexeme placed.second]

theorem declaresFunction_eq : program'.declaresFunction = program.declaresFunction := by
  have functions := congrArg Stmt.functionsIn placed.unplaced_eq
  rw [Stmt.functionsIn_map, Stmt.functionsIn_map] at functions
  have none : Stmt.functionsIn program' = [] ↔ Stmt.functionsIn program = [] := by
    rw [← List.map_eq_nil_iff (f := Stmt.view Token.unplaced), functions, List.map_eq_nil_iff]
  rw [Stmt.functionsIn_eq_nil, Stmt.functionsIn_eq_nil] at none
  rwa [← Bool.not_eq_true, ← Bool.not_eq_true, not_iff_not, ← Bool.eq_iff_iff] at none

end Program.Placed

inductive Event.Alike (tokens : Token → Token → Prop) (functions : Stmt → Stmt → Prop) : Event → Event → Prop
  | scope {error error' : Located Scope.Fault} (same : error.Alike tokens error') :
      Alike tokens functions (.scope error) (.scope error')
  | printed {v v' : Value} (same : v.Alike functions v') : Alike tokens functions (.printed v) (.printed v')
  | failure {error error' : Located Machine.Fault} (place : tokens error.token error'.token)
      (message : error'.cause.message = error.cause.message) :
      Alike tokens functions (.failure error) (.failure error')

structure Session.Alike (functions : Stmt → Stmt → Prop) (s s' : Session) : Prop where
  store : s.machine.store.Alike functions s'.machine.store
  current : s'.machine.current = s.machine.current
  depth : s'.machine.depth = s.machine.depth
  readings : s'.machine.readings = s.machine.readings
  nextSerial : s'.machine.nextSerial = s.machine.nextSerial
  printed : s'.machine.printed = s.machine.printed
  nextId : s'.nextId = s.nextId
  clock : s'.clock = s.clock
  hadError : s'.hadError = s.hadError

structure Placement where
  program : Program
  program' : Program
  places : Token → Token → Prop
  earlier : Machine

namespace Placement

variable (p : Placement)

def Tokens (t t' : Token) : Prop :=
  p.places t t' ∨ t' = t ∧ ∃ g, p.earlier.Has g ∧ t ∈ g.tokens

/-- Functions of the two programs differ in positions and numbers, earlier ones are the same. Either way their uses have the
same addresses. -/
def Functions (addresses addresses' : Addresses) (g g' : Stmt) : Prop :=
  (g'.view Token.unplaced = g.view Token.unplaced ∧ g ∈ Stmt.functionsIn p.program ∧ g' ∈ Stmt.functionsIn p.program' ∨
    g' = g ∧ p.earlier.Has g) ∧ List.Forall₂ (Use.Found addresses addresses') g.uses g'.uses

def like (addresses addresses' : Addresses) : Likeness :=
  .lexical p.Tokens (p.Functions addresses addresses') Eq addresses addresses'

variable {p} {addresses addresses' : Addresses} (plain : ∀ t t', p.places t t' → t'.unplaced = t.unplaced)

include plain

theorem Tokens.unplaced_eq {t t' : Token} (h : p.Tokens t t') : t'.unplaced = t.unplaced := by
  rcases h with h | ⟨rfl, -⟩
  · exact plain t t' h
  · rfl

theorem Tokens.kind_eq {t t' : Token} (h : p.Tokens t t') : t'.kind = t.kind :=
  (Token.mk.inj (h.unplaced_eq plain)).1

theorem Tokens.lexeme_eq {t t' : Token} (h : p.Tokens t t') : t'.lexeme = t.lexeme :=
  (Token.mk.inj (h.unplaced_eq plain)).2.1

omit plain in
theorem Functions.name_eq {name name' : Token} {parameters parameters' : List Token} {body body' : Program}
    (h : p.Functions addresses addresses' (.function name parameters body) (.function name' parameters' body')) :
    name'.lexeme = name.lexeme := by
  rcases h.1 with ⟨same, -⟩ | ⟨same, -⟩
  · exact (Token.mk.inj (Stmt.function.inj same).1).2.1
  · rw [(Stmt.function.inj same).1]

theorem tracks {known : Stmt → Prop} (holds : p.earlier.Holds known)
    (old : ∀ g, p.earlier.Has g → ∀ u ∈ g.uses, Use.Found addresses addresses' u u)
    (same : p.program'.map (Stmt.view Token.unplaced) = p.program.map (Stmt.view Token.unplaced))
    (tokens : List.Forall₂ p.places (Stmt.tokensIn p.program) (Stmt.tokensIn p.program'))
    (names : List.Forall₂ (fun u u' => p.places u.name u'.name) p.program.uses p.program'.uses)
    (found : List.Forall₂ (Use.Found addresses addresses') p.program.uses p.program'.uses) (clock : Nat → Float) (n : Nat) :
    Likeness.Tracks (p.like addresses addresses') 0 (some p.earlier.current) p.earlier.twin
      (Machine.executeAll ⟨addresses, .lexical, clock⟩ n p.program)
      (Machine.executeAll ⟨addresses', .lexical, clock⟩ n p.program')
      fun flow flow' u => Likeness.Flows (p.like addresses addresses') u True flow flow' := by
  have lexeme {t t' : Token} (same : t'.unplaced = t.unplaced) : t'.lexeme = t.lexeme := (Token.mk.inj same).2.1
  have sound : (p.like addresses addresses').Sound ⟨addresses, .lexical, clock⟩ ⟨addresses', .lexical, clock⟩ :=
    Likeness.lexical_sound (Tokens.kind_eq plain) (Tokens.lexeme_eq plain) (fun _ => rfl) clock
  have alike : Stmt.PairedIn (p.like addresses addresses') .verbatim p.program p.program' := by
    refine Stmt.pairedIn_of_views lexeme p.program p.program' same (tokens.imp fun _ _ => .inl) ?_ ?_
    · refine Likeness.uses_of_views lexeme ?_ found (names.imp fun _ _ => .inl)
      simpa [Stmt.usesIn_map] using congrArg Stmt.usesIn same
    · obtain ⟨length, both⟩ := List.forall₂_iff_zip.1 (Stmt.functionsIn_of_view p.program p.program' same found)
      refine List.forall₂_iff_zip.2 ⟨length, fun {g g'} mem => ?_⟩
      obtain ⟨here, there⟩ := List.of_mem_zip mem
      exact ⟨.inl ⟨(both mem).1, here, there⟩, (both mem).2⟩
  have valid : (p.like addresses addresses').Valid p.earlier.twin := by
    refine Likeness.valid_self holds.has (fun _ => rfl) fun g ⟨has, inside⟩ => ?_
    refine Likeness.paired_of_view (f := id) (fun _ => rfl) rfl (fun t mem => .inr ⟨rfl, g, has, mem⟩)
      (List.forall₂_same.2 (old g has)) (List.forall₂_same.2 fun h inner => ?_)
    exact ⟨.inr ⟨rfl, inside h inner⟩, List.forall₂_same.2 (old h (inside h inner))⟩
  exact (Likeness.lockstep sound 0 n).executeAll valid (Machine.renders_twin (holds.current ▸ holds.present)) alike

theorem events {spot : Option FrameId} {t : Twin} {α : Type} {P : α → α → Twin → Prop}
    {r r' : EStateM.Result Stop Machine α} {functions : Stmt → Stmt → Prop}
    (keeps : ∀ g g', p.Functions addresses addresses' g g' → functions g g') (fresh : t.before = [])
    (ends : Likeness.Ends (p.like addresses addresses') 0 spot t P r r') :
    List.Forall₂ (Event.Alike p.Tokens functions) (Report.ofResult r).events (Report.ofResult r').events ∧
      (Report.ofResult r').ending = (Report.ofResult r).ending := by
  obtain ⟨u, steps, left, right⟩ := ends.left
  have printed : List.Forall₂ (Event.Alike p.Tokens functions) ((Machine.left r).printed.reverse.map Event.printed)
      ((Machine.left r').printed.reverse.map Event.printed) := by
    rw [← left, ← right, List.forall₂_map_left_iff, List.forall₂_map_right_iff, List.forall₂_reverse_iff]
    exact (steps.valid.printed_alike (steps.before.trans fresh)).imp fun _ _ same => .printed (same.alike keeps)
  cases ends with
  | ok => exact ⟨printed, rfl⟩
  | error _ same =>
    cases same with
    | failed place cause =>
      have message := cause.message_eq (Tokens.kind_eq plain) (Tokens.lexeme_eq plain)
      exact ⟨List.rel_append printed (.cons (.failure place message) .nil), rfl⟩
    | unbound names distance =>
      cases names
      exact ⟨printed, rfl⟩
    | tooShallow => exact ⟨printed, rfl⟩
    | exhausted => exact ⟨printed, rfl⟩
  | spent more => exact absurd rfl more

omit plain in
theorem output_eq {events events' : List Event}
    (same : List.Forall₂ (Event.Alike p.Tokens (p.Functions addresses addresses')) events events') :
    (Transcript.ofEvents events').output = (Transcript.ofEvents events).output := by
  refine congrArg Transcript.unlines ?_
  induction same with
  | nil => rfl
  | cons first _ ih =>
    cases first with
    | scope _ => exact ih
    | failure _ _ => exact ih
    | printed same =>
      rw [List.filterMap_cons, List.filterMap_cons]
      exact congrArg₂ List.cons (same.display_eq_of_names Functions.name_eq) ih

end Placement

/-- What two programs have in common when both are run: the events that they report, how they end, the states behind them,
and the addresses that these still know. -/
structure Placement.Performed (p : Placement) (t t' : Session) (report report' : Report) : Prop where
  events : List.Forall₂ (Event.Alike p.Tokens (p.Functions t.addresses t'.addresses)) report.events report'.events
  ending : report'.ending = report.ending
  session : t.Alike (p.Functions t.addresses t'.addresses) t'
  uses : List.Forall₂ (Use.Found t.addresses t'.addresses) p.program.uses p.program'.uses
  others : ∀ id, (∀ u ∈ p.program.uses, u.id ≠ id) → (∀ u ∈ p.program'.uses, u.id ≠ id) →
    t'.addresses[id]? = t.addresses[id]?

namespace Session

variable {clock : Nat → Float} {s : Session}

theorem alike_self {functions : Stmt → Stmt → Prop} (refl : ∀ g, s.machine.Has g → functions g g) : Alike functions s s where
  store := ⟨rfl, fun _ => rfl, fun f => List.forall₂_same.2 fun b mem => ⟨rfl, by
    obtain ⟨x, v⟩ := b
    cases v with
    | nil => exact .nil
    | boolean value => exact .boolean value
    | number value => exact .number value
    | text content => exact .text content
    | function serial callable =>
      cases callable with
      | closure name parameters body frame => exact .closure serial frame (refl _ ⟨f, _, mem, _, rfl, .head _⟩)
      | builtin builtin => exact .builtin serial builtin⟩⟩
  current := rfl
  depth := rfl
  readings := rfl
  nextSerial := rfl
  printed := rfl
  nextId := rfl
  clock := rfl
  hadError := rfl

section Perform

variable {places : Token → Token → Prop} {origin : Program} {f f' : Token → Token} {program program' : Program}
  (plain : ∀ t t', places t t' → t'.unplaced = t.unplaced) (placed : Program.Placed places origin f f' program program')
  (proper : program.Proper) (proper' : program'.Proper) (fresh : s.Fresh program) (fresh' : s.Fresh program')

include placed fresh fresh'

theorem performed_of_refused {breach breach' : Located Scope.Fault} (refused : (Scoping.start.resolve program).2 = some breach)
    (refused' : (Scoping.start.resolve program').2 = some breach') (same : breach.Alike places breach') (n : Nat) :
    Placement.Performed ⟨program, program', places, s.machine⟩ (perform (.keeping .withFunctions n) s program).1
      (perform (.keeping .withFunctions n) s program').1 (perform (.keeping .withFunctions n) s program).2
      (perform (.keeping .withFunctions n) s program').2 := by
  rw [perform_keeping_refused refused, perform_keeping_refused refused']
  refine ⟨.cons (.scope ⟨.inl same.1, same.2⟩) .nil, rfl, ?_, ?_, fun _ _ _ => rfl⟩
  · exact alike_self fun g has => ⟨.inr ⟨rfl, has⟩, List.forall₂_same.2 fun _ _ => rfl⟩
  · obtain ⟨length, -⟩ := List.forall₂_iff_zip.1 placed.names
    refine List.forall₂_iff_zip.2 ⟨length, fun {u u'} mem => ?_⟩
    obtain ⟨here, there⟩ := List.of_mem_zip mem
    exact (fresh' u' there).1.trans (fresh u here).1.symm

variable (accepts : (Scoping.start.resolve program).2 = none) (accepts' : (Scoping.start.resolve program').2 = none)

include proper proper' accepts accepts'

theorem found_running : List.Forall₂ (Use.Found (s.running program) (s.running program')) program.uses program'.uses :=
  found_of_addresses placed.addresses_eq (fun _ => fresh.running_site proper accepts) fun _ =>
    fresh'.running_site proper' accepts'

theorem found_remaining :
    List.Forall₂ (Use.Found (s.remaining program) (s.remaining program')) program.uses program'.uses := by
  have running := found_running placed proper proper' fresh fresh' accepts accepts'
  cases declares : program.declaresFunction with
  | true =>
    rwa [remaining_of_declares declares, remaining_of_declares (placed.declaresFunction_eq.trans declares)]
  | false =>
    obtain ⟨length, -⟩ := List.forall₂_iff_zip.1 running
    refine List.forall₂_iff_zip.2 ⟨length, fun {u u'} mem => ?_⟩
    obtain ⟨here, there⟩ := List.of_mem_zip mem
    exact (fresh'.remaining_of_not_declares (placed.declaresFunction_eq.trans declares) there).trans
      (fresh.remaining_of_not_declares declares here).symm

theorem functions_remaining {g g' : Stmt}
    (same : Placement.Functions ⟨program, program', places, s.machine⟩ (s.running program) (s.running program') g g') :
    Placement.Functions ⟨program, program', places, s.machine⟩ (s.remaining program) (s.remaining program') g g' := by
  refine ⟨same.1, ?_⟩
  rcases same.1 with ⟨-, mem, -⟩ | ⟨rfl, has⟩
  · have declares : program.declaresFunction = true := by
      rw [← Bool.not_eq_false, ← Stmt.functionsIn_eq_nil]
      exact List.ne_nil_of_mem mem
    rw [remaining_of_declares declares, remaining_of_declares (placed.declaresFunction_eq.trans declares)]
    exact same.2
  · refine List.forall₂_same.2 fun u used => ?_
    exact (fresh'.addresses_of_has proper' accepts' has used).2.trans (fresh.addresses_of_has proper accepts has used).2.symm

include plain

theorem performed_of_accepted (reachable : Reachable clock s) (n : Nat) :
    Placement.Performed ⟨program, program', places, s.machine⟩ (perform (.keeping .withFunctions n) s program).1
      (perform (.keeping .withFunctions n) s program').1 (perform (.keeping .withFunctions n) s program).2
      (perform (.keeping .withFunctions n) s program').2 := by
  have old (g : Stmt) (has : s.machine.Has g) (u : Use) (used : u ∈ g.uses) :
      Use.Found (s.running program) (s.running program') u u :=
    (fresh'.addresses_of_has proper' accepts' has used).1.trans (fresh.addresses_of_has proper accepts has used).1.symm
  have ends := Placement.tracks (p := ⟨program, program', places, s.machine⟩) plain reachable.matches_self.holds old
    placed.unplaced_eq placed.tokens placed.names (found_running placed proper proper' fresh fresh' accepts accepts')
    s.clock n
  have keeps (g g' : Stmt)
      (same : Placement.Functions ⟨program, program', places, s.machine⟩ (s.running program) (s.running program') g g') :=
    functions_remaining placed proper proper' fresh fresh' accepts accepts' same
  obtain ⟨events, ending⟩ := Placement.events plain keeps rfl ends
  obtain ⟨u, ⟨valid, -⟩, left, right⟩ := ends.left
  have store := valid.alike id keeps
  rw [left, right] at store
  rw [perform_keeping accepts, perform_keeping accepts']
  refine ⟨events, ending, ⟨store, ?_, ?_, ?_, ?_, rfl, rfl, rfl, rfl⟩, ?_, fun id unused unused' => ?_⟩
  · exact left ▸ right ▸ valid.current
  · exact left ▸ right ▸ valid.depth
  · exact left ▸ right ▸ valid.readings
  · exact left ▸ right ▸ valid.nextSerial
  · exact found_remaining placed proper proper' fresh fresh' accepts accepts'
  · exact (addresses_of_unused proper' accepts' unused').2.trans (addresses_of_unused proper accepts unused).2.symm

end Perform

/-- Two lists of tokens that agree in all but the positions are read as programs that are equal up to positions and numbers,
with the same faults at tokens of the same index. On any session that texts lead to and to which their numbers are new,
both programs report the same at tokens of the same index, print the same, and leave the same state behind, up to positions
and numbers. -/
theorem perform_placed {tokens tokens' : List Token} (agree : tokens'.map Token.unplaced = tokens.map Token.unplaced)
    (nextId nextId' : UseId) (reachable : Reachable clock s) (n : Nat) :
    let reading := Grammar.read tokens nextId
    let reading' := Grammar.read tokens' nextId'
    let places := Grammar.Corresponds tokens tokens'
    reading'.program.map (Stmt.view Token.unplaced) = reading.program.map (Stmt.view Token.unplaced) ∧
      List.Forall₂ places (Stmt.tokensIn reading.program) (Stmt.tokensIn reading'.program) ∧
      List.Forall₂ (Located.Alike places) reading.faults reading'.faults ∧
      (s.Fresh reading.program → s.Fresh reading'.program →
        let (t, report) := perform (.keeping .withFunctions n) s reading.program
        let (t', report') := perform (.keeping .withFunctions n) s reading'.program
        Placement.Performed ⟨reading.program, reading'.program, places, s.machine⟩ t t' report report' ∧
          (Transcript.ofEvents report'.events).output = (Transcript.ofEvents report.events).output) := by
  intro reading reading' places
  obtain ⟨⟨origin, f, f', placed⟩, faults⟩ := Grammar.read_placed agree nextId nextId'
  have proper := Grammar.proper_read tokens nextId
  have proper' := Grammar.proper_read tokens' nextId'
  refine ⟨placed.unplaced_eq, placed.tokens, faults, fun fresh fresh' => ?_⟩
  suffices performed : Placement.Performed ⟨reading.program, reading'.program, places, s.machine⟩
      (perform (.keeping .withFunctions n) s reading.program).1 (perform (.keeping .withFunctions n) s reading'.program).1
      (perform (.keeping .withFunctions n) s reading.program).2 (perform (.keeping .withFunctions n) s reading'.program).2 from
    ⟨performed, Placement.output_eq performed.events⟩
  have reports := Scoping.resolve_reports proper.plain
  have reports' := Scoping.resolve_reports proper'.plain
  have breaches := placed.breaches
  generalize Program.breaches (Grammar.read tokens nextId).program = list at reports breaches
  generalize Program.breaches (Grammar.read tokens' nextId').program = list' at reports' breaches
  cases breaches with
  | nil =>
    exact performed_of_accepted (fun _ _ => Grammar.Corresponds.unplaced_eq agree) placed proper proper' fresh fresh' reports
      reports' reachable n
  | cons same _ => exact performed_of_refused placed fresh fresh' reports reports' same n

def oneLine : String := "fun f(a) { print a; return -a; } print f; f(true);"

def otherLines : String := "\n\nfun f(a)  { print a; return -a; }\nprint f;\nf(true);"

set_option maxRecDepth 20000 in
theorem perform_placed_otherLines :
    let reading := Grammar.read (scan oneLine).tokens 0
    let reading' := Grammar.read (scan otherLines).tokens 3
    let (_, report) := perform (.keeping .withFunctions 20) (start fun _ => 0) reading.program
    let (_, report') := perform (.keeping .withFunctions 20) (start fun _ => 0) reading'.program
    List.Forall₂ (Grammar.Corresponds (scan oneLine).tokens (scan otherLines).tokens) (Stmt.tokensIn reading.program)
        (Stmt.tokensIn reading'.program) ∧
      (Transcript.ofEvents report'.events).output = (Transcript.ofEvents report.events).output ∧
      (Transcript.ofEvents report.events).output = "<fn f>\ntrue\n" ∧
      report.errors.map Event.complaint? =
        [some "[line 1 column 28] Error at '-' (offset 27): Operand must be a number"] ∧
      report'.errors.map Event.complaint? =
        [some "[line 3 column 29] Error at '-' (offset 30): Operand must be a number"] := by
  have agree : (scan otherLines).tokens.map Token.unplaced = (scan oneLine).tokens.map Token.unplaced := by decide +kernel
  obtain ⟨-, tokens, -, alike⟩ := perform_placed agree 0 3 (.start : Reachable (fun _ => 0) _) 20
  have same := alike (Reachable.start.fresh (Nat.le_refl 0) _) (Reachable.start.fresh (Nat.zero_le 3) _)
  exact ⟨tokens, same.2, by decide +kernel, by decide +kernel, by decide +kernel⟩

end Session

end Scriptlet
