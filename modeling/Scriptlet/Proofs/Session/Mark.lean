import Mathlib.Data.Finset.Range
import Scriptlet.Proofs.Address.Verdict
import Scriptlet.Proofs.Grammar.Placement
import Scriptlet.Proofs.Session.Report
import Scriptlet.Proofs.Session.Table
import Scriptlet.Proofs.Token.Lines

/-!
Runs of a text whose positions are changed. If they are marked beyond those of all functions that are there before, it shows
which positions are the text's own, and the run at any place is the image of the marked one.
-/

namespace Scriptlet

open Machine (Stop)
open Token (Fault Item)

namespace Event

def position? : Event → Option Position
  | .lexical fault => some fault.position
  | .grammar error => some error.token.position
  | .scope error => some error.token.position
  | .printed _ => none
  | .failure error => some error.token.position

inductive Moved (f : Position → Position) : Event → Event → Prop
  | lexical (fault : Fault) : Moved f (.lexical fault) (.lexical (fault.move f))
  | grammar (error : Located Grammar.Fault) : Moved f (.grammar error) (.grammar (error.map (Token.move f)))
  | failure {error error' : Located Machine.Fault} (place : error'.token = error.token.move f)
      (message : error'.cause.message = error.cause.message) : Moved f (.failure error) (.failure error')

theorem Moved.position_eq {f : Position → Position} {e e' : Event} (h : Moved f e e') :
    e'.position? = e.position?.map f := by
  cases h with
  | lexical fault => exact congrArg some (fault.move_position f)
  | grammar error => rfl
  | failure place message => exact congrArg (fun t => some t.position) place

end Event

namespace Parse

def placed (place : Position → Position) (text : String) (nextId : UseId) : Parse :=
  let scanned := scan text
  let reading := Grammar.read (scanned.tokens.map (Token.move place)) nextId
  ⟨reading.program, (scanned.faults.map (Fault.move place)).map .lexical ++ reading.faults.map .grammar, reading.nextId⟩

variable {place place' f : Position → Position} {text : String} {nextId : UseId}

theorem placed_id (text : String) (nextId : UseId) : placed id text nextId = ofString text nextId := by
  have tokens : (scan text).tokens.map (Token.move id) = (scan text).tokens := List.map_id _
  have faults : (scan text).faults.map (Fault.move id) = (scan text).faults := by
    refine (List.map_congr_left fun fault _ => ?_).trans (List.map_id _)
    cases fault <;> rfl
  rw [placed, ofString, tokens, faults]

theorem placed_moved (carries : ∀ p, f (place p) = place' p) (text : String) (nextId nextId' : UseId) :
    (placed place' text nextId').program.map Stmt.unnumbered =
        (placed place text nextId).program.map (Stmt.view (Token.move f)) ∧
      List.Forall₂ (Event.Moved f) (placed place text nextId).events (placed place' text nextId').events := by
  have view : Grammar.View (Token.move f) := ⟨fun _ => rfl, fun _ => rfl⟩
  obtain ⟨body, last, whole, ends, -⟩ := tokens_eq text
  have marks : ∃ t ∈ (scan text).tokens.map (Token.move place), t.kind = .endMark :=
    ⟨last.move place, List.mem_map_of_mem (whole ▸ List.mem_append_right _ (.head _)), ends⟩
  have tokens : (scan text).tokens.map (Token.move place') =
      ((scan text).tokens.map (Token.move place)).map (Token.move f) := by
    rw [List.map_map]
    exact List.map_congr_left fun t _ => congrArg (fun position => { t with position }) (carries t.position).symm
  have faults : (scan text).faults.map (Fault.move place') =
      ((scan text).faults.map (Fault.move place)).map (Fault.move f) := by
    rw [List.map_map]
    refine List.map_congr_left fun fault _ => ?_
    cases fault <;> simp [Fault.move, carries]
  obtain ⟨program, errors⟩ := Grammar.read_map view marks nextId nextId'
  rw [placed, placed, tokens, faults, errors]
  refine ⟨program, List.rel_append ?_ ?_⟩
  · rw [List.forall₂_map_left_iff, List.forall₂_map_right_iff, List.forall₂_map_right_iff]
    exact List.forall₂_same.2 fun fault _ => .lexical fault
  · rw [List.forall₂_map_left_iff, List.forall₂_map_right_iff, List.forall₂_map_right_iff]
    exact List.forall₂_same.2 fun error _ => .grammar error

theorem proper_placed (place : Position → Position) (text : String) (nextId : UseId) :
    (placed place text nextId).program.Proper :=
  Grammar.proper_read _ _

theorem reports_placed {e : Event} (mem : e ∈ (placed place text nextId).events) : e.value? = none ∧ e.isError = true := by
  rcases List.mem_append.1 mem with mem | mem
  all_goals
    obtain ⟨_, -, rfl⟩ := List.mem_map.1 mem
    exact ⟨rfl, rfl⟩

end Parse

/-- Of two runs in step of which the second has its positions changed, that one ends in the same way, stops at the fault that is
moved, and has printed and stored the same values, up to positions. -/
theorem Likeness.Ends.moved {f : Position → Position} {addresses addresses' : Addresses} {spare : Nat}
    {spot : Option FrameId} {t : Twin} {α : Type} {P : α → α → Twin → Prop} {result result' : EStateM.Result Stop Machine α}
    (ends : Likeness.Ends (.moved f addresses addresses') spare spot t P result result')
    (enough : spare = 0 ∨ (Report.ofResult result).ending = .regular) :
    (Report.ofResult result').ending = (Report.ofResult result).ending ∧
      List.Forall₂ (Event.Moved f) (Machine.failures result) (Machine.failures result') ∧
      (Machine.left result).store.Alike (Stmt.Moved f) (Machine.left result').store ∧
      ∃ new, (Machine.left result').printed = new ++ t.before ∧
        List.Forall₂ (Value.Alike (Stmt.Moved f)) (Machine.left result).printed new := by
  have state {u : Twin} (steps : Likeness.Steps (.moved f addresses addresses') spot t u) :
      u.left.store.Alike (Stmt.Moved f) u.right.store ∧ ∃ new, u.right.printed = new ++ t.before ∧
        List.Forall₂ (Value.Alike (Stmt.Moved f)) u.left.printed new := by
    obtain ⟨new, printed, alike⟩ := steps.valid.printed
    refine ⟨steps.valid.alike id fun _ _ kept => kept.1, new, steps.before ▸ printed, ?_⟩
    exact alike.imp fun _ _ same => same.alike fun _ _ kept => kept.1
  cases ends with
  | ok steps => exact ⟨rfl, .nil, state steps⟩
  | error steps same =>
    cases same with
    | failed place cause =>
      refine ⟨rfl, .cons (.failure place (cause.message_eq ?_ ?_)) .nil, state steps⟩
      all_goals
        rintro a _ rfl
        rfl
    | unbound names distance =>
      cases names
      exact ⟨rfl, .nil, state steps⟩
    | tooShallow => exact ⟨rfl, .nil, state steps⟩
    | exhausted => exact ⟨rfl, .nil, state steps⟩
  | spent more =>
    rcases enough with none | regular
    · exact absurd none more
    · cases regular

theorem Machine.exists_bound (m : Machine) : ∃ n, ∀ g, m.Has g → ∀ a ∈ g.tokens, a.position.offset < n := by
  let declared (v : Value) : List Stmt := (v.declaration?.map Stmt.functions).getD []
  let tokens := (List.range m.store.frames.size).flatMap fun f =>
    ((m.store.bindings f).flatMap fun b => declared b.2).flatMap Stmt.tokens
  obtain ⟨n, bound⟩ := (tokens.map fun a => a.position.offset).toFinset.exists_nat_subset_range
  refine ⟨n, fun g ⟨f, b, bound', h, found, inner⟩ a mem => ?_⟩
  have inside : f < m.store.frames.size := by
    by_contra outside
    simp [Store.bindings, outside] at bound'
  have listed : g ∈ declared b.2 := by
    simp only [declared, found]
    exact inner
  refine Finset.mem_range.1 (bound (List.mem_toFinset.2 (List.mem_map.2 ⟨a, ?_, rfl⟩)))
  refine List.mem_flatMap.2 ⟨f, List.mem_range.2 inside, List.mem_flatMap.2 ⟨g, ?_, mem⟩⟩
  exact List.mem_flatMap.2 ⟨b, bound', listed⟩

theorem Token.Item.line_behind {text more : String} (short : (text ++ "\n" ++ more).length < 2 ^ 31)
    (visible : ∃ c ∈ more.toList, c ≠ '\n') {item : Item} (mem : item ∈ (Source.ofString more).items) :
    (item.position.behind (text ++ "\n")).line.toInt = item.position.line.toInt + (text.toList.count '\n' + 1 : Nat) := by
  obtain ⟨before, after, split, here⟩ := (layout_items more).split mem
  have fewer : before.count '\n' < more.length := by
    have part : before.count '\n' ≤ more.toList.count '\n' := by
      rw [split, List.count_append]
      exact Nat.le_add_right _ _
    have most : more.toList.count '\n' < more.toList.length := by
      refine Nat.lt_of_le_of_ne List.count_le_length fun all => ?_
      obtain ⟨c, mem, other⟩ := visible
      exact other (List.count_eq_length.1 all c mem).symm
    rw [String.length_toList] at most
    omega
  have lines : text.toList.count '\n' ≤ text.toList.length := List.count_le_length
  rw [String.length_toList] at lines
  simp only [String.length_append] at short
  have feed : "\n".length = 1 := rfl
  have counted : item.position.line.toInt = (1 + before.count '\n' : Nat) := by
    rw [here, Position.line_advanceAll, Int32.toInt_ofNat_of_lt (by omega)]
  rw [Position.toInt_line_behind counted _ (by rw [count_newline]; omega), counted, count_newline]

theorem eq_lineFeeds {text : String} (blank : ¬∃ c ∈ text.toList, c ≠ '\n') : text = lineFeeds text.length := by
  rw [← String.toList_inj, lineFeeds, String.toList_ofList]
  refine List.eq_replicate_iff.2 ⟨String.length_toList, fun c mem => ?_⟩
  by_contra other
  exact blank ⟨c, mem, other⟩

namespace Session

def runAt (place : Position → Position) (policy : Policy) (s : Session) (text : String) : Session × Report :=
  let parse := Parse.placed place text s.nextId
  note parse.events (perform policy { s with nextId := parse.nextId } parse.program)

/-- The values that were printed, the errors and the store behind a run, with their positions changed. -/
structure Moves (f : Position → Position) (run : Session × Report) (printed : List Value) (errors : List Event)
    (store : Store) : Prop where
  printed : List.Forall₂ (Value.Alike (Stmt.Moved f)) run.2.printed printed
  errors : List.Forall₂ (Event.Moved f) run.2.errors errors
  store : run.1.machine.store.Alike (Stmt.Moved f) store

theorem runAt_id (policy : Policy) (s : Session) (text : String) : s.runAt id policy text = s.run policy text := by
  rw [runAt, Parse.placed_id]
  rfl

variable {clock : Nat → Float} {s : Session} {text : String} {place : Position → Position} {n b : Nat}

theorem placed_accepts_iff (place place' : Position → Position) (nextId nextId' : UseId) :
    (Scoping.start.resolve (Parse.placed place text nextId).program).2 = none ↔
      (Scoping.start.resolve (Parse.placed place' text nextId').program).2 = none := by
  have unplaced (place : Position → Position) (nextId : UseId) :
      (Scoping.start.resolve (Parse.placed place text nextId).program).2 = none ↔
        (Parse.placed id text 0).program.Obeys := by
    rw [Scoping.resolve_accepts_iff (Parse.proper_placed ..).plain]
    have moved := (Parse.placed_moved (f := place) (fun _ => rfl : ∀ p, place (id p) = place p) text 0 nextId).1
    exact Program.obeys_of_view (f := Token.move place) (fun _ => rfl) moved
  rw [unplaced, unplaced]

theorem runAt_keeping (retention : Retention) (n : Nat)
    (accepts : (Scoping.start.resolve (Parse.placed place text s.nextId).program).2 = none) :
    let parse := Parse.placed place text s.nextId
    let result := Machine.executeAll ⟨s.running parse.program, .lexical, s.clock⟩ n parse.program s.machine
    let run := s.runAt place (.keeping retention n) text
    run.1.machine = { Machine.left result with printed := [] } ∧
      run.2.printed = (Machine.left result).printed.reverse ∧
      run.2.errors = parse.events ++ Machine.failures result ∧ run.2.ending = (Report.ofResult result).ending := by
  have silent : (Parse.placed place text s.nextId).events.filterMap Event.value? = [] :=
    List.filterMap_eq_nil_iff.2 fun e mem => (Parse.reports_placed mem).1
  have errors : (Parse.placed place text s.nextId).events.filter Event.isError = (Parse.placed place text s.nextId).events :=
    List.filter_eq_self.2 fun e mem => (Parse.reports_placed mem).2
  intro parse result run
  have eq : run = note parse.events ({ s with
      machine := { Machine.left result with printed := [] }
      addresses := retain retention parse.program (Scoping.start.resolve parse.program).1.addresses (s.running parse.program)
      nextId := parse.nextId }, Report.ofResult result) := congrArg (note parse.events) (perform_keeping accepts)
  rw [eq]
  refine ⟨rfl, ?_, ?_, rfl⟩
  · rw [← Report.printed_ofResult]
    exact (List.filterMap_append ..).trans (congrArg (· ++ _) silent)
  · rw [← Report.errors_ofResult]
    exact (List.filter_append ..).trans (congrArg (· ++ _) errors)

theorem report_keeping (retention : Retention) (n : Nat) (accepts : s.Accepts text) :
    let result := Machine.executeAll ⟨s.tableOf text, .lexical, s.clock⟩ n (s.programOf text) s.machine
    let run := s.run (.keeping retention n) text
    run.1.machine = { Machine.left result with printed := [] } ∧
      run.2.printed = (Machine.left result).printed.reverse ∧
      run.2.errors = (Parse.ofString text s.nextId).events ++ Machine.failures result ∧
      run.2.ending = (Report.ofResult result).ending := by
  have placed : (Scoping.start.resolve (Parse.placed id text s.nextId).program).2 = none := by
    rw [Parse.placed_id]
    exact accepts
  have run := runAt_keeping retention n placed
  rw [runAt_id, Parse.placed_id] at run
  exact run

theorem errors_runAt_lineFeeds (place : Position → Position) (s : Session) (b k : Nat) :
    (s.runAt place (.keeping .withFunctions b) (lineFeeds k)).2.errors = [] := by
  have reading (p : Position) : Grammar.read [⟨.endMark, "", none, p⟩] s.nextId = ⟨[], [], s.nextId⟩ := by
    rw [Grammar.read, Grammar.read?_eq]
    rfl
  have parse : Parse.placed place (lineFeeds k) s.nextId = ⟨[], [], s.nextId⟩ := by
    rw [Parse.placed, tokens_lineFeeds, faults_lineFeeds]
    exact congrArg (fun r : Grammar.Reading => Parse.mk r.program (r.faults.map .grammar) r.nextId) (reading _)
  have accepts : (Scoping.start.resolve (Parse.placed place (lineFeeds k) s.nextId).program).2 = none := by
    rw [parse]
    rfl
  rw [(runAt_keeping .withFunctions b accepts).2.2.1, parse]
  cases b <;> rfl

section Marked

variable (reachable : Reachable clock s) (accepts : s.Accepts text)
  (early : ∀ g, s.machine.Has g → ∀ a ∈ g.tokens, a.position.offset < n)

include reachable accepts early

/-- A run at any place is the image of the marked one. -/
theorem runAt_moves (place : Position → Position) (b : Nat) :
    let marked := s.runAt (Position.mark n) (.keeping .withFunctions b) text
    let run := s.runAt place (.keeping .withFunctions b) text
    run.2.ending = marked.2.ending ∧
      Moves (Position.carry n place) marked run.2.printed run.2.errors run.1.machine.store := by
  have accepted (place : Position → Position) :
      (Scoping.start.resolve (Parse.placed place text s.nextId).program).2 = none := by
    rw [placed_accepts_iff place id s.nextId s.nextId, Parse.placed_id]
    exact accepts
  have proper (place : Position → Position) := Parse.proper_placed place text s.nextId
  have fresh (place : Position → Position) : s.Fresh (Parse.placed place text s.nextId).program :=
    reachable.fresh (Nat.le_refl _) _
  obtain ⟨view, events⟩ := Parse.placed_moved (Position.carry_mark n place) text s.nextId s.nextId
  obtain ⟨machine, printed, errors, ending⟩ := runAt_keeping .withFunctions b (accepted (Position.mark n))
  obtain ⟨machine', printed', errors', ending'⟩ := runAt_keeping .withFunctions b (accepted place)
  have found := found_of_addresses (Program.addresses_of_view (f := Token.move _) (fun _ => rfl) view)
    (fun _ => (fresh (Position.mark n)).running_site (proper _) (accepted _))
    fun _ => (fresh place).running_site (proper _) (accepted _)
  have holds := reachable.matches_self.holds
  have valid : (Likeness.renumbered s.addresses (s.running (Parse.placed place text s.nextId).program)).Valid
      s.machine.twin :=
    holds.has.valid_renumbered fun g ⟨has, _⟩ u used => ((fresh place).addresses_of_has (proper _) (accepted _) has used).1
  have tracks := valid.tracks_moved (f := Position.carry n place)
    (fun g has a mem => Position.carry_of_lt (early g has a mem) place)
    (fun g has u used => ((fresh (Position.mark n)).addresses_of_has (proper _) (accepted _) has used).1) view found
    s.clock 0 b
  have start : s.machine.twin.restart.left = s.machine := congrArg (fun printed => { s.machine with printed }) holds.printed.symm
  unfold Likeness.Tracks at tracks
  rw [start] at tracks
  obtain ⟨same, failures, store, new, shown, alike⟩ := tracks.moved (.inl rfl)
  rw [show s.machine.twin.restart.before = [] from holds.printed, List.append_nil] at shown
  refine ⟨ending'.trans (same.trans ending.symm), ?_, ?_, ?_⟩
  · rw [printed, printed', List.forall₂_reverse_iff]
    exact shown ▸ alike
  · rw [errors, errors']
    exact List.rel_append events failures
  · rw [machine, machine']
    exact store

/-- What is marked in an error is the position of a token or a fault of the text: if another position were, some change of it
would not change the run. -/
theorem exists_item_of_marked {b : Nat} {e : Event}
    (mem : e ∈ (s.runAt (Position.mark n) (.keeping .withFunctions b) text).2.errors) {p : Position}
    (marked : e.position? = some (p.mark n)) : ∃ item ∈ (Source.ofString text).items, item.position = p := by
  classical
  by_contra none
  let away (q : Position) : Position :=
    if ∃ item ∈ (Source.ofString text).items, item.position = q then q.mark n else q.mark (n + 1)
  have stays {item : Item} (mem : item ∈ (Source.ofString text).items) : away item.position = item.position.mark n :=
    if_pos ⟨item, mem, rfl⟩
  have tokens : (scan text).tokens.map (Token.move away) = (scan text).tokens.map (Token.move (Position.mark n)) :=
    List.map_congr_left fun t mem => congrArg (fun position => { t with position }) (stays (token_mem_items mem))
  have faults : (scan text).faults.map (Fault.move away) = (scan text).faults.map (Fault.move (Position.mark n)) := by
    refine List.map_congr_left fun fault mem => ?_
    have stays := stays (fault_mem_items mem)
    cases fault <;> exact congrArg _ stays
  have parse : Parse.placed away text s.nextId = Parse.placed (Position.mark n) text s.nextId := by
    rw [Parse.placed, Parse.placed, tokens, faults]
  have same : s.runAt away (.keeping .withFunctions b) text = s.runAt (Position.mark n) (.keeping .withFunctions b) text := by
    rw [runAt, runAt, parse]
  have image := (runAt_moves reachable accepts early away b).2.errors
  rw [same] at image
  have position := (List.forall₂_same.1 image e mem).position_eq
  rw [marked, Option.map_some, Position.carry_mark, Option.some.injEq] at position
  rw [show away p = p.mark (n + 1) from if_neg none] at position
  have offset := congrArg Position.offset position
  simp [Position.mark] at offset

theorem behind_of_marked {first : String} (short : (first ++ "\n" ++ text).length < 2 ^ 31) {b : Nat} {e : Event}
    (mem : e ∈ (s.runAt (Position.mark n) (.keeping .withFunctions b) text).2.errors) {p : Position}
    (marked : e.position? = some (p.mark n)) :
    (p.behind (first ++ "\n")).offset = p.offset + (first.utf8ByteSize + 1) ∧
      (p.behind (first ++ "\n")).line.toInt = p.line.toInt + (first.toList.count '\n' + 1 : Nat) ∧
      (p.behind (first ++ "\n")).column = p.column := by
  by_cases visible : ∃ c ∈ text.toList, c ≠ '\n'
  · obtain ⟨item, there, rfl⟩ := exists_item_of_marked reachable accepts early mem marked
    refine ⟨?_, item.line_behind short visible there, rfl⟩
    rw [Position.behind_newline]
  · rw [eq_lineFeeds visible, errors_runAt_lineFeeds] at mem
    cases mem

end Marked

end Session

end Scriptlet
