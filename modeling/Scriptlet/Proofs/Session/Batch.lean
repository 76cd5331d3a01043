import Std.Data.TreeMap.Lemmas
import Scriptlet.Session
import Scriptlet.Proofs.Grammar.Refinement
import Scriptlet.Proofs.Machine.Outcome
import Scriptlet.Proofs.Token.Lexer

namespace Scriptlet

open Machine (Stop)

def Report.ofResult {α : Type} (result : EStateM.Result Stop Machine α) : Report :=
  let printed := (Machine.left result).printed.reverse.map Event.printed
  match result with
  | .ok _ _ => ⟨printed, .regular⟩
  | .error (.failed e) _ => ⟨printed ++ [.failure e], .regular⟩
  | .error (.defective d) _ => ⟨printed, .defective d⟩
  | .error .exhausted _ => ⟨printed, .exhausted⟩

theorem Report.failure_mem_ofResult {α : Type} {result : EStateM.Result Stop Machine α} {e : Located Machine.Fault} :
    .failure e ∈ (Report.ofResult result).events ↔ ∃ m, result = .error (.failed e) m := by
  unfold Report.ofResult
  split
  · simp
  · next other m =>
    constructor
    · intro mem
      have same : e = other := by simpa using mem
      exact ⟨m, same ▸ rfl⟩
    · rintro ⟨_, ⟨⟩⟩
      simp
  · simp
  · simp

def Policy.keeping (retention : Retention) (budget : Nat) : Policy :=
  { standard with retention, budget }

theorem Report.defective_ofResult {α : Type} {result : EStateM.Result Stop Machine α} {d : Machine.Defect}
    (defective : (Report.ofResult result).ending = .defective d) : ∃ m, result = .error (.defective d) m := by
  unfold Report.ofResult at defective
  split at defective
  · cases defective
  · cases defective
  · cases defective
    exact ⟨_, rfl⟩
  · cases defective

namespace Session

theorem getElem?_addAll_of_some {found : Addresses} {id : UseId} {distance : Nat} (h : found[id]? = some distance)
    (addresses : Addresses) : (addAll found addresses)[id]? = some distance := by
  -- once the pair is entered it stays, since the other pairs of the table say the same of this number
  have entered (pairs : List (UseId × Nat)) (table : Addresses) (agree : ∀ d, (id, d) ∈ pairs → d = distance)
      (there : table[id]? = some distance ∨ (id, distance) ∈ pairs) :
      (pairs.foldl (fun table pair => table.insert pair.1 pair.2) table)[id]? = some distance := by
    induction pairs generalizing table with
    | nil => simpa using there
    | cons pair rest ih =>
      obtain ⟨i, d⟩ := pair
      refine ih _ (fun d mem => agree d (List.mem_cons_of_mem _ mem)) ?_
      by_cases same : i = id
      · subst same
        cases agree d List.mem_cons_self
        exact .inl Std.TreeMap.getElem?_insert_self
      · rcases there with there | there
        · left
          simpa [Std.TreeMap.getElem?_insert, same] using there
        · right
          rcases List.mem_cons.1 there with eq | mem
          · exact absurd (congrArg Prod.fst eq).symm same
          · exact mem
  rw [addAll, Std.TreeMap.foldl_eq_foldl_toList]
  have listed {d : Nat} : (id, d) ∈ found.toList ↔ found[id]? = some d :=
    Std.TreeMap.mem_toList_iff_getElem?_eq_some
  refine entered _ _ (fun d mem => ?_) (.inr (listed.2 h))
  exact Option.some.inj ((listed.1 mem).symm.trans h)

theorem getElem?_foldl_of_none {found : Addresses} {id : UseId} (h : found[id]? = none)
    {f : Addresses → UseId → Nat → Addresses} (alone : ∀ table i d, i ≠ id → (f table i d)[id]? = table[id]?)
    (addresses : Addresses) : (found.foldl f addresses)[id]? = addresses[id]? := by
  have apart : ∀ pair ∈ found.toList, pair.1 ≠ id := by
    rintro ⟨i, d⟩ mem rfl
    cases h.symm.trans (Std.TreeMap.mem_toList_iff_getElem?_eq_some.1 mem)
  rw [Std.TreeMap.foldl_eq_foldl_toList]
  generalize found.toList = pairs at apart
  induction pairs generalizing addresses with
  | nil => rfl
  | cons pair rest ih =>
    rw [List.foldl_cons, ih _ fun p mem => apart p (List.mem_cons_of_mem _ mem)]
    exact alone addresses pair.1 pair.2 (apart pair List.mem_cons_self)

theorem getElem?_addAll_of_none {found : Addresses} {id : UseId} (h : found[id]? = none) (addresses : Addresses) :
    (addAll found addresses)[id]? = addresses[id]? := by
  refine getElem?_foldl_of_none h (fun table i d apart => ?_) addresses
  simp [Std.TreeMap.getElem?_insert, apart]

theorem getElem?_removeAll_of_none {found : Addresses} {id : UseId} (h : found[id]? = none) (addresses : Addresses) :
    (removeAll found addresses)[id]? = addresses[id]? := by
  refine getElem?_foldl_of_none h (fun table i d apart => ?_) addresses
  simp [Std.TreeMap.getElem?_erase, apart]

def after (policy : Policy) (s : Session) (texts : List String) : Session :=
  texts.foldl (fun s text => (s.run policy text).1) s

theorem after_append (policy : Policy) (s : Session) (texts : List String) (text : String) :
    s.after policy (texts ++ [text]) = ((s.after policy texts).run policy text).1 := by
  simp [after]

def play (clock : Nat → Float) (batches : List (Nat × String)) : Session :=
  batches.foldl (fun s batch => (s.run (.keeping .withFunctions batch.1) batch.2).1) (start clock)

theorem play_append (clock : Nat → Float) (batches : List (Nat × String)) (n : Nat) (text : String) :
    play clock (batches ++ [(n, text)]) = ((play clock batches).run (.keeping .withFunctions n) text).1 := by
  simp [play]

section Batch

variable (s : Session) (text : String)

def programOf : Program :=
  (Parse.ofString text s.nextId).program

def nextIdOf : Nat :=
  (Parse.ofString text s.nextId).nextId

def scopingOf : Scoping × Option (Located Scope.Fault) :=
  Scoping.start.resolve (s.programOf text)

def Accepts : Prop :=
  (s.scopingOf text).2 = none

def tableOf : Addresses :=
  addAll (s.scopingOf text).1.addresses s.addresses

def settingOf : Machine.Setting :=
  ⟨s.tableOf text, .lexical, s.clock⟩

end Batch

theorem programOf_of_tokens {s : Session} {text : String} {tokens : List Token} {id : UseId}
    (scanned : (Source.ofString text).items.filterMap Token.Item.token? = tokens) (next : s.nextId = id) :
    s.programOf text =
      ((Grammar.declarations (Grammar.budget tokens.length) false (Grammar.Cursor.ofTokens tokens id)).map
        Prod.fst).getD [] := by
  rw [programOf, Parse.ofString]
  dsimp only
  rw [scan_tokens, scanned, next, Grammar.read, Grammar.read?_eq]
  cases Grammar.declarations (Grammar.budget tokens.length) false (Grammar.Cursor.ofTokens tokens id) <;> rfl

theorem interpret_eq (policy : Policy) (s : Session) (program : Program) :
    interpret policy s program =
      let result := Machine.executeAll ⟨s.addresses, policy.addressing, s.clock⟩ policy.budget program s.machine
      ({ s with machine := { Machine.left result with printed := [] } }, Report.ofResult result) := by
  unfold interpret
  dsimp only
  split <;> next run => simp [run, Machine.left, Report.ofResult]

def resolvedBy (policy : Policy) (program : Program) : Scoping × Option (Located Scope.Fault) :=
  if policy.resolves then Scoping.start.resolve program else (.start, none)

/-- A batch is refused, or it is run with the addresses that were found. -/
theorem perform_cases (policy : Policy) (s : Session) (program : Program) :
    let resolved := resolvedBy policy program
    let found := resolved.1.addresses
    let breaches := resolved.2.toList.map Event.scope
    let table := addAll found s.addresses
    let result := Machine.executeAll ⟨table, policy.addressing, s.clock⟩ policy.budget program s.machine
    perform policy s program = (s, ⟨breaches, .regular⟩) ∨
      perform policy s program =
        ({ s with
            machine := { Machine.left result with printed := [] }
            addresses := retain policy.retention program found table },
          { Report.ofResult result with events := breaches ++ (Report.ofResult result).events }) := by
  intro resolved found breaches table result
  unfold perform
  change (if policy.strict && resolved.2.isSome then _ else _) = _ ∨
    (if policy.strict && resolved.2.isSome then _ else _) = _
  split
  · exact .inl rfl
  · right
    rw [interpret_eq]
    rfl

section Retain

variable {retention : Retention} {program : Program} {found : Addresses}

theorem getElem?_retain_of_none {i : UseId} (absent : found[i]? = none) (addresses : Addresses) :
    (retain retention program found addresses)[i]? = addresses[i]? := by
  have removed := getElem?_removeAll_of_none absent addresses
  cases retention with
  | always => rfl
  | never => exact removed
  | withFunctions =>
    unfold retain
    dsimp only
    split
    · rfl
    · exact removed

theorem retain_of_declares (mindful : retention ≠ .never) (declares : program.declaresFunction = true)
    (addresses : Addresses) : retain retention program found addresses = addresses := by
  cases retention with
  | always => rfl
  | never => exact absurd rfl mindful
  | withFunctions => exact if_pos declares

end Retain

section Perform

variable {retention : Retention} {n : Nat} {s : Session} {program : Program} {text : String}

theorem perform_resolving {policy : Policy} (resolves : policy.resolves = true)
    (accepts : (Scoping.start.resolve program).2 = none) :
    let found := (Scoping.start.resolve program).1.addresses
    let table := addAll found s.addresses
    let result := Machine.executeAll ⟨table, policy.addressing, s.clock⟩ policy.budget program s.machine
    perform policy s program =
      ({ s with
          machine := { Machine.left result with printed := [] }
          addresses := retain policy.retention program found table },
        Report.ofResult result) := by
  unfold perform
  simp only [resolves, if_true, accepts, interpret_eq, Option.isSome_none, Bool.and_false, Bool.false_eq_true, if_false]
  rfl

theorem perform_keeping (accepts : (Scoping.start.resolve program).2 = none) :
    let found := (Scoping.start.resolve program).1.addresses
    let table := addAll found s.addresses
    let result := Machine.executeAll ⟨table, .lexical, s.clock⟩ n program s.machine
    perform (.keeping retention n) s program =
      ({ s with
          machine := { Machine.left result with printed := [] }
          addresses := retain retention program found table },
        Report.ofResult result) :=
  perform_resolving rfl accepts

theorem perform_keeping_refused {breach : Located Scope.Fault}
    (refused : (Scoping.start.resolve program).2 = some breach) :
    perform (.keeping retention n) s program = (s, ⟨[.scope breach], .regular⟩) := by
  unfold perform
  simp only [Policy.keeping, Policy.standard, if_true, refused]
  rfl

theorem run_keeping (accepts : s.Accepts text) :
    let result := Machine.executeAll ⟨s.tableOf text, .lexical, s.clock⟩ n (s.programOf text) s.machine
    s.run (.keeping retention n) text =
      note (Parse.ofString text s.nextId).events
        ({ s with
            machine := { Machine.left result with printed := [] }
            addresses := retain retention (s.programOf text) (s.scopingOf text).1.addresses (s.tableOf text)
            nextId := s.nextIdOf text },
          Report.ofResult result) :=
  congrArg (note (Parse.ofString text s.nextId).events) (perform_keeping accepts)

theorem report_of_accepts (accepts : s.Accepts text) :
    let result := Machine.executeAll (s.settingOf text) n (s.programOf text) s.machine
    (s.run (.keeping retention n) text).2 =
      ⟨(Parse.ofString text s.nextId).events ++ (Report.ofResult result).events, (Report.ofResult result).ending⟩ := by
  rw [run_keeping accepts]
  rfl

theorem run_keeping_refused {breach : Located Scope.Fault} (refused : (s.scopingOf text).2 = some breach) :
    s.run (.keeping retention n) text =
      note (Parse.ofString text s.nextId).events ({ s with nextId := s.nextIdOf text }, ⟨[.scope breach], .regular⟩) :=
  congrArg (note (Parse.ofString text s.nextId).events) (perform_keeping_refused refused)

theorem run_accepted (accepts : s.Accepts text) :
    let result := Machine.executeAll (s.settingOf text) n (s.programOf text) s.machine
    (s.run (.keeping retention n) text).1.machine = { Machine.left result with printed := [] } ∧
      (s.run (.keeping retention n) text).1.addresses =
        retain retention (s.programOf text) (s.scopingOf text).1.addresses (s.tableOf text) ∧
      (s.run (.keeping retention n) text).1.nextId = s.nextIdOf text := by
  rw [run_keeping accepts]
  exact ⟨rfl, rfl, rfl⟩

theorem run_refused (refused : ¬s.Accepts text) :
    (s.run (.keeping retention n) text).1.machine = s.machine ∧
      (s.run (.keeping retention n) text).1.addresses = s.addresses ∧
      (s.run (.keeping retention n) text).1.nextId = s.nextIdOf text := by
  obtain ⟨breach, found⟩ := Option.ne_none_iff_exists'.1 refused
  rw [run_keeping_refused found]
  exact ⟨rfl, rfl, rfl⟩

theorem defective_of_run {d : Machine.Defect} (defective : (s.run (.keeping retention n) text).2.ending = .defective d) :
    s.Accepts text ∧ ∃ m, Machine.executeAll (s.settingOf text) n (s.programOf text) s.machine = .error (.defective d) m := by
  cases found : (s.scopingOf text).2 with
  | some breach =>
    rw [run_keeping_refused found] at defective
    cases defective
  | none =>
    rw [report_of_accepts found] at defective
    exact ⟨found, Report.defective_ofResult defective⟩

/-- A batch reports the fault that its statements stop with, and no other. -/
theorem failure_mem_run {e : Located Machine.Fault} :
    .failure e ∈ (s.run (.keeping retention n) text).2.events ↔
      s.Accepts text ∧ ∃ m, Machine.executeAll (s.settingOf text) n (s.programOf text) s.machine = .error (.failed e) m := by
  have silent : Event.failure e ∉ (Parse.ofString text s.nextId).events := by simp [Parse.ofString]
  cases found : (s.scopingOf text).2 with
  | some breach =>
    rw [run_keeping_refused found, Accepts, found]
    simp [note, silent]
  | none =>
    rw [report_of_accepts found, List.mem_append, Report.failure_mem_ofResult]
    exact ⟨fun reported => ⟨found, reported.resolve_left silent⟩, fun stopped => .inr stopped.2⟩

end Perform

end Session
end Scriptlet
