import Scriptlet.Proofs.Machine.Lexical
import Scriptlet.Proofs.Session.Outcome

/-!
Forgetting addresses is not observable. A batch that declares no function takes its addresses with it, and every
function that is there afterwards was declared by an earlier batch or by a function of one. So a session that forgets and
one that keeps everything agree on the addresses of all functions, and with that on everything that they report.
-/

namespace Scriptlet

namespace Session

theorem getElem?_removeAll_of_some {found : Addresses} {id : UseId} {d : Nat} (h : found[id]? = some d)
    (addresses : Addresses) : (removeAll found addresses)[id]? = none := by
  -- once the number is erased it stays so, since nothing is ever entered
  have erased (pairs : List (UseId × Nat)) (table : Addresses)
      (gone : table[id]? = none ∨ id ∈ pairs.map Prod.fst) :
      (pairs.foldl (fun table pair => table.erase pair.1) table)[id]? = none := by
    induction pairs generalizing table with
    | nil => simpa using gone
    | cons pair rest ih =>
      refine ih _ ?_
      by_cases same : pair.1 = id
      · subst same
        exact .inl Std.TreeMap.getElem?_erase_self
      · rcases gone with gone | listed
        · left
          simpa [Std.TreeMap.getElem?_erase, same] using gone
        · exact .inr ((List.mem_cons.1 listed).resolve_left (Ne.symm same))
  rw [removeAll, Std.TreeMap.foldl_eq_foldl_toList]
  exact erased _ _ (.inr (List.mem_map.2 ⟨(id, d), Std.TreeMap.mem_toList_iff_getElem?_eq_some.2 h, rfl⟩))

def Agreed (limit : Nat) (addresses addresses' : Addresses) (g : Stmt) : Prop :=
  ∀ u ∈ g.uses, u.id < limit ∧ addresses'[u.id]? = addresses[u.id]?

def retentionLike (limit : Nat) (addresses addresses' : Addresses) : Likeness :=
  .lexical Eq (fun g g' => g' = g ∧ Agreed limit addresses addresses' g) Eq addresses addresses'

section Likeness

variable {limit : Nat} {addresses addresses' : Addresses}

theorem retentionLike_exact : (retentionLike limit addresses addresses').Exact :=
  ⟨Eq.symm, And.left, Eq.symm⟩

theorem retentionLike_sound (clock : Nat → Float) :
    (retentionLike limit addresses addresses').Sound ⟨addresses, .lexical, clock⟩ ⟨addresses', .lexical, clock⟩ :=
  Likeness.lexical_sound (congrArg Token.kind ∘ Eq.symm) (congrArg Token.lexeme ∘ Eq.symm) (fun _ => rfl) clock

theorem retentionLike_use {u : Use} (same : addresses'[u.id]? = addresses[u.id]?) :
    (retentionLike limit addresses addresses').use .verbatim u u :=
  ⟨rfl, same, fun _ => rfl, fun _ _ => .inl rfl⟩

theorem Agreed.part {g h : Stmt} (agreed : Agreed limit addresses addresses' g) (mem : h ∈ g.functions) :
    Agreed limit addresses addresses' h :=
  fun u used => agreed u (Stmt.uses_of_mem_functions g mem used)

theorem Agreed.paired {g : Stmt} (agreed : Agreed limit addresses addresses' g) :
    Stmt.Paired (retentionLike limit addresses addresses') .verbatim g g .verbatim :=
  Stmt.paired_of_view (fun _ => rfl) g g rfl (fun _ _ => rfl)
    (List.forall₂_same.2 fun u used => retentionLike_use (agreed u used).2)
    (List.forall₂_same.2 fun _ mem => ⟨rfl, agreed.part mem⟩)

end Likeness

/-- Two sessions that differ in their tables only, and agree on the addresses of all functions. -/
structure Matches (s s' : Session) : Prop where
  machine : s'.machine = s.machine
  nextId : s'.nextId = s.nextId
  clock : s'.clock = s.clock
  hadError : s'.hadError = s.hadError
  unused : ∀ i : Nat, s.nextId ≤ i → s.addresses[i]? = none ∧ s'.addresses[i]? = none
  holds : s.machine.Holds (Agreed s.nextId s.addresses s'.addresses)

theorem matches_start (clock : Nat → Float) : Matches (start clock) (start clock) where
  machine := rfl
  nextId := rfl
  clock := rfl
  hadError := rfl
  unused _ _ := ⟨Std.TreeMap.getElem?_emptyc, Std.TreeMap.getElem?_emptyc⟩
  holds := holds_start _ clock

namespace Matches

variable {s s' : Session} (same : Matches s s') (text : String)

def limitOf (s : Session) (text : String) : Nat :=
  if (s.programOf text).declaresFunction then s.nextIdOf text else s.nextId

theorem nextId_le_limitOf (s : Session) (text : String) : s.nextId ≤ limitOf s text := by
  unfold limitOf
  split
  · exact (within_programOf s text).le
  · exact Nat.le_refl _

include same

theorem programOf_eq : s'.programOf text = s.programOf text := by
  unfold programOf
  rw [same.nextId]

theorem scopingOf_eq : s'.scopingOf text = s.scopingOf text := by
  unfold scopingOf
  rw [same.programOf_eq]

variable {text}

theorem table_of_mem {u : Use} (used : u ∈ (s.programOf text).uses) :
    (s'.tableOf text)[u.id]? = (s.tableOf text)[u.id]? := by
  rw [tableOf, tableOf, same.scopingOf_eq]
  cases found : (s.scopingOf text).1.addresses[u.id]? with
  | some d => rw [getElem?_addAll_of_some found, getElem?_addAll_of_some found]
  | none =>
    have high := ((within_programOf s text).bounds _ (List.mem_map_of_mem used)).1
    obtain ⟨unused, unused'⟩ := same.unused _ high
    rw [getElem?_addAll_of_none found, getElem?_addAll_of_none found, unused, unused']

variable (accepts : s.Accepts text)

include accepts

theorem table_of_lt {i : Nat} (low : i < s.nextId) (agreed : s'.addresses[i]? = s.addresses[i]?) :
    (s'.tableOf text)[i]? = (s.tableOf text)[i]? := by
  have absent := found_of_lt accepts low
  rw [tableOf, tableOf, same.scopingOf_eq, getElem?_addAll_of_none absent, getElem?_addAll_of_none absent, agreed]

theorem agreed_before {g : Stmt} (agreed : Agreed s.nextId s.addresses s'.addresses g) :
    Agreed (limitOf s text) (s.tableOf text) (s'.tableOf text) g := by
  intro u used
  obtain ⟨low, equal⟩ := agreed u used
  exact ⟨Nat.lt_of_lt_of_le low (nextId_le_limitOf s text), same.table_of_lt accepts low equal⟩

omit accepts in
theorem agreed_within {g : Stmt} (mem : g ∈ Stmt.functionsIn (s.programOf text)) :
    Agreed (limitOf s text) (s.tableOf text) (s'.tableOf text) g := by
  intro u used
  have used := Stmt.uses_of_mem_functionsIn _ mem used
  have declares : (s.programOf text).declaresFunction = true := by
    rw [← Bool.not_eq_false, ← Stmt.functionsIn_eq_nil]
    exact List.ne_nil_of_mem mem
  refine ⟨?_, same.table_of_mem used⟩
  rw [limitOf, if_pos declares]
  exact ((within_programOf s text).bounds _ (List.mem_map_of_mem used)).2

theorem execute (n : Nat) :
    let result := Machine.executeAll ⟨s.tableOf text, .lexical, s.clock⟩ n (s.programOf text) s.machine
    Machine.executeAll ⟨s'.tableOf text, .lexical, s'.clock⟩ n (s.programOf text) s.machine = result ∧
      Machine.Holds (Agreed (limitOf s text) (s.tableOf text) (s'.tableOf text))
        { Machine.left result with printed := [] } := by
  have alike : Stmt.PairedIn (retentionLike (limitOf s text) (s.tableOf text) (s'.tableOf text)) .verbatim
      (s.programOf text) (s.programOf text) :=
    .refl _ (fun _ _ => rfl) (fun u used => retentionLike_use (same.table_of_mem used)) fun _ mem =>
      ⟨rfl, same.agreed_within mem⟩
  have valid : (retentionLike (limitOf s text) (s.tableOf text) (s'.tableOf text)).Valid s.machine.twin :=
    Likeness.valid_self same.holds (fun _ => rfl) fun _ agreed => (same.agreed_before accepts agreed).paired
  have inside : s.machine.current < s.machine.store.frames.size := same.holds.current ▸ same.holds.present
  have ends := (Likeness.lockstep (retentionLike_sound s.clock) 0 n).executeAll valid
    (Machine.renders_twin inside) alike
  obtain ⟨u, steps, left, -⟩ := Likeness.Ends.left ends
  rw [same.clock]
  refine ⟨retentionLike_exact.result_eq rfl ends, ?_⟩
  have holds := steps.valid.holds (steps.current.trans same.holds.current) fun _ _ kept => kept.2
  rw [left] at holds
  exact holds

omit accepts in
theorem run {retention retention' : Retention} (mindful : retention ≠ .never) (mindful' : retention' ≠ .never)
    (n : Nat) (text : String) :
    (s'.run (.keeping retention' n) text).2 = (s.run (.keeping retention n) text).2 ∧
      Matches (s.run (.keeping retention n) text).1 (s'.run (.keeping retention' n) text).1 := by
  have parse : Parse.ofString text s'.nextId = Parse.ofString text s.nextId := by rw [same.nextId]
  have within := within_programOf s text
  cases breach : (s.scopingOf text).2 with
  | some fault =>
    have breach' : (s'.scopingOf text).2 = some fault := same.scopingOf_eq text ▸ breach
    rw [run_keeping_refused breach, run_keeping_refused breach', parse, nextIdOf, parse]
    refine ⟨rfl, ⟨same.machine, rfl, same.clock, ?_, fun i high => same.unused i (Nat.le_trans within.le high), ?_⟩⟩
    · simp only [note, same.hadError]
    · exact same.holds.imp fun g agreed u used => ⟨Nat.lt_of_lt_of_le (agreed u used).1 within.le, (agreed u used).2⟩
  | none =>
    have accepts' : s'.Accepts text := (congrArg Prod.snd (same.scopingOf_eq text)).trans breach
    obtain ⟨equal, holds⟩ := same.execute breach n
    rw [run_keeping breach, run_keeping accepts', parse, nextIdOf, parse, same.programOf_eq, same.scopingOf_eq,
      same.machine, equal]
    refine ⟨rfl, ⟨rfl, rfl, same.clock, ?_, fun i high => ?_, holds.imp fun g agreed u used => ?_⟩⟩
    · simp only [note, same.hadError]
    · have absent := found_of_le breach high
      obtain ⟨unused, unused'⟩ := same.unused i (Nat.le_trans within.le high)
      constructor
      · exact (getElem?_retain_of_none absent _).trans ((getElem?_addAll_of_none absent _).trans unused)
      · refine (getElem?_retain_of_none absent _).trans ?_
        rw [tableOf, same.scopingOf_eq]
        exact (getElem?_addAll_of_none absent _).trans unused'
    · obtain ⟨low, agreed⟩ := agreed u used
      unfold limitOf at low
      split at low
      · next declares =>
        rw [retain_of_declares mindful declares, retain_of_declares mindful' declares]
        exact ⟨low, agreed⟩
      · have absent := found_of_lt breach low
        refine ⟨Nat.lt_of_lt_of_le low within.le, ?_⟩
        exact (getElem?_retain_of_none absent _).trans (agreed.trans (getElem?_retain_of_none absent _).symm)

omit accepts in
theorem reports_eq {retention retention' : Retention} (mindful : retention ≠ .never) (mindful' : retention' ≠ .never)
    (n : Nat) (texts : List String) :
    s'.reports (.keeping retention' n) texts = s.reports (.keeping retention n) texts := by
  induction texts generalizing s s' with
  | nil => rfl
  | cons text rest ih =>
    obtain ⟨report, later⟩ := same.run mindful mindful' n text
    rw [reports, reports, report, ih later]

omit accepts in
theorem after {retention retention' : Retention} (mindful : retention ≠ .never) (mindful' : retention' ≠ .never)
    (n : Nat) (texts : List String) :
    Matches (s.after (.keeping retention n) texts) (s'.after (.keeping retention' n) texts) := by
  induction texts generalizing s s' with
  | nil => exact same
  | cons text rest ih => exact ih (same.run mindful mindful' n text).2

end Matches

theorem Reachable.matches_self {clock : Nat → Float} {s : Session} (reachable : Reachable clock s) : Matches s s := by
  induction reachable with
  | start => exact matches_start clock
  | run before n text ih => exact (ih.run (by decide) (by decide) n text).2

theorem exists_split_append_iff {α : Type} {P : List α → α → Prop} (xs : List α) (x : α) :
    (∃ before y later, xs ++ [x] = before ++ y :: later ∧ P before y) ↔
      (∃ before y later, xs = before ++ y :: later ∧ P before y) ∨ P xs x := by
  constructor
  · rintro ⟨before, y, later, split, holds⟩
    rcases List.eq_nil_or_concat later with rfl | ⟨later, last, rfl⟩
    · obtain ⟨rfl, rfl⟩ := List.append_inj' split rfl |>.imp_right List.singleton_inj.1
      exact .inr holds
    · rw [List.concat_eq_append, ← List.cons_append, ← List.append_assoc] at split
      obtain ⟨rfl, _⟩ := List.append_inj' split rfl
      exact .inl ⟨before, y, later, rfl, holds⟩
  · rintro (⟨before, y, later, rfl, holds⟩ | holds)
    · exact ⟨before, y, later ++ [x], by simp, holds⟩
    · exact ⟨xs, x, [], rfl, holds⟩

theorem getElem?_run_iff {s : Session} (unused : ∀ i : Nat, s.nextId ≤ i → s.addresses[i]? = none) (n : Nat)
    (text : String) (id : UseId) (d : Nat) :
    (s.run (.keeping .withFunctions n) text).1.addresses[id]? = some d ↔
      s.addresses[id]? = some d ∨ s.Accepts text ∧ (s.programOf text).declaresFunction = true ∧
        (s.scopingOf text).1.addresses[id]? = some d := by
  cases breach : (s.scopingOf text).2 with
  | some fault =>
    have refused : ¬s.Accepts text := by simp [Accepts, breach]
    rw [run_keeping_refused breach]
    simp [note, refused]
  | none =>
    have accepts : s.Accepts text := breach
    rw [run_keeping accepts]
    simp only [note, retain, accepts, true_and]
    cases found : (s.scopingOf text).1.addresses[id]? with
    | none =>
      have table : (s.tableOf text)[id]? = s.addresses[id]? := getElem?_addAll_of_none found _
      split
      · simp [table]
      · simp [getElem?_removeAll_of_none found, table]
    | some e =>
      -- a number of this batch was in no table before
      have high : s.nextId ≤ id := Nat.le_of_not_lt fun low => by simp [found_of_lt accepts low] at found
      have table : (s.tableOf text)[id]? = some e := getElem?_addAll_of_some found _
      split
      · next declares => simp [table, unused id high, declares]
      · next none => simp [getElem?_removeAll_of_some found, unused id high, none]

/-- A session that forgets the addresses of batches without functions reports what one reports that forgets none, and
its table holds exactly the addresses of the batches that were accepted and declare functions. -/
theorem forgetting_unobservable (clock : Nat → Float) (n : Nat) (texts : List String) :
    (start clock).reports (.keeping .withFunctions n) texts = (start clock).reports (.keeping .always n) texts ∧
      ∀ (id : UseId) (d : Nat), ((start clock).after (.keeping .withFunctions n) texts).addresses[id]? = some d ↔
        ∃ before text later, texts = before ++ text :: later ∧
          let s := (start clock).after (.keeping .withFunctions n) before
          s.Accepts text ∧ (s.programOf text).declaresFunction = true ∧
            (s.scopingOf text).1.addresses[id]? = some d := by
  have mindful : Retention.withFunctions ≠ .never := nofun
  have mindful' : Retention.always ≠ .never := nofun
  refine ⟨((matches_start clock).reports_eq mindful mindful' n texts).symm, fun id d => ?_⟩
  induction texts using List.reverseRecOn with
  | nil =>
    have none : ((start clock).after (.keeping .withFunctions n) []).addresses[id]? = none :=
      Std.TreeMap.getElem?_emptyc
    simp [none]
  | append_singleton texts text ih =>
    have same := (matches_start clock).after mindful mindful n texts
    rw [after_append, getElem?_run_iff (fun i high => (same.unused i high).1), ih]
    exact (exists_split_append_iff texts text).symm

end Session
end Scriptlet
