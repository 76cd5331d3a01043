import Mathlib.Data.List.Nodup
import Mathlib.Data.List.Induction
import Scriptlet.Proofs.Address.Record
import Scriptlet.Proofs.Grammar.Numbering
import Scriptlet.Proofs.Machine.Agreement
import Scriptlet.Proofs.Session.Batch

namespace Scriptlet.Session

/-- A moment of running a text within a budget: with `k` of it left a task is begun on a machine. -/
def Moment (s : Session) (budget : Nat) (text : String) (k : Nat) (task : Machine.Task) (m : Machine) : Prop :=
  s.Accepts text ∧ Machine.Visits (s.settingOf text) budget (.executeAll (s.programOf text)) s.machine k task m

def Premature (clock : Nat → Float) (batches : List (Nat × String)) (id : UseId) : Prop :=
  ∃ before n text later, batches = before ++ (n, text) :: later ∧ ((play clock before).programOf text).Premature id

theorem premature_append_iff (clock : Nat → Float) (batches : List (Nat × String)) (n : Nat) (text : String) (id : UseId) :
    Premature clock (batches ++ [(n, text)]) id ↔
      Premature clock batches id ∨ ((play clock batches).programOf text).Premature id := by
  constructor
  · rintro ⟨before, k, other, later, split, premature⟩
    rcases List.eq_nil_or_concat later with rfl | ⟨later, last, rfl⟩
    · obtain ⟨rfl, same⟩ := List.append_inj' split rfl
      cases same
      exact .inr premature
    · rw [List.concat_eq_append, ← List.cons_append, ← List.append_assoc] at split
      obtain ⟨rfl, _⟩ := List.append_inj' split rfl
      exact .inl ⟨before, k, other, later, rfl, premature⟩
  · rintro (⟨before, k, other, later, rfl, premature⟩ | premature)
    · exact ⟨before, k, other, later ++ [(n, text)], by simp, premature⟩
    · exact ⟨batches, n, text, [], rfl, premature⟩

structure Consistent (clock : Nat → Float) (batches : List (Nat × String)) : Prop where
  addresses : ∀ i : Nat, (play clock batches).nextId ≤ i → (play clock batches).addresses[i]? = none
  premature : ∀ i : Nat, Premature clock batches i → i < (play clock batches).nextId
  valid : Directory.Valid ⟨(play clock batches).addresses, Premature clock batches, (play clock batches).nextId⟩
    (play clock batches).machine
  current : (play clock batches).machine.current = Store.global

theorem consistent_nil (clock : Nat → Float) : Consistent clock [] where
  addresses i _ := Std.TreeMap.getElem?_emptyc
  premature i h := by
    obtain ⟨before, n, text, later, split, _⟩ := h
    cases before <;> cases split
  valid := by
    refine ⟨Nat.zero_lt_one, fun f x v found serial callable same => ?_⟩
    change (Store.initial.add Store.global "clock" (.function 0 (.builtin clockBuiltin))).find? f x = some v at found
    rw [Store.find?_add (by decide)] at found
    split at found
    · cases found
      cases same
      rfl
    · cases (Store.find?_initial f x).symm.trans found
  current := rfl

section Step

variable {clock : Nat → Float} {batches : List (Nat × String)} {n : Nat} {text : String}

theorem within_programOf (s : Session) (text : String) :
    Grammar.Within s.nextId (s.nextIdOf text) (s.programOf text).uses :=
  (Grammar.read_numbered (scan text).tokens s.nextId).1

theorem plain_programOf (s : Session) (text : String) : Stmt.PlainIn (s.programOf text) :=
  (Grammar.read_numbered (scan text).tokens s.nextId).2

/-- What is known while a batch runs. Unless it declares functions, no number of it outlives it. -/
def directoryOf (clock : Nat → Float) (batches : List (Nat × String)) (n : Nat) (text : String) : Directory where
  addresses := (play clock batches).tableOf text
  premature := Premature clock (batches ++ [(n, text)])
  limit :=
    if ((play clock batches).programOf text).declaresFunction then (play clock batches).nextIdOf text
    else (play clock batches).nextId

theorem mem_ids_of_mem_sites {program : Program} {site : Site} (mem : site ∈ program.sites) :
    site.use.id ∈ program.uses.map Use.id := by
  have used : site.use ∈ program.uses := program.map_use_sites ▸ List.mem_map.2 ⟨site, mem, rfl⟩
  exact List.mem_map.2 ⟨site.use, used, rfl⟩

theorem nodup_sites (s : Session) (text : String) : ((s.programOf text).sites.map (·.use.id)).Nodup := by
  have nodup := (within_programOf s text).nodup
  rw [← Program.map_use_sites, List.map_map] at nodup
  exact nodup

theorem premature_append_of_lt {i : Nat} (low : i < (play clock batches).nextId) :
    Premature clock (batches ++ [(n, text)]) i ↔ Premature clock batches i := by
  refine (premature_append_iff clock batches n text i).trans ⟨?_, .inl⟩
  rintro (early | ⟨site, mem, _, rfl⟩)
  · exact early
  · have high := ((within_programOf _ text).bounds _ (mem_ids_of_mem_sites mem)).1
    exact absurd low (Nat.not_lt_of_le high)

section Accepted

variable {s : Session} (accepts : s.Accepts text)
include accepts

theorem scopingOf_recorded :
    (s.scopingOf text).1.addresses = (∅ : Addresses).recordAll (s.programOf text).sites ∧
      ∀ site ∈ (s.programOf text).sites, site.Lawful :=
  Scoping.resolve_recorded (plain_programOf s text) (Prod.ext rfl accepts)

theorem found_of_notMem {i : Nat} (h : i ∉ (s.programOf text).uses.map Use.id) :
    (s.scopingOf text).1.addresses[i]? = none := by
  rw [(scopingOf_recorded accepts).1, Addresses.getElem?_recordAll_of_notMem]
  · exact Std.TreeMap.getElem?_emptyc
  · rintro site mem rfl
    exact h (mem_ids_of_mem_sites mem)

theorem found_of_lt {i : Nat} (h : i < s.nextId) : (s.scopingOf text).1.addresses[i]? = none :=
  found_of_notMem accepts fun mem => Nat.not_le_of_lt h ((within_programOf s text).bounds i mem).1

theorem found_of_le {i : Nat} (h : s.nextIdOf text ≤ i) : (s.scopingOf text).1.addresses[i]? = none :=
  found_of_notMem accepts fun mem => Nat.not_le_of_lt ((within_programOf s text).bounds i mem).2 h

theorem tableOf_site {site : Site} (unused : ∀ i : Nat, s.nextId ≤ i → s.addresses[i]? = none)
    (mem : site ∈ (s.programOf text).sites) : (s.tableOf text)[site.use.id]? = site.address? := by
  have found : (s.scopingOf text).1.addresses[site.use.id]? = site.address? := by
    rw [(scopingOf_recorded accepts).1]
    exact Addresses.getElem?_recordAll_of_mem mem (nodup_sites s text) fun _ _ => Std.TreeMap.getElem?_emptyc
  cases address : site.address? with
  | some d => exact getElem?_addAll_of_some (found.trans address) _
  | none =>
    have low := ((within_programOf s text).bounds _ (mem_ids_of_mem_sites mem)).1
    exact (getElem?_addAll_of_none (found.trans address) _).trans (unused _ low)

end Accepted

namespace Consistent

theorem lists (con : Consistent clock batches) (accepts : (play clock batches).Accepts text) :
    ∀ site ∈ ((play clock batches).programOf text).sites, (directoryOf clock batches n text).Lists site := by
  intro site mem
  refine ⟨(scopingOf_recorded accepts).2 site mem, tableOf_site accepts con.addresses mem, ?_⟩
  have low := ((within_programOf _ text).bounds _ (mem_ids_of_mem_sites mem)).1
  refine (premature_append_iff clock batches n text _).trans ⟨?_, fun premature => .inr ⟨site, mem, premature, rfl⟩⟩
  rintro (early | ⟨other, there, premature, same⟩)
  · exact absurd (con.premature _ early) (Nat.not_lt_of_le low)
  · exact List.inj_on_of_nodup_map (nodup_sites _ text) there mem same ▸ premature

theorem opening (accepts : (play clock batches).Accepts text) :
    Directory.Extends ⟨(play clock batches).addresses, Premature clock batches, (play clock batches).nextId⟩
      (directoryOf clock batches n text) where
  limit := by
    unfold directoryOf
    dsimp only
    split
    · exact (within_programOf _ text).le
    · exact Nat.le_refl _
  addresses i low := getElem?_addAll_of_none (found_of_lt accepts low) _
  premature _ low := premature_append_of_lt low

theorem ready (con : Consistent clock batches) (accepts : (play clock batches).Accepts text) :
    (directoryOf clock batches n text).Ready (.executeAll ((play clock batches).programOf text))
      (play clock batches).machine := by
  have valid := con.valid.extend (opening (n := n) accepts)
  have plain := plain_programOf (play clock batches) text
  refine ⟨valid, [], ⟨⟨con.current, valid.current⟩, fun inside => absurd rfl inside⟩, ?_⟩
  refine ⟨plain, ⟨false, (Scoping.resolve_accepts_iff plain).1 accepts⟩, con.lists accepts, fun declares i mem => ?_⟩
  have high := ((within_programOf _ text).bounds i mem).2
  unfold directoryOf
  dsimp only
  rwa [if_pos declares]

theorem ended (con : Consistent clock batches) (accepts : (play clock batches).Accepts text) :
    Directory.Ends (directoryOf clock batches n text) (some (play clock batches).machine.current)
      ((directoryOf clock batches n text).Blames (play clock batches).clock n
        (.executeAll ((play clock batches).programOf text)) (play clock batches).machine)
      (play clock batches).machine
      (Machine.executeAll ((play clock batches).settingOf text) n ((play clock batches).programOf text))
      fun flow m => (directoryOf clock batches n text).AdmitsFlow m.store flow :=
  ((directoryOf clock batches n text).sound (play clock batches).clock _).executeAll (con.ready accepts)

theorem closing (accepts : (play clock batches).Accepts text) :
    (directoryOf clock batches n text).Extends
      ⟨retain .withFunctions ((play clock batches).programOf text) ((play clock batches).scopingOf text).1.addresses
        ((play clock batches).tableOf text), Premature clock (batches ++ [(n, text)]), (play clock batches).nextIdOf text⟩ := by
  unfold directoryOf retain
  by_cases declares : ((play clock batches).programOf text).declaresFunction
  · simp only [if_pos declares]
    exact ⟨Nat.le_refl _, fun _ _ => rfl, fun _ _ => Iff.rfl⟩
  · simp only [if_neg declares]
    refine ⟨(within_programOf _ text).le, fun i low => ?_, fun _ _ => Iff.rfl⟩
    exact getElem?_removeAll_of_none (found_of_lt accepts low) _

theorem run (con : Consistent clock batches) (n : Nat) (text : String) : Consistent clock (batches ++ [(n, text)]) := by
  have within := within_programOf (play clock batches) text
  have bounded : ∀ i : Nat, Premature clock (batches ++ [(n, text)]) i → i < (play clock batches).nextIdOf text := by
    intro i premature
    rcases (premature_append_iff clock batches n text i).1 premature with early | ⟨site, mem, _, rfl⟩
    · exact Nat.lt_of_lt_of_le (con.premature i early) within.le
    · exact (within.bounds _ (mem_ids_of_mem_sites mem)).2
  by_cases accepts : (play clock batches).Accepts text
  · obtain ⟨machine, addresses, nextId⟩ := run_accepted accepts
    rw [← play_append] at machine addresses nextId
    have steps := (con.ended (n := n) accepts).steps_left
    refine ⟨?_, nextId ▸ bounded, ?_, ?_⟩
    · intro i high
      rw [nextId] at high
      have found := found_of_le accepts high
      have table := (getElem?_addAll_of_none found _).trans (con.addresses i (Nat.le_trans within.le high))
      rw [addresses, retain]
      split
      · exact table
      · exact (getElem?_removeAll_of_none found _).trans table
    · rw [machine, addresses, nextId]
      have valid := steps.valid.extend (closing accepts)
      exact ⟨valid.current, valid.values⟩
    · rw [machine]
      exact steps.current.trans con.current
  · -- a refused batch has taken its numbers and left nothing else
    obtain ⟨machine, addresses, nextId⟩ := run_refused accepts
    rw [← play_append] at machine addresses nextId
    refine ⟨?_, nextId ▸ bounded, ?_, ?_⟩
    · intro i high
      rw [nextId] at high
      rw [addresses, con.addresses i (Nat.le_trans within.le high)]
    · rw [machine, addresses, nextId]
      exact con.valid.extend ⟨within.le, fun _ _ => rfl, fun _ low => premature_append_of_lt low⟩
    · rw [machine, con.current]

end Consistent

end Step

theorem consistent (clock : Nat → Float) (batches : List (Nat × String)) : Consistent clock batches := by
  induction batches using List.reverseRecOn with
  | nil => exact consistent_nil clock
  | append_singleton batches batch ih => exact ih.run batch.1 batch.2

theorem ready_of_moment {clock : Nat → Float} {batches : List (Nat × String)} {n : Nat} {text : String} {k : Nat}
    {task : Machine.Task} {m : Machine} (moment : (play clock batches).Moment n text k task m) :
    (directoryOf clock batches n text).Ready task m :=
  ((consistent clock batches).ready moment.1).visit moment.2

/-- Addresses and frames agree at the moments of a batch. The one exception is a premature assignment, which stops with
a defect as soon as it has a value to assign; no batch ends with a defect for another reason. -/
structure Agreement (s : Session) (n : Nat) (text : String) (premature : UseId → Prop) : Prop where
  /-- The frame at the address of a read is there and binds the name, so the read finds a value. -/
  read : ∀ {k id name m d}, s.Moment n text k (.evaluate (.read id name)) m → (s.tableOf text)[id]? = some d →
    m.store.BindsAt m.current d name.lexeme ∧ ∃ v, Machine.lookUp (s.settingOf text) id name m = .ok v m
  /-- The same of an assignment, before its right side is evaluated and after it. -/
  assign : ∀ {k id name value m d}, s.Moment n text k (.evaluate (.assign id name value)) m → ¬premature id →
    (s.tableOf text)[id]? = some d →
    m.store.BindsAt m.current d name.lexeme ∧
      ∀ j v m', Machine.evaluate (s.settingOf text) j value m = .ok v m' →
        m'.store.BindsAt m'.current d name.lexeme ∧
          ∃ m'', Machine.evaluate (s.settingOf text) (j + 1) (.assign id name value) m = .ok v m''
  early : ∀ {k id name value m}, s.Moment n text k (.evaluate (.assign id name value)) m → premature id →
    (s.tableOf text)[id]? = some 0 ∧
      ∀ j v m', Machine.evaluate (s.settingOf text) j value m = .ok v m' →
        Machine.evaluate (s.settingOf text) (j + 1) (.assign id name value) m =
          .error (.defective (.unbound name.lexeme 0)) m'
  defect : ∀ {d}, (s.run (.keeping .withFunctions n) text).2.ending = .defective d →
    ∃ k id name value m v m', s.Moment n text (k + 1) (.evaluate (.assign id name value)) m ∧ premature id ∧
      Machine.evaluate (s.settingOf text) k value m = .ok v m' ∧ d = .unbound name.lexeme 0

/-- This holds of every text run on a session that has run any others before, within any budgets. An assignment is premature exactly if it
stands in the initial value of the local variable that it assigns to, be it in this text or in an earlier one. -/
theorem moments_agree (clock : Nat → Float) (batches : List (Nat × String)) (n : Nat) (text : String) :
    Agreement (play clock batches) n text (Premature clock (batches ++ [(n, text)])) := by
  have con := consistent clock batches
  have ready {k : Nat} {task : Machine.Task} {m : Machine} (moment : (play clock batches).Moment n text k task m) :
      (directoryOf clock batches n text).Ready task m :=
    (con.ready moment.1).visit moment.2
  refine ⟨?_, ?_, ?_, ?_⟩
  · intro k id name m d moment address
    exact (ready moment).read address
  · intro k id name value m d moment mature address
    exact (ready moment).assign mature address
  · intro k id name value m moment premature
    exact (ready moment).premature premature
  · intro d defective
    obtain ⟨accepts, m, result⟩ := defective_of_run defective
    obtain ⟨k, id, name, value, m, v, m', visits, run, premature, unbound⟩ := (con.ended accepts).blamed result
    exact ⟨k, id, name, value, m, v, m', ⟨accepts, visits⟩, premature, run, unbound⟩

def localRead : String := "{ var a; a; }"

def localReadTokens : List Token :=
  [⟨.leftBrace, "\x7b", none, ⟨0, 1, 1⟩⟩, ⟨.varWord, "var", none, ⟨2, 1, 3⟩⟩, ⟨.identifier, "a", none, ⟨6, 1, 7⟩⟩,
    ⟨.semicolon, ";", none, ⟨7, 1, 8⟩⟩, ⟨.identifier, "a", none, ⟨9, 1, 10⟩⟩, ⟨.semicolon, ";", none, ⟨10, 1, 11⟩⟩,
    ⟨.rightBrace, "\x7d", none, ⟨12, 1, 13⟩⟩, ⟨.endMark, "", none, ⟨13, 1, 14⟩⟩]

def selfAssigned : String := "{ var a = a = nil; }"

theorem moments_agree_localRead_selfAssigned :
    (∃ k name m, (play (fun _ => 0) []).Moment 20 localRead k (.evaluate (.read 0 name)) m ∧
      ((play (fun _ => 0) []).tableOf localRead)[0]? = some 0 ∧ m.store.BindsAt m.current 0 name.lexeme) ∧
    ∃ k id name value m, (play (fun _ => 0) []).Moment 20 selfAssigned k (.evaluate (.assign id name value)) m ∧
      Premature (fun _ => 0) [(20, selfAssigned)] id ∧ ((play (fun _ => 0) []).tableOf selfAssigned)[id]? = some 0 := by
  constructor
  · let declared : Token := ⟨.identifier, "a", none, ⟨6, 1, 7⟩⟩
    let read : Token := ⟨.identifier, "a", none, ⟨9, 1, 10⟩⟩
    have program : programOf (play (fun _ => 0) []) localRead =
        [.block [.declare declared none, .expression (.read 0 read)]] := by
      have scanned : (Source.ofString localRead).items.filterMap Token.Item.token? = localReadTokens := by
        decide +kernel
      rw [programOf_of_tokens scanned (show _ = 0 from rfl)]
      rfl
    have address : ((play (fun _ => 0) []).tableOf localRead)[0]? = some 0 := by decide +kernel
    let opened : Machine :=
      { (start fun _ => 0).machine with store := ((start fun _ => 0).machine.store.child 0).2, current := 1 }
    obtain ⟨m, run⟩ : ∃ m, Machine.execute ((play (fun _ => 0) []).settingOf localRead) 17 (.declare declared none) opened =
        .ok .onward m := ⟨_, rfl⟩
    have moment : (play (fun _ => 0) []).Moment 20 localRead 15 (.evaluate (.read 0 read)) m := by
      refine ⟨by unfold Accepts; decide +kernel, ?_⟩
      rw [program]
      exact .step .first (.step (.block rfl) (.step (.next run) (.step .first (.step .expression (.here ..)))))
    have agrees := moments_agree (fun _ => 0) [] 20 localRead
    exact ⟨_, read, m, moment, address, (agrees.read moment address).1⟩
  · have ending : ((play (fun _ => 0) []).run (.keeping .withFunctions 20) selfAssigned).2.ending =
        .defective (.unbound "a" 0) := by
      decide +kernel
    have agrees := moments_agree (fun _ => 0) [] 20 selfAssigned
    obtain ⟨k, id, name, value, m, v, m', moment, premature, _⟩ := agrees.defect ending
    exact ⟨k + 1, id, name, value, m, moment, premature, (agrees.early moment premature).1⟩

end Scriptlet.Session
