import Scriptlet.Proofs.Address.Lexeme
import Scriptlet.Proofs.Machine.Relocation
import Scriptlet.Proofs.Session.Retention

namespace Scriptlet

namespace Session

theorem found_of_addresses {addresses addresses' : Addresses} {program program' : Program}
    (same : program'.sites.map Site.address? = program.sites.map Site.address?)
    (table : ∀ site ∈ program.sites, addresses[site.use.id]? = site.address?)
    (table' : ∀ site ∈ program'.sites, addresses'[site.use.id]? = site.address?) :
    List.Forall₂ (Use.Found addresses addresses') program.uses program'.uses := by
  rw [← Program.map_use_sites, ← Program.map_use_sites]
  refine List.forall₂_map_left_iff.2 (List.forall₂_map_right_iff.2 ?_)
  obtain ⟨length, both⟩ := List.forall₂_iff_zip.1 (forall₂_map_eq_iff.2 same)
  refine List.forall₂_iff_zip.2 ⟨length, fun {site site'} mem => ?_⟩
  obtain ⟨here, there⟩ := List.of_mem_zip mem
  calc addresses'[site'.use.id]? = site'.address? := table' site' there
    _ = site.address? := both mem
    _ = addresses[site.use.id]? := (table site here).symm

theorem declared_of_known {known : Stmt → Prop} {size : Nat} {v : Value} {g : Stmt} (h : v.Known known size)
    (declared : v.declaration? = some g) : known g := by
  cases h with
  | closure serial inside known =>
    cases declared
    exact known
  | _ => cases declared

/-- The numbers of a program are used by nothing that a session knows of. -/
def Fresh (s : Session) (program : Program) : Prop :=
  ∀ u ∈ program.uses, s.addresses[u.id]? = none ∧ ∀ g, s.machine.Has g → ∀ v ∈ g.uses, v.id ≠ u.id

variable {clock : Nat → Float} {s : Session}

theorem Reachable.fresh (reachable : Reachable clock s) {nextId : UseId} (next : s.nextId ≤ nextId)
    (tokens : List Token) : s.Fresh (Grammar.read tokens nextId).program := by
  intro u used
  have bounds := (Grammar.read_numbered tokens nextId).1.bounds _ (List.mem_map_of_mem used)
  refine ⟨(reachable.matches_self.unused _ (Nat.le_trans next bounds.1)).1, ?_⟩
  rintro g ⟨f, b, mem, h, declared, inner⟩ v used' same
  have agreed := declared_of_known (reachable.matches_self.holds.values f b mem) declared
  have low := (agreed v (Stmt.uses_of_mem_functions h inner used')).1
  exact Nat.not_le_of_lt (same ▸ low) (Nat.le_trans next bounds.1)

def running (s : Session) (program : Program) : Addresses :=
  addAll (Scoping.start.resolve program).1.addresses s.addresses

def remaining (s : Session) (program : Program) : Addresses :=
  retain .withFunctions program (Scoping.start.resolve program).1.addresses (s.running program)

theorem remaining_of_declares {program : Program} (declares : program.declaresFunction = true) :
    s.remaining program = s.running program := by
  have mindful : Retention.withFunctions ≠ .never := nofun
  exact retain_of_declares mindful declares _

section Tables

variable {program : Program} (proper : program.Proper) (accepts : (Scoping.start.resolve program).2 = none)
  (fresh : s.Fresh program)

include proper accepts

theorem addresses_of_unused {id : UseId} (unused : ∀ u ∈ program.uses, u.id ≠ id) :
    (s.running program)[id]? = s.addresses[id]? ∧ (s.remaining program)[id]? = s.addresses[id]? := by
  have absent := proper.found_of_unused accepts unused
  have running := getElem?_addAll_of_none absent s.addresses
  exact ⟨running, (getElem?_retain_of_none absent _).trans running⟩

include fresh

theorem Fresh.addresses_of_has {g : Stmt} (has : s.machine.Has g) {u : Use} (used : u ∈ g.uses) :
    (s.running program)[u.id]? = s.addresses[u.id]? ∧ (s.remaining program)[u.id]? = s.addresses[u.id]? :=
  addresses_of_unused proper accepts fun v used' => ((fresh v used').2 g has u used).symm

theorem Fresh.running_site {site : Site} (mem : site ∈ program.sites) :
    (s.running program)[site.use.id]? = site.address? := by
  have found := proper.found accepts mem
  cases address : site.address? with
  | some d => exact getElem?_addAll_of_some (found.trans address) _
  | none =>
    have used : site.use ∈ program.uses := program.map_use_sites ▸ List.mem_map.2 ⟨site, mem, rfl⟩
    exact (getElem?_addAll_of_none (found.trans address) _).trans (fresh _ used).1

omit proper accepts in
theorem Fresh.remaining_of_not_declares (declares : program.declaresFunction = false) {u : Use} (used : u ∈ program.uses) :
    (s.remaining program)[u.id]? = none := by
  rw [remaining, retain, declares]
  cases address : (Scoping.start.resolve program).1.addresses[u.id]? with
  | some d => exact getElem?_removeAll_of_some address _
  | none =>
    exact (getElem?_removeAll_of_none address _).trans ((getElem?_addAll_of_none address _).trans (fresh u used).1)

end Tables

end Session

end Scriptlet
