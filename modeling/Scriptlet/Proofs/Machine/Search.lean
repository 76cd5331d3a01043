import Std.Data.TreeMap.Lemmas
import Scriptlet.Proofs.Machine.Inventory
import Scriptlet.Proofs.Machine.Lexical

namespace Scriptlet

namespace Place

def Passes : Place → String → Prop
  | .global, _ => True
  | .scope _ allowed outer, x => (∀ y, ¬allowed y x) ∧ outer.Passes x
  | .verbatim, _ => False

/-- The first scope that may bind a name is the one at a distance, and it has declared it. -/
def Finds : Place → Nat → String → Prop
  | .scope declared _ _, 0, x => (x, x) ∈ declared
  | .scope _ allowed outer, d + 1, x => (∀ y, ¬allowed y x) ∧ outer.Finds d x
  | .global, _, _ | .verbatim, _, _ => False

end Place

namespace Store

variable {s : Store} {f parent : FrameId} {x : String}

theorem chain_of_parent (up : s.parent? f = some parent) : s.chain f = f :: s.chain parent := by
  rw [Store.chain]
  split
  · next none => cases none.symm.trans up
  · next other => cases other.symm.trans up; rfl

theorem nearest?_of_parent (up : s.parent? f = some parent) (unbound : s.binds f x = false) :
    s.nearest? f x = s.nearest? parent x := by
  rw [nearest?, chain_of_parent up, List.find?_cons, unbound, nearest?]

theorem nearest?_self (bound : s.binds f x = true) : s.nearest? f x = some f := by
  rw [nearest?, Store.chain]
  split <;> simp [bound]

end Store

namespace Likeness

open Machine

def search (addresses : Addresses) : Likeness where
  token := Eq
  use p u u' := u' = u ∧ match addresses[u.id]? with
    | none => p.Passes u.name.lexeme
    | some d => p.Finds d u.name.lexeme
  keeps := Eq
  name := Eq

theorem search_exact (addresses : Addresses) : (search addresses).Exact :=
  ⟨Eq.symm, Eq.symm, Eq.symm⟩

section Search

variable {like : Likeness} {t : Twin} {f : FrameId} {p : Place} {x : String} {d : Nat}

theorem Valid.unbound (valid : like.Valid t) (never : ∀ y, ¬t.allows f y x) : t.right.store.binds f x = false := by
  refine Bool.eq_false_iff.2 fun bound => ?_
  obtain ⟨y, link⟩ := (valid.bindings f).exists_link (Store.binds_iff.1 bound)
  exact never y (valid.allows_of_mem link)

theorem nearest?_of_passes (valid : like.Valid t) (covers : t.Covers f p) (passes : p.Passes x) :
    t.right.store.nearest? f x = t.right.store.nearest? Store.global x := by
  induction p generalizing f with
  | global => rw [show f = Store.global from covers]
  | verbatim => cases passes
  | scope declared allowed outer ih =>
    obtain ⟨links, allows, parent, up, rest⟩ := covers
    obtain ⟨never, passes⟩ := passes
    rw [Store.nearest?_of_parent ((valid.parent f).trans up) (valid.unbound (allows ▸ never)), ih rest passes]

theorem nearest?_of_finds (valid : like.Valid t) (covers : t.Covers f p) (finds : p.Finds d x) :
    ∃ g, t.left.store.ancestor? f d = some g ∧ t.right.store.nearest? f x = some g ∧ (x, x) ∈ t.links g := by
  induction p generalizing f d with
  | global => cases finds
  | verbatim => cases finds
  | scope declared allowed outer ih =>
    obtain ⟨links, allows, parent, up, rest⟩ := covers
    cases d with
    | zero => exact ⟨f, rfl, Store.nearest?_self (Valid.binds_of_mem (links finds)).2, links finds⟩
    | succ d =>
      obtain ⟨never, finds⟩ := finds
      obtain ⟨g, reached, nearest, link⟩ := ih rest finds
      refine ⟨g, ?_, ?_, link⟩
      · rw [Store.ancestor?, up, Option.bind_some, reached]
      · rw [Store.nearest?_of_parent ((valid.parent f).trans up) (valid.unbound (allows ▸ never)), nearest]

end Search

theorem search_sound (addresses addresses' : Addresses) (clock : Nat → Float) :
    (search addresses).Sound ⟨addresses, .lexical, clock⟩ ⟨addresses', .dynamic, clock⟩ where
  clock := rfl
  kind same := congrArg Token.kind same.symm
  lexeme same := congrArg Token.lexeme same.symm
  refl _ := rfl
  target {t p u u'} valid renders same := by
    obtain ⟨rfl, leads⟩ := same
    unfold Machine.target
    cases found : addresses[u'.id]? with
    | none =>
      rw [found] at leads
      have nearest := nearest?_of_passes valid renders.covers leads
      have same : t.right.store.owner t.right.current u'.name = t.right.store.owner Store.global u'.name := by
        rw [Store.owner, valid.current, nearest, Store.owner]
      simp only [same, owner_global, valid.binds_iff valid.global]
      split
      · next bound => exact .found (valid.self_mem_links valid.global (Store.binds_iff.1 bound))
      · exact .missed (.failed rfl (.same _))
    | some d =>
      rw [found] at leads
      obtain ⟨g, reached, nearest, link⟩ := nearest?_of_finds valid renders.covers leads
      simp only [Store.ownerAt, reached, (Valid.binds_of_mem link).1, Store.owner, valid.current, nearest, if_true]
      exact .found link

end Likeness
end Scriptlet
