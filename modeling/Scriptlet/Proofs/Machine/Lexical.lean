import Std.Data.TreeMap.Lemmas
import Scriptlet.Proofs.Machine.Lockstep
import Scriptlet.Proofs.Tree.Part

namespace Scriptlet

namespace Place

def Sees : Place → Nat → String → String → Prop
  | .verbatim, _, x, x' => x = x'
  | .scope declared _ _, 0, x, x' => (x, x') ∈ declared
  | .scope _ _ outer, d + 1, x, x' => outer.Sees d x x'
  | .global, _, _, _ => False

def Misses : Place → String → String → Prop
  | .scope declared _ _, x, x' => x ∉ declared.map Prod.fst ∧ x' ∉ declared.map Prod.snd
  | .verbatim, _, _ | .global, _, _ => False

end Place

/-- What two uses at a place have in common when both go by tables of addresses. -/
structure Use.Alike (token : Token → Token → Prop) (name : String → String → Prop) (addresses addresses' : Addresses)
    (p : Place) (u u' : Use) : Prop where
  name : name u.name.lexeme u'.name.lexeme
  address : addresses'[u'.id]? = addresses[u.id]?
  global : addresses[u.id]? = none → token u.name u'.name
  within : ∀ d, addresses[u.id]? = some d →
    p.Sees d u.name.lexeme u'.name.lexeme ∨ d = 0 ∧ p.Misses u.name.lexeme u'.name.lexeme

namespace Likeness

open Machine

def lexical (token : Token → Token → Prop) (keeps : Stmt → Stmt → Prop) (name : String → String → Prop)
    (addresses addresses' : Addresses) : Likeness where
  token
  use := Use.Alike token name addresses addresses'
  keeps
  name

variable {like : Likeness} {t : Twin} {f g : FrameId} {p : Place} {x x' : String} {d : Nat}

theorem Valid.self_mem_links (valid : like.Valid t) (same : t.allows f = Eq) (mem : x ∈ t.left.store.names f) :
    (x, x) ∈ t.links f := by
  rw [Twin.links, valid.names_eq same, List.zip_eq_zipWith, List.zipWith_self]
  exact List.mem_map.2 ⟨x, mem, rfl⟩

theorem Valid.binds_iff (valid : like.Valid t) (same : t.allows f = Eq) (x : String) :
    t.right.store.binds f x = t.left.store.binds f x := by
  rw [Bool.eq_iff_iff, Store.binds_iff, Store.binds_iff, valid.names_eq same]

theorem owner_global (s : Store) (name : Token) :
    s.owner Store.global name =
      if s.binds Store.global name.lexeme then .ok Store.global else .error ⟨name, .undefined name.lexeme⟩ := by
  have alone : s.chain Store.global = [Store.global] := by
    unfold Store.chain
    split
    · rfl
    · next up => exact absurd (Store.parent?_lt up) (Nat.not_lt_zero _)
  cases bound : s.binds Store.global name.lexeme <;> simp [Store.owner, Store.nearest?, alone, bound]

/-- What is seen at a distance is linked there, or in all frames from here on both sides bind the same names. -/
theorem sees_ancestor (covers : t.Covers f p) (sees : p.Sees d x x') :
    (∃ g, t.left.store.ancestor? f d = some g ∧ (x, x') ∈ t.links g) ∨
      x = x' ∧ ∀ g, t.left.store.ancestor? f d = some g → t.allows g = Eq := by
  induction p generalizing f d with
  | global => cases sees
  | verbatim => exact .inr ⟨sees, covers.2 d⟩
  | scope declared allowed outer ih =>
    obtain ⟨links, allows, parent, up, rest⟩ := covers
    cases d with
    | zero => exact .inl ⟨f, rfl, links sees⟩
    | succ d =>
      have climb : t.left.store.ancestor? f (d + 1) = t.left.store.ancestor? parent d := by
        rw [Store.ancestor?, up, Option.bind_some]
      rw [climb]
      exact ih rest sees

theorem ownerAt_alike (valid : like.Valid t) (renders : t.Renders f p) (names : like.name x x')
    (within : p.Sees d x x' ∨ d = 0 ∧ p.Misses x x') :
    like.Targets t x x' ((t.left.store.ownerAt f d x).mapError .defective)
      ((t.right.store.ownerAt f d x').mapError .defective) := by
  unfold Store.ownerAt
  rw [valid.ancestor?]
  rcases within with sees | ⟨rfl, misses⟩
  · rcases sees_ancestor renders.covers sees with ⟨g, found, link⟩ | ⟨rfl, same⟩
    · obtain ⟨bound, bound'⟩ := Valid.binds_of_mem link
      simp only [found, bound, bound', if_true]
      exact .found link
    · cases found : t.left.store.ancestor? f d with
      | none => exact .missed .tooShallow
      | some g =>
        dsimp only
        rw [valid.binds_iff (same g found)]
        split
        · next bound => exact .found (valid.self_mem_links (same g found) (Store.binds_iff.1 bound))
        · exact .missed (.unbound names d)
  · cases p with
    | global => cases misses
    | verbatim => cases misses
    | scope declared allowed outer =>
      obtain ⟨absent, absent'⟩ := misses
      rw [← renders.exact rfl, valid.map_fst_links] at absent
      rw [← renders.exact rfl, valid.map_snd_links] at absent'
      have unbound := Bool.eq_false_iff.2 (mt Store.binds_iff.1 absent)
      have unbound' := Bool.eq_false_iff.2 (mt Store.binds_iff.1 absent')
      simp only [Store.ancestor?, unbound, unbound']
      exact .missed (.unbound names 0)

section Sound

variable {token : Token → Token → Prop} {keeps : Stmt → Stmt → Prop} {name : String → String → Prop}
  {addresses addresses' : Addresses}

theorem lexical_sound (kind : ∀ {a a'}, token a a' → a'.kind = a.kind)
    (lexeme : ∀ {a a'}, token a a' → a'.lexeme = a.lexeme) (refl : ∀ x, name x x) (clock : Nat → Float) :
    Sound (lexical token keeps name addresses addresses') ⟨addresses, .lexical, clock⟩
      ⟨addresses', .lexical, clock⟩ where
  clock := rfl
  kind := kind
  lexeme := lexeme
  refl := refl
  target {t p u u'} valid renders same := by
    have address := same.address
    cases found : addresses[u.id]? with
    | none =>
      have place := same.global found
      simp only [Machine.target, address, found, owner_global, valid.binds_iff valid.global, lexeme place]
      split
      · next bound => exact .found (valid.self_mem_links valid.global (Store.binds_iff.1 bound))
      · exact .missed (.failed place (.same _))
    | some d =>
      simp only [Machine.target, address, found, valid.current]
      exact ownerAt_alike valid renders same.name (same.within d found)

end Sound

end Likeness
end Scriptlet
