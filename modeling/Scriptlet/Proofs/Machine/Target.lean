import Scriptlet.Proofs.Store.Growth
import Scriptlet.Machine

namespace Scriptlet

namespace Store

variable {s : Store} {id f : FrameId} {name : Token}

theorem findSome?_eq_bind (s : Store) (chain : List FrameId) (x : String) :
    chain.findSome? (s.find? · x) = (chain.find? (s.binds · x)).bind (s.find? · x) := by
  induction chain with
  | nil => rfl
  | cons g chain ih => cases found : s.find? g x <;> simp [binds, found, ih]

theorem get_of_owner (h : s.owner id name = .ok f) : ∃ v, s.find? f name.lexeme = some v ∧ s.get id name = .ok v := by
  unfold owner at h
  split at h
  · next found =>
    cases h
    unfold nearest? at found
    have bound := List.find?_some found
    obtain ⟨v, there⟩ := Option.isSome_iff_exists.1 bound
    refine ⟨v, there, ?_⟩
    simp [get, findSome?_eq_bind, found, there]
  · cases h

theorem get_of_owner_error {e : Located Machine.Fault} (h : s.owner id name = .error e) : s.get id name = .error e := by
  unfold owner at h
  split at h
  · cases h
  · next missed =>
    cases h
    unfold nearest? at missed
    simp only [get, findSome?_eq_bind, missed, Option.bind_none]

theorem getAt_of_ownerAt {d : Nat} {x : String} (h : s.ownerAt id d x = .ok f) :
    ∃ v, s.find? f x = some v ∧ s.getAt id d x = .ok v := by
  unfold ownerAt at h
  unfold getAt
  split at h
  · cases h
  · next g _ =>
    split at h
    · next bound =>
      cases h
      obtain ⟨v, found⟩ := Option.isSome_iff_exists.1 bound
      exact ⟨v, found, by simp only [found]⟩
    · cases h

theorem getAt_of_ownerAt_error {d : Nat} {x : String} {e : Machine.Defect} (h : s.ownerAt id d x = .error e) :
    s.getAt id d x = .error e := by
  unfold ownerAt at h
  unfold getAt
  split at h
  · cases h
    rfl
  · next g _ =>
    split at h
    · cases h
    · next unbound =>
      cases h
      have absent : s.find? g x = none := by simpa [binds] using unbound
      simp only [absent]

end Store

namespace Machine

variable {s : Setting} {id : UseId} {name : Token} {m : Machine} {f : FrameId} {v : Value} {e : Stop}

def target (s : Setting) (id : UseId) (name : Token) (m : Machine) : Except Stop FrameId :=
  match s.addressing, s.addresses[id]? with
  | .dynamic, _ => (m.store.owner m.current name).mapError .failed
  | .lexical, none => (m.store.owner Store.global name).mapError .failed
  | .lexical, some distance => (m.store.ownerAt m.current distance name.lexeme).mapError .defective

theorem mapError_eq_ok {ε ε' α : Type} {h : ε → ε'} {x : Except ε α} {a : α} : x.mapError h = .ok a ↔ x = .ok a := by
  cases x with
  | ok b =>
    change Except.ok b = .ok a ↔ _
    simp
  | error d =>
    change Except.error (h d) = .ok a ↔ _
    simp

theorem mapError_eq_error {ε ε' α : Type} {h : ε → ε'} {x : Except ε α} {e : ε'} :
    x.mapError h = .error e ↔ ∃ d, x = .error d ∧ h d = e := by
  cases x with
  | ok b =>
    change Except.ok b = .error e ↔ _
    simp
  | error d =>
    change Except.error (h d) = .error e ↔ _
    simp

theorem find?_of_target (h : target s id name m = .ok f) : ∃ v, m.store.find? f name.lexeme = some v := by
  unfold target at h
  split at h
  · exact (Store.get_of_owner (mapError_eq_ok.1 h)).imp fun _ both => both.1
  · exact (Store.get_of_owner (mapError_eq_ok.1 h)).imp fun _ both => both.1
  · exact (Store.getAt_of_ownerAt (mapError_eq_ok.1 h)).imp fun _ both => both.1

theorem lookUp_of_target (h : target s id name m = .ok f) (found : m.store.find? f name.lexeme = some v) :
    lookUp s id name m = .ok v m := by
  have named {id : FrameId} (h : (m.store.owner id name).mapError Stop.failed = .ok f) :
      m.store.get id name = .ok v := by
    obtain ⟨w, there, read⟩ := Store.get_of_owner (mapError_eq_ok.1 h)
    cases there.symm.trans found
    exact read
  revert h
  unfold target lookUp
  cases s.addressing with
  | dynamic =>
    intro h
    simp only [named h]
  | lexical =>
    cases s.addresses[id]? with
    | none =>
      intro h
      simp only [named h]
    | some d =>
      intro h
      obtain ⟨w, there, read⟩ := Store.getAt_of_ownerAt (mapError_eq_ok.1 h)
      cases there.symm.trans found
      simp only [read]

theorem lookUp_of_target_error (h : target s id name m = .error e) : lookUp s id name m = .error e m := by
  revert h
  unfold target lookUp
  cases s.addressing with
  | dynamic =>
    intro h
    obtain ⟨d, missed, rfl⟩ := mapError_eq_error.1 h
    simp only [Store.get_of_owner_error missed]
  | lexical =>
    cases s.addresses[id]? with
    | none =>
      intro h
      obtain ⟨d, missed, rfl⟩ := mapError_eq_error.1 h
      simp only [Store.get_of_owner_error missed]
    | some d =>
      intro h
      obtain ⟨d, missed, rfl⟩ := mapError_eq_error.1 h
      simp only [Store.getAt_of_ownerAt_error missed]

theorem write_eq {ε : Type} (stop : ε → Stop) (search : FrameId → Store → Except ε FrameId)
    (change : Store → FrameId → Store) (m : Machine) :
    write stop search change m =
      match (search m.current m.store).mapError stop with
      | .ok f => .ok () { m with store := change m.store f }
      | .error e => .error e m := by
  unfold write
  cases search m.current m.store <;> rfl

theorem assign_eq (s : Setting) (id : UseId) (name : Token) (v : Value) (m : Machine) :
    assign s id name v m =
      match target s id name m with
      | .ok f => .ok () { m with store := m.store.replace f name.lexeme v }
      | .error e => .error e m := by
  unfold assign target
  cases s.addressing with
  | dynamic => exact write_eq ..
  | lexical => cases s.addresses[id]? <;> exact write_eq ..

end Machine

end Scriptlet
