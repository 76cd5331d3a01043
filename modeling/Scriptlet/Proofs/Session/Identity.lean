import Scriptlet.Proofs.Address.Succession
import Scriptlet.Proofs.Grammar.Numbering
import Scriptlet.Proofs.Session.Outcome

namespace Scriptlet.Session

/-- Tokens that are read with the counter of a session. The statements are run if there is a policy for it. -/
structure Batch where
  tokens : List Token
  policy : Option Policy

section Steps

variable (s : Session) (batch : Batch)

def treeOf : Program :=
  (Grammar.read batch.tokens s.nextId).program

def foundIn : Addresses :=
  (Scoping.start.resolve (s.treeOf batch)).1.addresses

def step : Session :=
  let t := { s with nextId := (Grammar.read batch.tokens s.nextId).nextId }
  match batch.policy with
  | none => t
  | some policy => (perform policy t (s.treeOf batch)).1

def feed (batches : List Batch) : Session :=
  batches.foldl step s

def treesOf (s : Session) : List Batch → List Program
  | [] => []
  | batch :: rest => s.treeOf batch :: (s.step batch).treesOf rest

def idsOf (batches : List Batch) : List UseId :=
  ((s.treesOf batches).flatMap Program.uses).map Use.id

theorem run_eq_step (policy : Policy) (text : String) :
    (s.run policy text).1 =
      { s.step ⟨(scan text).tokens, some policy⟩ with hadError := (s.run policy text).1.hadError } := rfl

theorem treesOf_append (batches more : List Batch) :
    s.treesOf (batches ++ more) = s.treesOf batches ++ (s.feed batches).treesOf more := by
  induction batches generalizing s with
  | nil => rfl
  | cons batch rest ih => exact congrArg (s.treeOf batch :: ·) (ih (s.step batch))

theorem idsOf_append (batches more : List Batch) :
    s.idsOf (batches ++ more) = s.idsOf batches ++ (s.feed batches).idsOf more := by
  simp [idsOf, treesOf_append]

theorem idsOf_cons (batches : List Batch) :
    s.idsOf (batch :: batches) = (s.treeOf batch).uses.map Use.id ++ (s.step batch).idsOf batches := by
  simp [idsOf, treesOf]

theorem nextId_perform (policy : Policy) (program : Program) : (perform policy s program).1.nextId = s.nextId := by
  rcases perform_cases policy s program with refused | run
  · rw [refused]
  · rw [run]

theorem nextId_step : (s.step batch).nextId = (Grammar.read batch.tokens s.nextId).nextId := by
  unfold step
  dsimp only
  split
  · rfl
  · exact nextId_perform _ _ _

theorem within_treesOf (batches : List Batch) :
    Grammar.Within s.nextId (s.feed batches).nextId ((s.treesOf batches).flatMap Program.uses) := by
  induction batches generalizing s with
  | nil => exact .nil (Nat.le_refl _)
  | cons batch rest ih =>
    have here := (Grammar.read_numbered batch.tokens s.nextId).1
    rw [← nextId_step] at here
    rw [treesOf, List.flatMap_cons]
    exact here.append (ih (s.step batch))

theorem nodup_idsOf (batches : List Batch) : (s.idsOf batches).Nodup :=
  (s.within_treesOf batches).nodup

theorem mem_ids_of_found {program : Program} {id : UseId} {d : Nat}
    (found : (Scoping.start.resolve program).1.addresses[id]? = some d) : id ∈ program.uses.map Use.id := by
  by_contra absent
  have outside : Scoping.start.Outside := ⟨rfl, rfl⟩
  have unused : ∀ u ∈ program.uses, u.id ≠ id := fun u used same => absent (List.mem_map.2 ⟨u, used, same⟩)
  have none := ((outside.resolve_beside program).2 id).2 unused
  cases none.symm.trans found

variable {s batch}

theorem getElem?_perform_of_notMem (policy : Policy) {program : Program} {id : UseId}
    (absent : id ∉ program.uses.map Use.id) : (perform policy s program).1.addresses[id]? = s.addresses[id]? := by
  have found : (resolvedBy policy program).1.addresses[id]? = none := by
    unfold resolvedBy
    split
    · exact Option.eq_none_iff_forall_ne_some.2 fun d found => absent (mem_ids_of_found found)
    · exact Std.TreeMap.getElem?_emptyc
  rcases perform_cases policy s program with refused | run
  · rw [refused]
  · rw [run, getElem?_retain_of_none found, getElem?_addAll_of_none found]

theorem getElem?_step_of_notMem {id : UseId} (absent : id ∉ (s.treeOf batch).uses.map Use.id) :
    (s.step batch).addresses[id]? = s.addresses[id]? := by
  unfold step
  dsimp only
  split
  · rfl
  · exact getElem?_perform_of_notMem _ absent

theorem getElem?_feed_of_notMem {batches : List Batch} {id : UseId} (absent : id ∉ s.idsOf batches) :
    (s.feed batches).addresses[id]? = s.addresses[id]? := by
  induction batches generalizing s with
  | nil => rfl
  | cons batch rest ih =>
    rw [idsOf_cons, List.mem_append, not_or] at absent
    exact (ih absent.2).trans (getElem?_step_of_notMem absent.1)

end Steps

/-- How the addresses found in a batch stand to all that a session takes in before and behind it. -/
structure Apart (s : Session) (before : List Batch) (batch : Batch) (behind : List Batch) : Prop where
  /-- What the table says when the batch comes, it still says when the new addresses are added. -/
  kept : ∀ {id : UseId} {d : Nat}, (s.feed before).addresses[id]? = some d →
    (addAll ((s.feed before).foundIn batch) (s.feed before).addresses)[id]? = some d
  /-- No new address has an entry already. -/
  new : ∀ {id : UseId} {d : Nat}, ((s.feed before).foundIn batch)[id]? = some d → (s.feed before).addresses[id]? = none
  /-- Nor has it been found before, so it also differs from what has been forgotten. -/
  unheard : ∀ {id : UseId} {d : Nat} {early late : List Batch} {other : Batch},
    ((s.feed before).foundIn batch)[id]? = some d → before = early ++ other :: late →
    ((s.feed early).foundIn other)[id]? = none
  /-- It is the address of one use of the batch, and of no other use in any of the trees. -/
  single : ∀ {id : UseId} {d : Nat}, ((s.feed before).foundIn batch)[id]? = some d →
    (∃ u ∈ ((s.feed before).treeOf batch).uses, u.id = id) ∧ (s.idsOf (before ++ batch :: behind)).count id = 1

/-- No number is given to two uses, whatever batches a session takes in from the start with the counter anywhere, and the
addresses of each batch are its own. -/
theorem numbers_apart (clock : Nat → Float) (first : UseId) (batches : List Batch) :
    let s := { start clock with nextId := first }
    (s.idsOf batches).Nodup ∧ ∀ before batch behind, batches = before ++ batch :: behind → s.Apart before batch behind := by
  intro s
  refine ⟨s.nodup_idsOf batches, ?_⟩
  rintro before batch behind rfl
  have distinct := s.nodup_idsOf (before ++ batch :: behind)
  have used {id : UseId} {d : Nat} (found : ((s.feed before).foundIn batch)[id]? = some d) :
      id ∈ ((s.feed before).treeOf batch).uses.map Use.id := mem_ids_of_found found
  have unused {id : UseId} {d : Nat} (found : ((s.feed before).foundIn batch)[id]? = some d) : id ∉ s.idsOf before := by
    intro early
    rw [idsOf_append, idsOf_cons] at distinct
    exact (List.nodup_append.1 distinct).2.2 id early id (List.mem_append_left _ (used found)) rfl
  have new {id : UseId} {d : Nat} (found : ((s.feed before).foundIn batch)[id]? = some d) :
      (s.feed before).addresses[id]? = none :=
    (getElem?_feed_of_notMem (unused found)).trans Std.TreeMap.getElem?_emptyc
  refine ⟨?_, new, ?_, ?_⟩
  · intro id d there
    cases found : ((s.feed before).foundIn batch)[id]? with
    | none => exact (getElem?_addAll_of_none found _).trans there
    | some e => cases (new found).symm.trans there
  · rintro id d early late other found rfl
    refine Option.eq_none_iff_forall_ne_some.2 fun e heard => unused found ?_
    rw [idsOf_append, idsOf_cons]
    exact List.mem_append_right _ (List.mem_append_left _ (mem_ids_of_found heard))
  · intro id d found
    refine ⟨List.mem_map.1 (used found), distinct.count (a := id) |>.trans (if_pos ?_)⟩
    rw [idsOf_append, idsOf_cons]
    exact List.mem_append_right _ (List.mem_append_left _ (used found))

def mixed : List Batch :=
  [⟨(scan "x = 1 = y; z").tokens, none⟩, ⟨(scan "fun f(p) { p; }").tokens, some .standard⟩,
    ⟨(scan "{ var x; x; }").tokens, some .standard⟩]

theorem numbers_apart_mixed :
    let s := { start (fun _ => 0) with nextId := 7 }
    let before := mixed.take 2
    let block : Batch := ⟨(scan "{ var x; x; }").tokens, some .standard⟩
    mixed = before ++ [block] ∧ (s.feed before).addresses[(11 : Nat)]? = some 0 ∧
      ((s.feed before).foundIn block)[(12 : Nat)]? = some 0 ∧
      (addAll ((s.feed before).foundIn block) (s.feed before).addresses)[(11 : Nat)]? = some 0 ∧
      (s.feed before).addresses[(12 : Nat)]? = none ∧ (s.idsOf mixed).count 12 = 1 := by
  intro s before block
  have apart : s.Apart before block [] := (numbers_apart (fun _ => 0) 7 mixed).2 before block [] rfl
  have there : (s.feed before).addresses[(11 : Nat)]? = some 0 := by decide +kernel
  have found : ((s.feed before).foundIn block)[(12 : Nat)]? = some 0 := by decide +kernel
  exact ⟨rfl, there, found, apart.kept there, apart.new found, (apart.single found).2⟩

end Scriptlet.Session
