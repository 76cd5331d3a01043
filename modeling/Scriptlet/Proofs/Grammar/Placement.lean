import Scriptlet.Proofs.Grammar.Bounds
import Scriptlet.Proofs.Tree.Part

/-!
Where tokens stand does not matter to the reader. Two lists of tokens that agree in all but the positions are one list that
is seen twice: give each of its tokens the index for a position, and both lists are views of the result. So both readings
are views of one, and whatever tokens that one holds stand in its list, each under an index.
-/

namespace Scriptlet

namespace Token

def unplaced (t : Token) : Token :=
  { t with position := .start }

def Moves (f : Token → Token) : Prop :=
  ∀ t, (f t).unplaced = t.unplaced

theorem Moves.lexeme {f : Token → Token} (moves : Moves f) (t : Token) : (f t).lexeme = t.lexeme :=
  (Token.mk.inj (moves t)).2.1

end Token

def Located.Alike {Cause : Type} (places : Token → Token → Prop) (error error' : Located Cause) : Prop :=
  places error.token error'.token ∧ error'.cause = error.cause

/-- Two programs that show one, their tokens at different places. -/
structure Program.Placed (places : Token → Token → Prop) (origin : Program) (f f' : Token → Token)
    (program program' : Program) : Prop where
  moves : Token.Moves f
  moves' : Token.Moves f'
  first : program.map Stmt.unnumbered = origin.map (Stmt.view f)
  second : program'.map Stmt.unnumbered = origin.map (Stmt.view f')
  places : ∀ t ∈ Stmt.tokensIn origin, places (f t) (f' t)

namespace Grammar

open Cursor

variable {tokens tokens' : List Token}

def Corresponds (tokens tokens' : List Token) (t t' : Token) : Prop :=
  ∃ i : Nat, (ended tokens)[i]? = some t ∧ (ended tokens')[i]? = some t'

theorem View.of_moves {f : Token → Token} (moves : Token.Moves f) : View f :=
  ⟨fun t => (Token.mk.inj (moves t)).1, fun t => (Token.mk.inj (moves t)).2.2.1⟩

theorem unplaced_ended (agree : tokens'.map Token.unplaced = tokens.map Token.unplaced) :
    (ended tokens').map Token.unplaced = (ended tokens).map Token.unplaced := by
  have marks (tokens : List Token) : tokens.getLast?.any isEnd = (tokens.map Token.unplaced).getLast?.any isEnd := by
    rw [List.getLast?_map, Option.any_map]
    rfl
  unfold ended
  rw [marks tokens', agree, ← marks]
  split
  · exact agree
  · rw [List.map_append, List.map_append, agree]
    rfl

theorem Corresponds.unplaced_eq (agree : tokens'.map Token.unplaced = tokens.map Token.unplaced) {t t' : Token}
    (h : Corresponds tokens tokens' t t') : t'.unplaced = t.unplaced := by
  obtain ⟨i, here, there⟩ := h
  have same := congrArg (·[i]?) (unplaced_ended agree)
  simpa [here, there] using same

theorem firstEnd_eq_of_unplaced (agree : tokens'.map Token.unplaced = tokens.map Token.unplaced) :
    firstEnd tokens' = firstEnd tokens := by
  have marks (tokens : List Token) : tokens.findIdx isEnd = (tokens.map Token.unplaced).findIdx isEnd := by
    rw [List.findIdx_map]
    rfl
  rw [firstEnd, firstEnd, marks (ended tokens'), unplaced_ended agree, ← marks]

theorem unplaced_cut (agree : tokens'.map Token.unplaced = tokens.map Token.unplaced) :
    (cut tokens').map Token.unplaced = (cut tokens).map Token.unplaced := by
  rw [cut, cut, List.map_take, List.map_take, firstEnd_eq_of_unplaced agree, unplaced_ended agree]

theorem exists_end_cut (tokens : List Token) : ∃ t ∈ cut tokens, t.kind = .endMark := by
  obtain ⟨body, last, extra, split, inside, ends, -⟩ := ended_split tokens
  refine ⟨last, ?_, ends⟩
  rw [cut, split, firstEnd_eq split inside ends, List.take_length_add_append]
  simp

theorem getElem?_of_cut {i : Nat} {t : Token} (h : (cut tokens)[i]? = some t) : (ended tokens)[i]? = some t := by
  rw [cut, List.getElem?_take] at h
  split at h
  · exact h
  · cases h

def indexed (tokens : List Token) : List Token :=
  tokens.mapIdx fun i t => { t with position := ⟨i, 0, 0⟩ }

def placeIn (tokens : List Token) (t : Token) : Token :=
  { t with position := (tokens[t.position.offset]?.map Token.position).getD t.position }

theorem moves_placeIn (tokens : List Token) : Token.Moves (placeIn tokens) :=
  fun _ => rfl

theorem map_placeIn_indexed (tokens : List Token) : (indexed tokens).map (placeIn tokens) = tokens := by
  refine List.ext_getElem (by simp [indexed]) fun i _ inside => ?_
  simp [indexed, placeIn, List.getElem?_eq_getElem inside]

theorem getElem?_placeIn {t : Token} (mem : t ∈ indexed tokens) :
    tokens[t.position.offset]? = some (placeIn tokens t) := by
  obtain ⟨i, inside, rfl⟩ := List.mem_mapIdx.1 mem
  simp [placeIn, List.getElem?_eq_getElem inside]

theorem indexed_eq_of_unplaced (agree : tokens'.map Token.unplaced = tokens.map Token.unplaced) :
    indexed tokens' = indexed tokens := by
  have forgets (tokens : List Token) : indexed tokens = indexed (tokens.map Token.unplaced) := by
    refine List.ext_getElem (by simp [indexed]) fun i _ _ => ?_
    simp [indexed, Token.unplaced]
  rw [forgets, agree, ← forgets]

theorem read_map {f : Token → Token} (view : View f) (ends : ∃ t ∈ tokens, t.kind = .endMark) (nextId nextId' : UseId) :
    (read (tokens.map f) nextId').program.map Stmt.unnumbered = (read tokens nextId).program.map (Stmt.view f) ∧
      (read (tokens.map f) nextId').faults = (read tokens nextId).faults.map (Located.map f) := by
  have kinds : isEnd ∘ f = isEnd := funext fun t => congrArg (· == .endMark) (view.kind t)
  have kinds' : (!isEnd ·) ∘ f = (!isEnd ·) := funext fun t => congrArg (!·) (congrFun kinds t)
  refine read_mirror view ?_ ?_
  · change (tokens.map f).takeWhile (!isEnd ·) = (tokens.takeWhile (!isEnd ·)).map f
    rw [List.takeWhile_map, kinds']
  · obtain ⟨t, mem, marks⟩ := ends
    have some : (tokens.find? isEnd).isSome := List.find?_isSome.2 ⟨t, mem, by simp [isEnd, marks]⟩
    obtain ⟨last, found⟩ := Option.isSome_iff_exists.1 some
    have moved : (tokens.map f).find? isEnd = Option.some (f last) := by
      rw [List.find?_map, kinds, found]
      rfl
    simp only [ofTokens, found, moved, Option.getD_some]

theorem read_within (ends : ∃ t ∈ tokens, t.kind = .endMark) (nextId : UseId) :
    (∀ t ∈ Stmt.tokensIn (read tokens nextId).program, t ∈ tokens) ∧
      ∀ error ∈ (read tokens nextId).faults, error.token ∈ tokens := by
  let away (t : Token) : Token := if t ∈ tokens then t else { t with position.offset := t.position.offset + 1 }
  have view : View away := View.of_moves fun t => by
    unfold away
    split <;> rfl
  have stays {t : Token} (fixed : away t = t) : t ∈ tokens := by
    unfold away at fixed
    split at fixed
    · assumption
    · exact absurd (congrArg (·.position.offset) fixed) (by simp)
  have unmoved : tokens.map away = tokens := (List.map_congr_left fun t mem => if_pos mem).trans (List.map_id tokens)
  obtain ⟨program, faults⟩ := read_map view ends nextId nextId
  rw [unmoved] at program faults
  constructor
  · have fixed := congrArg Stmt.tokensIn program
    rw [Stmt.tokensIn_map, Stmt.tokensIn_map] at fixed
    exact fun t mem => stays (List.map_inj_left.1 fixed t mem).symm
  · exact fun error mem => stays (congrArg Located.token (List.map_inj_left.1 ((List.map_id _).trans faults) error mem)).symm

/-- Two lists that agree in all but the positions are read as programs that show one, with the same faults at tokens of
the same index. -/
theorem read_placed (agree : tokens'.map Token.unplaced = tokens.map Token.unplaced) (nextId nextId' : UseId) :
    (∃ origin f f', Program.Placed (Corresponds tokens tokens') origin f f' (read tokens nextId).program
      (read tokens' nextId').program) ∧
      List.Forall₂ (Located.Alike (Corresponds tokens tokens')) (read tokens nextId).faults
        (read tokens' nextId').faults := by
  have same := indexed_eq_of_unplaced (unplaced_cut agree)
  have ends : ∃ t ∈ indexed (cut tokens), t.kind = .endMark := by
    obtain ⟨t, mem, marks⟩ := exists_end_cut tokens
    rw [← map_placeIn_indexed (cut tokens)] at mem
    obtain ⟨t, inside, rfl⟩ := List.mem_map.1 mem
    exact ⟨t, inside, marks⟩
  obtain ⟨program, faults⟩ := read_map (View.of_moves (moves_placeIn (cut tokens))) ends 0 nextId
  obtain ⟨program', faults'⟩ := read_map (View.of_moves (moves_placeIn (cut tokens'))) ends 0 nextId'
  rw [map_placeIn_indexed] at program faults
  rw [← same, map_placeIn_indexed, same] at program' faults'
  obtain ⟨cuts, cuts_faults⟩ := read_cut tokens nextId nextId
  obtain ⟨cuts', cuts_faults'⟩ := read_cut tokens' nextId' nextId'
  obtain ⟨within, within_faults⟩ := read_within ends 0
  have corresponds {t : Token} (mem : t ∈ indexed (cut tokens)) :
      Corresponds tokens tokens' (placeIn (cut tokens) t) (placeIn (cut tokens') t) :=
    ⟨t.position.offset, getElem?_of_cut (getElem?_placeIn mem), getElem?_of_cut (getElem?_placeIn (same ▸ mem))⟩
  refine ⟨⟨(read (indexed (cut tokens)) 0).program, placeIn (cut tokens), placeIn (cut tokens'), moves_placeIn _,
    moves_placeIn _, cuts.symm.trans program, cuts'.symm.trans program', fun t mem => corresponds (within t mem)⟩, ?_⟩
  rw [← cuts_faults, ← cuts_faults', faults, faults', List.forall₂_map_left_iff, List.forall₂_map_right_iff]
  exact List.forall₂_same.2 fun error mem => ⟨corresponds (within_faults error mem), rfl⟩

end Grammar
end Scriptlet
