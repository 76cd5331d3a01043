import Scriptlet.Proofs.Grammar.Moment
import Scriptlet.Proofs.Grammar.Sequel

namespace Scriptlet.Grammar

open Outcome Cursor

variable {tokens : List Token}

def firstEnd (tokens : List Token) : Nat :=
  (ended tokens).findIdx isEnd

theorem ofTokens_cut {body : List Token} {last : Token} (inside : ∀ t ∈ body, t.kind ≠ .endMark)
    (ends : last.kind = .endMark) (extra : List Token) (nextId : UseId) :
    ofTokens (body ++ last :: extra) nextId = ofTokens (body ++ [last]) nextId := by
  have all : ∀ t ∈ body, (!isEnd t) = true := by simpa [isEnd] using inside
  have none : body.find? isEnd = none := by simpa [isEnd] using inside
  have marked : isEnd last = true := by simp [isEnd, ends]
  simp [ofTokens, List.takeWhile_append_of_pos all, List.find?_append, none, marked]

theorem ofTokens_impliedEnd (inside : ∀ t ∈ tokens, t.kind ≠ .endMark) (nextId : UseId) :
    ofTokens (tokens ++ [impliedEnd tokens]) nextId = ofTokens tokens nextId := by
  have all : ∀ t ∈ tokens, (!isEnd t) = true := by simpa [isEnd] using inside
  have whole : tokens.takeWhile (!isEnd ·) = tokens := by
    rw [← List.append_nil tokens, List.takeWhile_append_of_pos all]
    rfl
  have none : tokens.find? isEnd = none := by simpa [isEnd] using inside
  rw [ofTokens_append inside rfl]
  simp [ofTokens, whole, none, List.headD_eq_head?_getD]

theorem ended_split (tokens : List Token) : ∃ body last extra, ended tokens = body ++ last :: extra ∧
    (∀ t ∈ body, t.kind ≠ .endMark) ∧ last.kind = .endMark ∧
    ∀ nextId, ofTokens tokens nextId = ofTokens (body ++ [last]) nextId := by
  cases found : tokens.find? isEnd with
  | none =>
    have inside : ∀ t ∈ tokens, t.kind ≠ .endMark := by simpa [isEnd] using found
    have unmarked : tokens.getLast?.any isEnd = false := by
      cases last : tokens.getLast? with
      | none => rfl
      | some t => simpa [isEnd] using inside t (List.mem_of_getLast? last)
    exact ⟨tokens, impliedEnd tokens, [], by simp [ended, unmarked], inside, rfl,
      fun nextId => (ofTokens_impliedEnd inside nextId).symm⟩
  | some last =>
    obtain ⟨marked, body, extra, rfl, before⟩ := List.find?_eq_some_iff_append.1 found
    have inside : ∀ t ∈ body, t.kind ≠ .endMark := by simpa [isEnd] using before
    have ends : last.kind = .endMark := by simpa [isEnd] using marked
    refine ⟨body, last, ?_⟩
    unfold ended
    split
    · exact ⟨extra, rfl, inside, ends, ofTokens_cut inside ends extra⟩
    · exact ⟨extra ++ [impliedEnd (body ++ last :: extra)], by simp, inside, ends, ofTokens_cut inside ends extra⟩

theorem firstEnd_eq {body extra : List Token} {last : Token} (split : ended tokens = body ++ last :: extra)
    (inside : ∀ t ∈ body, t.kind ≠ .endMark) (ends : last.kind = .endMark) : firstEnd tokens = body.length := by
  have none : ∀ t ∈ body, isEnd t = false := by simpa [isEnd] using inside
  simp [firstEnd, split, List.findIdx_append, List.findIdx_eq_length.2 none, List.findIdx_cons, isEnd, ends]

structure Cursor.Stands (tokens : List Token) (i : Nat) (c : Cursor) : Prop where
  bound : i ≤ firstEnd tokens
  rest : c.rest = ((ended tokens).take (firstEnd tokens)).drop i
  previous : (ended tokens)[i - 1]? = some c.previous
  endMark : (ended tokens)[firstEnd tokens]? = some c.endMark

theorem firstEnd_lt (tokens : List Token) : firstEnd tokens < (ended tokens).length := by
  obtain ⟨body, last, extra, split, inside, ends, -⟩ := ended_split tokens
  rw [firstEnd_eq split inside ends, split]
  simp

theorem stands_ofTokens (tokens : List Token) (nextId : UseId) : (ofTokens tokens nextId).Stands tokens 0 := by
  obtain ⟨body, last, extra, split, inside, ends, start⟩ := ended_split tokens
  rw [start, ofTokens_append inside ends]
  have stop := firstEnd_eq split inside ends
  refine ⟨Nat.zero_le _, ?_, ?_, ?_⟩
  · simp [stop, split]
  · rw [split]
    cases body <;> rfl
  · simp [stop, split]

namespace Cursor.Stands

variable {i : Nat} {c : Cursor}

theorem length (h : c.Stands tokens i) : i + c.rest.length = firstEnd tokens := by
  have := firstEnd_lt tokens
  have := h.bound
  rw [h.rest, List.length_drop, List.length_take]
  omega

theorem rest_cons (h : c.Stands tokens i) {t : Token} {rest : List Token} (more : c.rest = t :: rest) :
    (ended tokens)[i]? = some t ∧ rest = ((ended tokens).take (firstEnd tokens)).drop (i + 1) ∧
      i + 1 ≤ firstEnd tokens := by
  have long := h.length
  have total := firstEnd_lt tokens
  rw [more, List.length_cons] at long
  have here := h.rest.symm.trans more
  have inside : i < ((ended tokens).take (firstEnd tokens)).length := by
    rw [List.length_take]
    omega
  rw [List.drop_eq_getElem_cons inside] at here
  obtain ⟨rfl, rfl⟩ := List.cons.inj here
  exact ⟨by simp, rfl, by omega⟩

theorem current (h : c.Stands tokens i) : (ended tokens)[i]? = some c.current := by
  cases more : c.rest with
  | nil =>
    have long := h.length
    rw [more] at long
    rw [current_nil more, ← h.endMark, ← long]
    rfl
  | cons t rest => rw [current_cons more, (h.rest_cons more).1]

theorem behind (h : c.Stands tokens i) {t : Token} {rest : List Token} (more : c.rest = t :: rest) :
    ({ c with previous := t, rest } : Cursor).Stands tokens (i + 1) := by
  obtain ⟨here, later, bound⟩ := h.rest_cons more
  exact ⟨bound, later, here, h.endMark⟩

end Cursor.Stands

def Cursor.Among (tokens : List Token) (c : Cursor) : Prop :=
  ∃ i, c.Stands tokens i

namespace Cursor.Among

variable {c d : Cursor}

theorem of_eq (h : c.Among tokens) (rest : d.rest = c.rest) (previous : d.previous = c.previous)
    (endMark : d.endMark = c.endMark) : d.Among tokens := by
  obtain ⟨i, h⟩ := h
  exact ⟨i, h.bound, rest ▸ h.rest, previous ▸ h.previous, endMark ▸ h.endMark⟩

theorem advance (h : c.Among tokens) : c.advance.Among tokens := by
  cases more : c.rest with
  | nil => simpa [Cursor.advance, more] using h
  | cons t rest =>
    obtain ⟨i, h⟩ := h
    rw [advance_cons more]
    exact ⟨i + 1, h.behind more⟩

theorem report (h : c.Among tokens) (t : Token) (fault : Fault) : (c.report t fault).Among tokens :=
  h.of_eq rfl rfl rfl

theorem expect (h : c.Among tokens) (slot : Slot) : (c.expect slot).Among tokens := by
  unfold Cursor.expect
  split
  · exact h.advance
  · exact h.report _ _

theorem skip (depth : Nat) (previous : Token) (rest : List Token) (h : ({ c with previous, rest } : Cursor).Among tokens) :
    ({ c with
      previous := (Cursor.skip depth previous rest).1
      rest := (Cursor.skip depth previous rest).2 } : Cursor).Among tokens := by
  induction rest generalizing previous with
  | nil => exact h
  | cons t rest ih =>
    unfold Cursor.skip
    split
    · exact h
    · exact ih t h.advance

theorem conclude (h : c.Among tokens) (before : List Episode) : (c.conclude before).Among tokens := by
  unfold Cursor.conclude
  split
  · exact (skip (c := c) c.depth c.previous c.rest h).of_eq rfl rfl rfl
  · exact h.of_eq rfl rfl rfl

theorem trail (tokens : List Token) : Cursor.Trail fun c d => c.Among tokens → d.Among tokens :=
  .ofSteps (fun _ h => h) (fun first second h => second (first h)) (fun _ h => h.advance) (fun _ _ _ h => h.report _ _)
    (fun _ h => h.of_eq rfl rfl rfl) (fun _ _ h => h.of_eq rfl rfl rfl)
    (fun run h => (run (h.of_eq rfl rfl rfl)).conclude _)

theorem limit {count : Nat} {fault : Fault} (h : c.Among tokens) (run : Reader.limit count fault c = some ((), d)) :
    d.Among tokens := by
  unfold Reader.limit at run
  split at run
  · cases run
    exact h.report _ _
  · cases run
    exact h

end Cursor.Among

def Call.Regular : Call → Prop
  | .operation tiers => tiers <:+ Tier.all
  | .operationRest tier tighter _ => tier :: tighter <:+ Tier.all
  | _ => True

section Run

variable {n k : Nat} {call call' : Call} {c d : Cursor}

theorem Enters.among (enters : Enters n call c call' d) (regular : call.Regular) (h : c.Among tokens) :
    call'.Regular ∧ d.Among tokens := by
  have trail := Among.trail tokens
  have expressions := trail.expressions n
  have statements := trail.statements n
  cases enters with
  | target => exact ⟨List.suffix_rfl, h⟩
  | value first _ => exact ⟨trivial, (expressions.operation _ _ List.suffix_rfl _ _ first h).advance⟩
  | unary | primary | argument | statement | plain | first => exact ⟨trivial, h⟩
  | left => exact ⟨(List.suffix_cons _ _).trans regular, h⟩
  | operators first => exact ⟨regular, expressions.operation _ _ ((List.suffix_cons _ _).trans regular) _ _ first h⟩
  | right => exact ⟨(List.suffix_cons _ _).trans regular, h.advance⟩
  | moreOperators _ first =>
    exact ⟨regular, expressions.operation _ _ ((List.suffix_cons _ _).trans regular) _ _ first h.advance⟩
  | operand | arguments | place | group | function | printed | returned | ifStatement | whileStatement | forStatement
  | block => exact ⟨trivial, h.advance⟩
  | suffixes _ first => exact ⟨trivial, expressions.primary _ _ _ first h⟩
  | called _ first =>
    split at first
    · cases first
      exact ⟨trivial, h.advance.expect _⟩
    · exact ⟨trivial, (expressions.arguments _ _ _ _ first h.advance).expect _⟩
  | indexed _ first => exact ⟨trivial, (expressions.expression _ _ _ first h.advance).expect _⟩
  | moreArguments first _ limited => exact ⟨trivial, (expressions.expression _ _ _ first h).advance.limit limited⟩
  | moreParameters limited => exact ⟨trivial, ((h.limit limited).expect _).advance⟩
  | declaration | blockBody => exact ⟨trivial, h.of_eq rfl rfl rfl⟩
  | initialValue => exact ⟨trivial, (h.advance.expect _).advance⟩
  | parameters => exact ⟨trivial, (h.expect _).expect _⟩
  | functionBody opened first =>
    subst opened
    have opened := (h.expect .functionName).expect .parametersStart
    split at first
    · cases first
      exact ⟨trivial, (opened.expect _).expect _⟩
    · exact ⟨trivial, ((trail.parameters n 0 _ _ _ first opened).expect _).expect _⟩
  | ifCondition | whileCondition | forExpression => exact ⟨trivial, h.expect _⟩
  | ifYes first | whileBody first => exact ⟨trivial, (expressions.expression _ _ _ first (h.expect _)).expect _⟩
  | ifNo first second =>
    have tested := (expressions.expression _ _ _ first (h.expect _)).expect .ifEnd
    exact ⟨trivial, (statements.statement _ _ _ second tested).advance⟩
  | forVariable => exact ⟨trivial, ((h.expect _).advance.expect _).advance⟩
  | forCondition first => exact ⟨trivial, trail.forInitial n _ _ _ first (h.expect _)⟩
  | forIncrement first second =>
    have begun := trail.forInitial n _ _ _ first (h.expect _)
    exact ⟨trivial, (trail.expressionUnless n _ _ _ _ second begun).expect _⟩
  | forBody first second third =>
    have begun := trail.forInitial n _ _ _ first (h.expect _)
    have tested := (trail.expressionUnless n _ _ _ _ second begun).expect .forCondition
    exact ⟨trivial, (trail.expressionUnless n _ _ _ _ third tested).expect _⟩
  | next _ first => exact ⟨trivial, statements.declaration _ _ _ first h⟩

theorem Visits.among (visits : Visits n call c k call' d) (regular : call.Regular) (h : c.Among tokens) :
    call'.Regular ∧ d.Among tokens := by
  induction visits with
  | here => exact ⟨regular, h⟩
  | step enters _ ih =>
    obtain ⟨regular, h⟩ := enters.among regular h
    exact ih regular h

theorem Call.end_among (regular : call.Regular) (h : c.Among tokens) (run : call.end? n c = some d) :
    d.Among tokens := by
  have trail := Among.trail tokens
  have expressions := trail.expressions n
  have statements := trail.statements n
  cases call <;> obtain ⟨⟨result, d⟩, own, rfl⟩ := Option.map_eq_some_iff.1 run
  case expression => exact expressions.expression _ _ _ own h
  case operation => exact expressions.operation _ _ regular _ _ own h
  case operationRest => exact expressions.operationRest _ _ _ _ regular _ _ own h
  case unary => exact expressions.unary _ _ _ own h
  case suffixes => exact expressions.suffixes _ _ _ _ own h
  case arguments => exact expressions.arguments _ _ _ _ own h
  case primary => exact expressions.primary _ _ _ own h
  case parameters => exact trail.parameters _ _ _ _ _ own h
  case declaration => exact statements.declaration _ _ _ own h
  case anyDeclaration => exact statements.anyDeclaration _ _ _ own h
  case functionDeclaration => exact statements.functionDeclaration _ _ _ own h
  case statement => exact statements.statement _ _ _ own h
  case ifStatement => exact statements.ifStatement _ _ _ own h
  case whileStatement => exact statements.whileStatement _ _ _ own h
  case forStatement => exact statements.forStatement _ _ _ own h
  case block =>
    obtain ⟨e, inner, -, rfl⟩ := statements.block _ _ _ own
    have left : ({ e with depth := e.depth - 1 } : Cursor).Among tokens := (inner (h.of_eq rfl rfl rfl)).of_eq rfl rfl rfl
    exact left.expect .blockEnd
  case declarations => exact (statements.declarations _ _ _ _ own).1 h

theorem Passes.among (passes : Passes n call c d) (regular : call.Regular) (h : c.Among tokens) : d.Among tokens := by
  induction passes with
  | start visits => exact (visits.among regular h).2
  | finish visits run =>
    obtain ⟨regular, h⟩ := visits.among regular h
    exact Call.end_among regular h run
  | advance _ ih => exact ih.advance
  | expect _ slot ih => exact ih.expect slot

end Run

theorem declaration_reads {n : Nat} {c d : Cursor} {stmt? : Option Stmt} (left : c.rest ≠ [])
    (run : declaration n c = some (stmt?, d)) : d.rest.length < c.rest.length := by
  cases n with
  | zero => cases run
  | succ n =>
    rw [declaration_succ] at run
    obtain ⟨stmt, e, own, rest⟩ := andThen_eq_some.1 run
    cases rest
    have shorter := @anyDeclaration_reads n { c with history := [] } e stmt left own
    exact Nat.lt_of_le_of_lt (e.length_conclude_le _) shorter

/-- The declarations of a block end as deep as they begin, so that the block can be left. -/
theorem depth_declarations {n : Nat} {nested : Bool} {c d : Cursor} {body : List Stmt}
    (run : declarations n nested c = some (body, d)) : d.depth = c.depth :=
  ((Trail.depth.statements n).declarations nested c _ _ run).1

def cut (tokens : List Token) : List Token :=
  (ended tokens).take (firstEnd tokens + 1)

theorem read_cut (tokens : List Token) (nextId nextId' : UseId) :
    Program.unnumbered (read (cut tokens) nextId').program = Program.unnumbered (read tokens nextId).program ∧
      (read (cut tokens) nextId').faults = (read tokens nextId).faults := by
  obtain ⟨body, last, extra, split, inside, ends, start⟩ := ended_split tokens
  have cuts : cut tokens = body ++ [last] := by
    rw [cut, split, firstEnd_eq split inside ends, List.take_length_add_append]
    rfl
  have same : ofTokens tokens nextId' = ofTokens (cut tokens) nextId' := by rw [start, cuts]
  have rest : (ofTokens (cut tokens) nextId').rest = (ofTokens tokens nextId).rest.map id := by
    rw [← same, List.map_id]
    rfl
  have endMark : (ofTokens (cut tokens) nextId').endMark = id (ofTokens tokens nextId).endMark := by
    rw [← same]
    rfl
  obtain ⟨views, faults⟩ := read_mirror View.id rest endMark
  rw [show Located.map id = (id : Located Fault → _) from rfl, List.map_id] at faults
  exact ⟨by simpa [Program.unnumbered] using views, faults⟩

theorem firstEnd_ofList (tokens : List Token) : (Tokens.ofList tokens).firstEnd = firstEnd tokens := by
  simp [Tokens.firstEnd, Tokens.ofList, firstEnd]

theorem index_of_rest_nil {t : Tape (.ofList tokens)} (done : t.toCursor.rest = []) : t.index = firstEnd tokens := by
  have behind : firstEnd tokens ≤ t.index := by simpa [Tape.toCursor, firstEnd_ofList] using done
  exact Nat.le_antisymm (firstEnd_ofList tokens ▸ t.index_le) behind

/-- Reading a list of tokens ends, at the first end mark and outside of all blocks, whether places are kept as indices into
a vector or as what is left of the list. At every place that it passes, the list has a token to be read next and one read
last. A block is never left more often than it was entered, every declaration before the end reads a token, and the list up
to its first end mark reads the same. -/
theorem read_bounded (tokens : List Token) (nextId : UseId) :
    ∃ program c, declarations (budget tokens.length) false (ofTokens tokens nextId) = some (program, c) ∧
      read? tokens nextId = some ⟨program, c.history.reverse, c.nextId⟩ ∧
      (∃ t, declarations (budget tokens.length) false (Tape.start (.ofList tokens) nextId) = some (program, t) ∧
        t.toCursor = c ∧ t.index = firstEnd tokens) ∧
      c.Stands tokens (firstEnd tokens) ∧ c.depth = 0 ∧
      (∀ d, Passes (budget tokens.length) (.declarations false) (ofTokens tokens nextId) d →
        ∃ i ≤ firstEnd tokens, (ended tokens)[i]? = some d.current ∧ (ended tokens)[i - 1]? = some d.previous) ∧
      (∀ k d, Visits (budget tokens.length) (.declarations false) (ofTokens tokens nextId) (k + 1) .block d →
        ∃ body e, declarations k true { d with depth := d.depth + 1 } = some (body, e) ∧ e.depth = d.depth + 1) ∧
      (∀ k d, Visits (budget tokens.length) (.declarations false) (ofTokens tokens nextId) k .declaration d →
        d.rest ≠ [] → ∃ stmt? e i j, declaration k d = some (stmt?, e) ∧ d.Stands tokens i ∧ e.Stands tokens j ∧ i < j) ∧
      ∀ nextId', Program.unnumbered (read (cut tokens) nextId').program = Program.unnumbered (read tokens nextId).program ∧
        (read (cut tokens) nextId').faults = (read tokens nextId).faults := by
  obtain ⟨program, c, run, -, done, -⟩ := read_end tokens nextId
  have start : (ofTokens tokens nextId).Among tokens := ⟨0, stands_ofTokens tokens nextId⟩
  have whole : ∃ e, (Call.declarations false).end? (budget tokens.length) (ofTokens tokens nextId) = some e :=
    ⟨c, by rw [Call.end?, run]; rfl⟩
  have taped := (Refines.statements (.ofList tokens) (budget tokens.length)).declarations false (Tape.start _ nextId)
  rw [Refines, toCursor_start, run, Option.map_eq_some_iff] at taped
  obtain ⟨⟨_, t⟩, taped, same⟩ := taped
  cases same
  refine ⟨_, t.toCursor, run, by rw [read?_eq, run]; rfl, ⟨t, taped, rfl, index_of_rest_nil done⟩, ?_,
    depth_declarations run, fun d passes => ?_, fun k d visits => ?_, fun k d visits left => ?_,
    fun nextId' => read_cut tokens nextId nextId'⟩
  · obtain ⟨i, last⟩ := ((Among.trail tokens).statements _).declarations _ _ _ _ run |>.1 start
    have long := last.length
    rw [done] at long
    exact long ▸ last
  · obtain ⟨i, h⟩ := passes.among trivial start
    exact ⟨i, h.bound, h.current, h.previous⟩
  · obtain ⟨_, stops⟩ := (visits.trans (.step .blockBody (.here ..))).ends whole
    obtain ⟨⟨body, e⟩, inner, -⟩ := Option.map_eq_some_iff.1 stops
    exact ⟨body, e, inner, depth_declarations inner⟩
  · obtain ⟨_, stops⟩ := visits.ends whole
    obtain ⟨⟨stmt?, e⟩, own, -⟩ := Option.map_eq_some_iff.1 stops
    obtain ⟨-, i, before⟩ := visits.among trivial start
    obtain ⟨j, behind⟩ := ((Among.trail tokens).statements k).declaration _ _ _ own ⟨i, before⟩
    refine ⟨stmt?, e, i, j, own, before, behind, ?_⟩
    have shorter := declaration_reads left own
    have long := before.length
    have long' := behind.length
    omega

end Scriptlet.Grammar
