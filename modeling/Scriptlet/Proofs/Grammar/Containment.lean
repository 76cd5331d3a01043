import Scriptlet.Proofs.Grammar.Mirror
import Scriptlet.Proofs.Grammar.Exactness

namespace Scriptlet.Grammar

open Outcome Episode Cursor

namespace Episode

mutual

/-- A fault was found, reported or not, at which the brace around it is read. -/
def breaches : Episode → Bool
  | .fault error _ =>
    error.cause = .missing .bodyStart || (error.cause = .missingExpression && error.token.kind = .rightBrace)
  | .declaration history _ => breachesIn history

def breachesIn : List Episode → Bool
  | [] => false
  | episode :: rest => episode.breaches || breachesIn rest

end

theorem breachesIn_append (before later : List Episode) :
    breachesIn (before ++ later) = (breachesIn before || breachesIn later) := by
  induction before with
  | nil => rfl
  | cons episode before ih => simp [breachesIn, ih, Bool.or_assoc]

theorem breachesIn_reverse (history : List Episode) : breachesIn history.reverse = breachesIn history := by
  induction history with
  | nil => rfl
  | cons episode rest ih => simp [breachesIn, breachesIn_append, ih, Bool.or_comm]

end Episode

theorem Operand.unknown_ne_missing {t : Token} {fault : Fault} (h : Operand.ofToken t = .unknown fault) (slot : Slot) :
    fault ≠ .missing slot := by
  rintro rfl
  unfold Operand.ofToken at h
  split at h <;> try split at h
  all_goals cases h

namespace Cursor

def Breached (c : Cursor) : Prop :=
  breachesIn c.history = true

def Harmless (t : Token) (fault : Fault) : Prop :=
  fault ≠ .missing .bodyStart ∧ (fault = .missingExpression → t.kind ≠ .rightBrace)

theorem breached_report {c : Cursor} {t : Token} {fault : Fault} :
    (c.report t fault).Breached ↔ ¬Harmless t fault ∨ c.Breached := by
  simp only [Breached, Harmless, history_report, breachesIn, breaches]
  by_cases body : fault = .missing .bodyStart <;> by_cases operand : fault = .missingExpression <;> simp_all

theorem Breached.report {c : Cursor} (h : c.Breached) (t : Token) (fault : Fault) : (c.report t fault).Breached :=
  breached_report.2 (.inr h)

@[simp] theorem breached_advance {c : Cursor} : c.advance.Breached ↔ c.Breached := by
  simp [Breached]

theorem Breached.expect {c : Cursor} (h : c.Breached) (slot : Slot) : (c.expect slot).Breached := by
  unfold Cursor.expect
  split
  · exact breached_advance.2 h
  · exact h.report _ _

theorem breached_conclude {c d : Cursor} : (d.conclude c.history).Breached ↔ d.Breached ∨ c.Breached := by
  simp [Breached, breachesIn, breaches, breachesIn_reverse]

end Cursor

structure Cursor.Inside (closing : Token) (c : Cursor) : Prop where
  depth : 0 < c.depth
  rest : ∃ before, c.rest = before ++ [closing] ∧ ∀ t ∈ before, t.kind ≠ .leftBrace ∧ t.kind ≠ .rightBrace

namespace Cursor.Inside

variable {closing : Token} {c : Cursor}

theorem not_sees_leftBrace (closes : closing.kind = .rightBrace) (h : c.Inside closing) :
    c.sees .leftBrace = false := by
  obtain ⟨-, _ | ⟨t, before⟩, hrest, plain⟩ := h
  · simp [sees_cons hrest, closes]
  · simp [sees_cons hrest, (plain t List.mem_cons_self).1]

theorem rest_of_sees (h : c.Inside closing) (seen : c.sees .rightBrace = true) : c.rest = [closing] := by
  obtain ⟨-, _ | ⟨t, before⟩, hrest, plain⟩ := h
  · exact hrest
  · simp [sees_cons hrest, (plain t List.mem_cons_self).2] at seen

theorem skip {depth : Nat} (inner : 0 < depth) (closes : closing.kind = .rightBrace) (previous : Token)
    (before : List Token) : ∃ later, (skip depth previous (before ++ [closing])).2 = later ++ [closing] ∧
      later ⊆ before := by
  induction before generalizing previous with
  | nil => exact ⟨[], by simp [Cursor.skip, inner, closes], List.nil_subset _⟩
  | cons t before ih =>
    rw [List.cons_append, Cursor.skip]
    split
    · exact ⟨t :: before, rfl, List.Subset.refl _⟩
    · obtain ⟨later, hl, sub⟩ := ih t
      exact ⟨later, hl, fun _ ht => List.mem_cons_of_mem _ (sub ht)⟩

theorem conclude (closes : closing.kind = .rightBrace) (h : c.Inside closing) (history : List Episode) :
    (c.conclude history).Inside closing := by
  cases recovering : c.recovering with
  | false =>
    rw [conclude_of_not_recovering recovering]
    exact ⟨h.depth, h.rest⟩
  | true =>
    rw [conclude_of_recovering recovering]
    obtain ⟨before, hrest, plain⟩ := h.rest
    obtain ⟨later, hl, sub⟩ := skip h.depth closes c.previous before
    exact ⟨h.depth, later, by rw [← hl, ← hrest]; rfl, fun t ht => plain t (sub ht)⟩

end Cursor.Inside

section LeaveBlock

variable {c : Cursor}

theorem Cursor.depth_leaveBlock : c.leaveBlock.depth = c.depth - 1 := by
  simp [leaveBlock]

theorem Cursor.leaveBlock_of_sees (seen : c.sees .rightBrace = true) :
    c.leaveBlock = ({ c with depth := c.depth - 1 } : Cursor).advance :=
  expect_of_sees seen

theorem Cursor.leaveBlock_of_nil (done : c.rest = []) :
    c.leaveBlock = ({ c with depth := c.depth - 1 } : Cursor).report c.endMark (.missing .blockEnd) := by
  have ended : ({ c with depth := c.depth - 1 } : Cursor).rest = [] := done
  rw [leaveBlock, expect_of_not_sees (sees_nil ended _), current_nil ended]

theorem Cursor.rest_leaveBlock (done : c.rest = []) : c.leaveBlock.rest = [] := by
  rw [leaveBlock_of_nil done, rest_report, done]

theorem Cursor.Inside.rest_leaveBlock {closing : Token} (h : c.Inside closing) (seen : c.sees .rightBrace = true) :
    c.leaveBlock.rest = [] := by
  rw [leaveBlock_of_sees seen, rest_advance, h.rest_of_sees seen, List.tail_cons]

theorem Cursor.Breached.leaveBlock (h : c.Breached) : c.leaveBlock.Breached := by
  have h : ({ c with depth := c.depth - 1 } : Cursor).Breached := h
  exact h.expect _

end LeaveBlock

/-- A run inside a block stays there as long as it finds no breach, and is at the end of all tokens if it does. -/
structure Cursor.Guards (closing : Token) (c d : Cursor) : Prop where
  depth : d.depth = c.depth
  ended : c.rest = [] → d.rest = []
  breached : c.Breached → d.Breached
  inside : c.Inside closing →
    d.Inside closing ∧ (d.Breached → c.Breached) ∨ d.rest = [] ∧ d.Breached

namespace Cursor.Guards

variable {closing : Token} {c d e : Cursor}

theorem refl (c : Cursor) : Guards closing c c :=
  ⟨rfl, id, id, fun inside => .inl ⟨inside, id⟩⟩

theorem trans (h : Guards closing c d) (k : Guards closing d e) : Guards closing c e where
  depth := k.depth.trans h.depth
  ended := fun done => k.ended (h.ended done)
  breached := fun breached => k.breached (h.breached breached)
  inside := fun inside => by
    obtain ⟨inside, back⟩ | ⟨done, breached⟩ := h.inside inside
    · obtain ⟨inside, back'⟩ | away := k.inside inside
      · exact .inl ⟨inside, fun breached => back (back' breached)⟩
      · exact .inr away
    · exact .inr ⟨k.ended done, k.breached breached⟩

theorem of_calm (depth : d.depth = c.depth) (ended : c.rest = [] → d.rest = [])
    (breached : d.Breached ↔ c.Breached) (inside : c.Inside closing → d.Inside closing) :
    Guards closing c d :=
  ⟨depth, ended, breached.2, fun h => .inl ⟨inside h, breached.1⟩⟩

theorem report (c : Cursor) {t : Token} {fault : Fault} (harmless : Harmless t fault) :
    Guards closing c (c.report t fault) :=
  of_calm rfl id (by simp [breached_report, harmless]) fun h => ⟨h.depth, h.rest⟩

theorem accept (closes : closing.kind = .rightBrace) {kind : Token.Kind} (seen : c.sees kind = true)
    (right : kind ≠ .rightBrace) : Guards closing c c.advance := by
  refine of_calm (by simp) (fun done => by simp [done]) (by simp) fun ⟨depth, before, hrest, plain⟩ => ?_
  obtain ⟨t, rest, hr, rfl⟩ := sees_iff.1 seen
  rw [advance_cons hr]
  rw [hr] at hrest
  cases before with
  | nil =>
    cases hrest
    exact absurd closes right
  | cons _ before =>
    cases hrest
    exact ⟨depth, before, rfl, fun t ht => plain t (List.mem_cons_of_mem _ ht)⟩

theorem expect (closes : closing.kind = .rightBrace) (c : Cursor) (slot : Slot) (body : slot ≠ .bodyStart)
    (block : slot ≠ .blockEnd) : Guards closing c (c.expect slot) := by
  cases seen : c.sees slot.kind with
  | true =>
    rw [expect_of_sees seen]
    exact accept closes seen (by cases slot <;> simp_all [Slot.kind])
  | false =>
    rw [expect_of_not_sees seen]
    exact report c ⟨by simp [body], by simp⟩

theorem unknown (closes : closing.kind = .rightBrace) {t : Token} {rest : List Token} {fault : Fault}
    (hr : c.rest = t :: rest) (hf : Operand.ofToken t = .unknown fault) :
    Guards closing c (c.advance.report t fault) := by
  refine ⟨by simp, fun done => by simp [done], fun h => ?_, fun ⟨depth, before, hrest, plain⟩ => ?_⟩
  · exact (breached_advance.2 h).report _ _
  rw [hr] at hrest
  rw [advance_cons hr, breached_report]
  cases before with
  | nil =>
    cases hrest
    have brace : Operand.ofToken closing = .unknown .missingExpression := by simp [Operand.ofToken, closes]
    cases brace.symm.trans hf
    exact .inr ⟨rfl, .inl fun harmless => harmless.2 rfl closes⟩
  | cons _ before =>
    cases hrest
    refine .inl ⟨⟨depth, before, rfl, fun t ht => plain t (List.mem_cons_of_mem _ ht)⟩, fun h => h.resolve_left ?_⟩
    exact not_not_intro ⟨Operand.unknown_ne_missing hf _, fun _ => (plain t List.mem_cons_self).2⟩

theorem conclude (closes : closing.kind = .rightBrace) (h : Guards closing { c with history := [] } d) :
    Guards closing c (d.conclude c.history) := by
  have ended (done : d.rest = []) : (d.conclude c.history).rest = [] := by
    have := d.rest_conclude_suffix c.history
    rwa [done, List.suffix_nil] at this
  refine ⟨?_, fun done => ended (h.ended done), fun b => breached_conclude.2 (.inr b), fun inside => ?_⟩
  · exact (depth_conclude d _).trans h.depth
  · obtain ⟨inside, back⟩ | ⟨done, breached⟩ := h.inside ⟨inside.depth, inside.rest⟩
    · refine .inl ⟨inside.conclude closes _, fun b => (breached_conclude.1 b).resolve_left fun b => ?_⟩
      cases back b
    · exact .inr ⟨ended done, breached_conclude.2 (.inl breached)⟩

theorem enclose (closes : closing.kind = .rightBrace) (seen : c.sees .leftBrace = true)
    (h : Guards closing { c.advance with depth := c.advance.depth + 1 } d) : Guards closing c d.leaveBlock where
  depth := by simp [depth_leaveBlock, h.depth]
  ended := fun done => by simp [sees_nil done] at seen
  breached := fun b => (h.breached (breached_advance.2 b)).leaveBlock
  inside := fun inside => by simp [inside.not_sees_leftBrace closes] at seen

theorem body (closes : closing.kind = .rightBrace)
    (h : Guards closing { c.expect .bodyStart with depth := (c.expect .bodyStart).depth + 1 } d)
    (done : d.rest = [] ∨ d.sees .rightBrace = true) : Guards closing c d.leaveBlock := by
  have found (b : (c.expect .bodyStart).Breached) : d.leaveBlock.Breached := (h.breached b).leaveBlock
  refine ⟨by simp [depth_leaveBlock, h.depth], fun done => ?_, fun b => found (b.expect _), fun inside => .inr ?_⟩
  · refine rest_leaveBlock (h.ended ?_)
    simp [expect_of_not_sees (sees_nil done _), done]
  · have unseen : c.sees Slot.bodyStart.kind = false := inside.not_sees_leftBrace closes
    have missing := expect_of_not_sees unseen
    refine ⟨?_, found (by rw [missing]; exact breached_report.2 (.inl fun harmless => harmless.1 rfl))⟩
    obtain ⟨inside, -⟩ | ⟨done, -⟩ := h.inside (by rw [missing]; exact ⟨Nat.succ_pos _, inside.rest⟩)
    · obtain done | seen := done
      · exact rest_leaveBlock done
      · exact inside.rest_leaveBlock seen
    · exact rest_leaveBlock done

theorem trail (closes : closing.kind = .rightBrace) : Cursor.Trail (Guards closing) where
  refl := refl
  trans := trans
  accept := fun seen _ right => accept closes seen right
  fresh := fun c => of_calm rfl id Iff.rfl fun h => ⟨h.depth, h.rest⟩
  expect := expect closes
  exceed := fun c fault plain => report c ⟨by (rintro rfl; cases plain), by (rintro rfl; cases plain)⟩
  refuse := fun seen h => trans (accept closes seen (by decide)) (trans h (report _ ⟨by simp, by simp⟩))
  lack := fun done =>
    ⟨rfl, id, fun b => b.report _ _, fun ⟨_, before, hrest, _⟩ => by simp [done] at hrest⟩
  unknown := unknown closes
  enclose := fun seen h _ => enclose closes seen h
  body := body closes
  conclude := conclude closes

end Cursor.Guards

def Cursor.Blames (c d : Cursor) : Prop :=
  d.rest <:+ c.rest ∧ ∃ new, d.history = new ++ c.history ∧
    ∀ error ∈ faultsIn new, error.token ∈ c.rest ∨ d.rest = []

theorem Episode.mem_faultsIn_reverse {error : Located Fault} {history : List Episode} :
    error ∈ faultsIn history.reverse ↔ error ∈ faultsIn history := by
  induction history with
  | nil => rfl
  | cons episode rest ih => simp [faultsIn, faultsIn_append, ih, or_comm]

namespace Cursor.Blames

variable {c d e : Cursor}

theorem of_eq (history : d.history = c.history) (rest : d.rest <:+ c.rest) : Blames c d :=
  ⟨rest, [], by simp [history], by simp [faultsIn]⟩

theorem trans (h : Blames c d) (k : Blames d e) : Blames c e := by
  obtain ⟨rest, new, hh, found⟩ := h
  obtain ⟨rest', new', hh', found'⟩ := k
  refine ⟨rest'.trans rest, new' ++ new, by simp [hh', hh], fun error he => ?_⟩
  rw [faultsIn_append, List.mem_append] at he
  obtain he | he := he
  · exact (found' error he).imp_left (rest.subset ·)
  · obtain at_ | done := found error he
    · exact .inl at_
    · exact .inr (List.suffix_nil.1 (done ▸ rest'))

theorem report {t : Token} (h : Blames c d) (ht : t ∈ c.rest ∨ d.rest = []) (fault : Fault) :
    Blames c (d.report t fault) := by
  obtain ⟨rest, new, hh, found⟩ := h
  refine ⟨rest, .fault ⟨t, fault⟩ d.recovering :: new, by simp [hh], fun error he => ?_⟩
  rw [faultsIn, faults, List.mem_append] at he
  obtain he | he := he
  · split at he
    · cases he
    · cases List.mem_singleton.1 he
      exact ht
  · exact found error he

theorem reportHere (c : Cursor) (fault : Fault) : Blames c (c.report c.current fault) := by
  refine report (of_eq rfl List.suffix_rfl) ?_ fault
  cases hr : c.rest with
  | nil => exact .inr rfl
  | cons t rest => exact .inl (by simp [current, hr])

theorem advance (c : Cursor) : Blames c c.advance :=
  of_eq c.history_advance c.rest_advance_suffix

theorem expect (c : Cursor) (slot : Slot) : Blames c (c.expect slot) := by
  unfold Cursor.expect
  split
  · exact advance c
  · exact reportHere c _

theorem conclude (h : Blames { c with history := [] } d) : Blames c (d.conclude c.history) := by
  obtain ⟨rest, new, hh, found⟩ := h
  have shorter := d.rest_conclude_suffix c.history
  refine ⟨shorter.trans rest, [.declaration d.history.reverse (!d.recovering)], rfl, fun error he => ?_⟩
  rw [List.append_nil] at hh
  rw [faultsIn, faultsIn, List.append_nil, faults, mem_faultsIn_reverse, hh] at he
  refine (found error he).imp_right fun done => List.suffix_nil.1 ?_
  rwa [done] at shorter

theorem leave (d : Cursor) : Blames d d.leaveBlock :=
  (of_eq rfl List.suffix_rfl : Blames d { d with depth := d.depth - 1 }).trans (expect _ _)

theorem enter (c : Cursor) : Blames c { c with depth := c.depth + 1 } :=
  of_eq rfl List.suffix_rfl

theorem trail : Cursor.Trail Blames where
  refl := fun c => of_eq rfl List.suffix_rfl
  trans := trans
  accept := fun _ _ _ => advance _
  fresh := fun _ => of_eq rfl List.suffix_rfl
  expect := fun c slot _ _ => expect c slot
  exceed := fun c _ _ => reportHere c _
  refuse := fun {c d} seen h => by
    obtain ⟨t, rest, hr, -⟩ := sees_iff.1 seen
    exact ((advance c).trans h).report (.inl (by simp [advance_cons hr, hr])) _
  lack := fun {c} _ => reportHere c _
  unknown := fun {c} _ _ _ hr _ => (advance c).report (.inl (by simp [hr])) _
  enclose := fun _ h _ => (advance _).trans ((enter _).trans (h.trans (leave _)))
  body := fun h _ => (expect _ _).trans ((enter _).trans (h.trans (leave _)))
  conclude := conclude

end Cursor.Blames

section Block

variable {c : Cursor} (n : Nat)

theorem anyDeclaration_block (opens : c.sees .leftBrace = true) :
    anyDeclaration (n + 3) c =
      andThen (declarations n true { c.advance with depth := c.advance.depth + 1 }) fun body d =>
        some (.block body, d.leaveBlock) := by
  have other {kind : Token.Kind} (h : kind ≠ .leftBrace) : ¬c.sees kind = true := by
    obtain ⟨t, rest, hr, hk⟩ := sees_iff.1 opens
    simp [sees_cons hr, hk, h.symm]
  rw [anyDeclaration_succ, if_neg (other (by decide)), if_neg (other (by decide)), statement_succ,
    if_neg (other (by decide)), if_neg (other (by decide)), if_neg (other (by decide)), if_neg (other (by decide)),
    if_neg (other (by decide)), if_pos opens, block_succ, andThen_assoc]
  rfl

theorem declarations_block (opens : c.sees .leftBrace = true) (begun : c.history = []) :
    declarations (n + 5) false c =
      andThen (declarations n true { c.advance with depth := c.advance.depth + 1 }) fun body d =>
        andThen (declarations (n + 4) false (d.leaveBlock.conclude [])) fun tail e =>
          some ((if d.leaveBlock.recovering then [] else [.block body]) ++ tail, e) := by
  have goes : ¬(c.atEnd || false && c.sees .rightBrace) = true := by
    obtain ⟨t, rest, hr, -⟩ := sees_iff.1 opens
    simp [hr]
  have reset : { c with history := [] } = c := by rw [← begun]
  rw [declarations_succ, if_neg goes, declaration_succ, reset, anyDeclaration_block n opens, andThen_assoc,
    andThen_assoc, begun]
  congr
  funext body d
  simp only [some_andThen]
  cases d.leaveBlock.recovering <;> rfl

theorem recovering_declarations {nested : Bool} (calm : c.recovering = false) :
    Ensures (declarations n nested c) fun _ d => d.recovering = false := by
  induction n generalizing c with
  | zero => exact .none
  | succ n ih =>
    rw [declarations_succ]
    split
    · exact .some calm
    · have ended : Ensures (declaration n c) fun _ d => d.recovering = false := by
        cases n with
        | zero => exact .none
        | succ n =>
          rw [declaration_succ]
          intro stmt? d run
          obtain ⟨_, e, -, ⟨⟩⟩ := andThen_eq_some.1 run
          exact recovering_conclude e _
      exact ended.andThen fun stmt? d calm => (ih calm).andThen fun tail e calm => .some calm

end Block

/-- What is behind a block is read as if it stood alone, and what is reported about the block is reported at its tokens. -/
def Contained (opening closing last : Token) (body rest : List Token) (nextId : UseId) : Prop :=
  let whole := read (opening :: body ++ closing :: rest ++ [last]) nextId
  let alone := read (rest ++ [last]) nextId
  ∃ stmts tail inside, whole.program = .block stmts :: tail ∧
    Program.unnumbered tail = Program.unnumbered alone.program ∧
    whole.faults = inside ++ alone.faults ∧ ∀ error ∈ inside, error.token ∈ body ∨ error.token = closing

section Contained

variable {opening closing last : Token} {body : List Token} (opens : opening.kind = .leftBrace)
  (closes : closing.kind = .rightBrace) (ends : last.kind = .endMark)
  (plain : ∀ t ∈ body, t.kind ≠ .leftBrace ∧ t.kind ≠ .rightBrace ∧ t.kind ≠ .endMark) (nextId : UseId)

def blockStart (opening closing last : Token) (body rest : List Token) (nextId : UseId) : Cursor :=
  { previous := opening, rest := body ++ closing :: rest, endMark := last, depth := 1, recovering := false, nextId,
    history := [] }

include opens closes ends plain

theorem read_block {rest : List Token} (inside : ∀ t ∈ rest, t.kind ≠ .endMark) :
    ∃ n stmts d tail e, n + 5 = budget (body.length + rest.length + 3) ∧
      declarations n true (blockStart opening closing last body rest nextId) = some (stmts, d) ∧
      declarations (n + 4) false (d.leaveBlock.conclude []) = some (tail, e) ∧
      read (opening :: body ++ closing :: rest ++ [last]) nextId =
        ⟨(if d.leaveBlock.recovering then [] else [.block stmts]) ++ tail, e.history.reverse, e.nextId⟩ := by
  obtain ⟨program, e, run, hread⟩ := read_run (opening :: body ++ closing :: rest ++ [last]) nextId
  have none : ∀ t ∈ opening :: body ++ closing :: rest, t.kind ≠ .endMark := by
    intro t ht
    simp only [List.cons_append, List.mem_cons, List.mem_append] at ht
    obtain rfl | ht | rfl | ht := ht
    · simp [opens]
    · exact (plain t ht).2.2
    · simp [closes]
    · exact inside t ht
  obtain ⟨n, hn⟩ : ∃ n, n + 5 = budget (body.length + rest.length + 3) :=
    ⟨budget (body.length + rest.length + 3) - 5, by unfold budget; omega⟩
  have size : (opening :: body ++ closing :: rest ++ [last]).length = body.length + rest.length + 3 := by
    simp
    omega
  rw [size, ← hn, ofTokens_append none ends, declarations_block n (by simp [sees, opens]) rfl] at run
  obtain ⟨stmts, d, inner, run⟩ := andThen_eq_some.1 run
  obtain ⟨tail, e', outer, run⟩ := andThen_eq_some.1 run
  cases run
  exact ⟨n, stmts, d, tail, e, hn, inner, outer, hread⟩

omit opens ends in
/-- Inside the block, with nothing behind it, the reader either stops at the brace or finds a breach. -/
theorem block_stops {n : Nat} {stmts : List Stmt} {d : Cursor}
    (run : declarations n true (blockStart opening closing last body [] nextId) = some (stmts, d)) :
    d.rest = [closing] ∧ ¬d.Breached ∨ d.rest = [] ∧ d.Breached := by
  have start : (blockStart opening closing last body [] nextId).Inside closing :=
    ⟨Nat.one_pos, body, rfl, fun t ht => ⟨(plain t ht).1, (plain t ht).2.1⟩⟩
  obtain ⟨guards, done⟩ := ((Guards.trail closes).statements n).declarations _ _ _ _ run
  obtain ⟨inside, back⟩ | ended := guards.inside start
  · have stops : d.rest = [closing] := by
      obtain done | ⟨-, seen⟩ := done
      · obtain ⟨-, before, hrest, -⟩ := inside
        simp [done] at hrest
      · exact inside.rest_of_sees seen
    refine .inl ⟨stops, fun breached => ?_⟩
    cases back breached
  · exact .inr ended

theorem contained_of_stops {n : Nat} {stmts : List Stmt} {d : Cursor} (short : n + 5 = budget (body.length + 3))
    (run : declarations n true (blockStart opening closing last body [] nextId) = some (stmts, d))
    (stops : d.rest = [closing]) {rest : List Token} (inside : ∀ t ∈ rest, t.kind ≠ .endMark) :
    Contained opening closing last body rest nextId := by
  obtain ⟨m, stmts', d', tail, e, hm, inner, outer, hread⟩ := read_block opens closes ends plain nextId inside
  have depth : d.depth = 1 := (((Guards.trail closes).statements n).declarations _ _ _ _ run).1.depth
  have endMark : d.endMark = last := ((Trail.endMark.statements n).declarations _ _ _ _ run).1
  -- The reading inside the block is the same whatever follows.
  have start : Mirror id rest [] [] (blockStart opening closing last body [] nextId)
      (blockStart opening closing last body rest nextId) :=
    ⟨by simp [blockStart], rfl, rfl, rfl, rfl, [], rfl, rfl⟩
  have le : n ≤ m := by simp only [budget] at short hm; omega
  obtain ⟨-, mirrors⟩ := (Tracks.statements View.id le).declarations true _ _ _ run
  obtain ⟨_, _, inner', -, hd⟩ := mirrors [] [] _ start (by simp [Alive, stops])
  cases inner.symm.trans inner'
  have calm : d'.recovering = false := recovering_declarations m rfl _ _ inner
  have hrest : d'.rest = closing :: rest := by simpa [stops] using hd.rest
  have history : d'.history = d.history := by
    obtain ⟨new, hh, hh'⟩ := hd.history
    simp [hh, hh']
  have last' : d'.endMark = last := Eq.trans hd.endMark endMark
  -- Behind the block the reader stands as at the start of what follows, save for what it has read.
  have behind : d'.leaveBlock.conclude [] =
      { previous := closing, rest, endMark := last, depth := 0, recovering := false, nextId := d'.nextId,
        history := [.declaration d.history.reverse true] } := by
    have seen : d'.sees .rightBrace = true := by simp [sees_cons hrest, closes]
    have left : d'.leaveBlock =
        { previous := closing, rest, endMark := last, depth := 0, recovering := false, nextId := d'.nextId,
          history := d.history } := by
      rw [leaveBlock_of_sees seen]
      simp only [Cursor.advance, hrest, hd.depth, depth, last', calm, history]
    rw [left, conclude_of_not_recovering rfl]
  obtain ⟨program, c, run', alone⟩ := read_run (rest ++ [last]) nextId
  rw [ofTokens_append inside ends] at run'
  have le : budget (rest ++ [last]).length ≤ m + 4 := by
    simp only [budget, List.length_append, List.length_singleton] at hm ⊢
    omega
  have follows : Mirror id [] [] (d'.leaveBlock.conclude []).history
      { previous := rest.headD last, rest, endMark := last, depth := 0, recovering := false, nextId, history := [] }
      { d'.leaveBlock.conclude [] with previous := rest.headD last } := by
    rw [behind]
    exact ⟨by simp, rfl, rfl, rfl, rfl, [], rfl, rfl⟩
  obtain ⟨_, _, outer', same, new, hc, he⟩ := declarations_mirror View.id le run' follows
  cases outer.symm.trans outer'
  rw [behind, Episode.map_id_eq_id, List.map_id] at he
  have kept : d'.leaveBlock.recovering = false := by
    rw [leaveBlock_of_sees (by simp [sees_cons hrest, closes]), recovering_advance]
    exact calm
  simp only [Contained, Reading.faults, hread, alone, he, hc]
  refine ⟨stmts', tail, faultsIn d.history.reverse, by simp [kept], same, ?_, fun error he => ?_⟩
  · simp [faultsIn, faults]
  · obtain ⟨⟨-, new, hh, found⟩, -⟩ := (Blames.trail.statements n).declarations _ _ _ _ run
    rw [mem_faultsIn_reverse, hh, faultsIn_append, List.mem_append] at he
    obtain he | ⟨⟨⟩⟩ := he
    obtain at_ | ended := found error he
    · simpa [blockStart] using at_
    · simp [stops] at ended

omit opens closes ends plain in
theorem declarations_nil {n : Nat} {c : Cursor} (done : c.rest = []) {program : Program} {d : Cursor}
    (run : declarations n false c = some (program, d)) : program = [] ∧ d = c := by
  cases n with
  | zero => cases run
  | succ n =>
    rw [declarations_succ, if_pos (by simp [done])] at run
    cases run
    exact ⟨rfl, rfl⟩

/-- A block without braces inside keeps to itself exactly if, with nothing behind it, no operand is missing at its closing
brace and no function in it lacks an opening one. -/
theorem contained_iff :
    breachesIn (read (opening :: body ++ [closing, last]) nextId).history = false ↔
      ∀ rest, (∀ t ∈ rest, t.kind ≠ .endMark) → Contained opening closing last body rest nextId := by
  have none : ∀ t ∈ ([] : List Token), t.kind ≠ .endMark := by simp
  obtain ⟨n, stmts, d, tail, e, hn, inner, outer, hread⟩ := read_block opens closes ends plain nextId none
  have stopped := block_stops closes plain nextId inner
  have ended : (d.leaveBlock.conclude []).rest = [] := by
    have left : d.leaveBlock.rest = [] := by
      obtain ⟨stops, -⟩ | ⟨ended, -⟩ := stopped
      · rw [leaveBlock_of_sees (by simp [sees_cons stops, closes]), rest_advance]
        simp [stops]
      · exact rest_leaveBlock ended
    exact List.suffix_nil.1 (left ▸ d.leaveBlock.rest_conclude_suffix [])
  obtain ⟨rfl, rfl⟩ := declarations_nil ended outer
  have list : opening :: body ++ [closing, last] = opening :: body ++ [closing] ++ [last] := by simp
  have found : breachesIn (read (opening :: body ++ [closing, last]) nextId).history =
      breachesIn d.leaveBlock.history := by
    rw [list, hread, breachesIn_reverse, history_conclude]
    simp [breachesIn, breaches, breachesIn_reverse]
  rw [found]
  obtain ⟨stops, sealed⟩ | ⟨done, breached⟩ := stopped
  · refine iff_of_true ?_ fun rest inside => contained_of_stops opens closes ends plain nextId hn inner stops inside
    rw [leaveBlock_of_sees (by simp [sees_cons stops, closes]), history_advance]
    exact Bool.eq_false_iff.2 sealed
  · refine iff_of_false (fun none => ?_) fun contained => ?_
    · exact absurd (none.symm.trans breached.leaveBlock) (by decide)
    · obtain ⟨stmts', tail', inside, program, -⟩ := contained [] none
      rw [hread, leaveBlock_of_nil done] at program
      simp [Fault.needsRecovery] at program

end Contained

/-- The block of `{ print nil } print nil;`, where a semicolon is missing before the brace. -/
theorem contained_missing_semicolon :
    Contained ⟨.leftBrace, "\x7b", none, ⟨0, 1, 1⟩⟩ ⟨.rightBrace, "\x7d", none, ⟨12, 1, 13⟩⟩
      ⟨.endMark, "", none, ⟨24, 1, 25⟩⟩
      [⟨.printWord, "print", none, ⟨2, 1, 3⟩⟩, ⟨.nilWord, "nil", none, ⟨8, 1, 9⟩⟩]
      [⟨.printWord, "print", none, ⟨14, 1, 15⟩⟩, ⟨.nilWord, "nil", none, ⟨20, 1, 21⟩⟩,
        ⟨.semicolon, ";", none, ⟨23, 1, 24⟩⟩] 0 := by
  refine (contained_iff rfl rfl rfl (by decide) 0).1 ?_ _ (by decide)
  rw [read, read?_eq]
  rfl

/-- The block of `{ print } print nil;` swallows all that follows. -/
theorem not_contained_missing_operand :
    ¬∀ (opening closing last : Token) (body rest : List Token) (nextId : UseId), opening.kind = .leftBrace →
      closing.kind = .rightBrace → last.kind = .endMark →
      (∀ t ∈ body, t.kind ≠ .leftBrace ∧ t.kind ≠ .rightBrace ∧ t.kind ≠ .endMark) →
      (∀ t ∈ rest, t.kind ≠ .endMark) → Contained opening closing last body rest nextId := by
  intro claim
  obtain ⟨stmts, tail, inside, program, -⟩ :=
    claim ⟨.leftBrace, "\x7b", none, ⟨0, 1, 1⟩⟩ ⟨.rightBrace, "\x7d", none, ⟨8, 1, 9⟩⟩ ⟨.endMark, "", none, ⟨20, 1, 21⟩⟩
      [⟨.printWord, "print", none, ⟨2, 1, 3⟩⟩]
      [⟨.printWord, "print", none, ⟨10, 1, 11⟩⟩, ⟨.nilWord, "nil", none, ⟨16, 1, 17⟩⟩,
        ⟨.semicolon, ";", none, ⟨19, 1, 20⟩⟩] 0 rfl rfl rfl (by decide) (by decide)
  rw [read, read?_eq] at program
  cases program

end Scriptlet.Grammar
