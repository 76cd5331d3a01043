import Scriptlet.Proofs.Grammar.Budget
import Scriptlet.Proofs.Grammar.Mirror

namespace Scriptlet.Grammar

open Outcome

namespace Tokens

variable (tokens : Tokens)

def firstEnd : Nat :=
  tokens.vector.findIdx isEnd

theorem firstEnd_lt : tokens.firstEnd < tokens.vector.size := by
  obtain ⟨last, found, ends⟩ := (Option.any_eq_true ..).1 tokens.closed
  exact Array.findIdx_lt_size_of_exists ⟨last, Array.mem_of_back? found, ends⟩

def endMark : Token :=
  have := tokens.firstEnd_lt
  tokens.vector[tokens.firstEnd]

theorem isEnd_endMark : isEnd tokens.endMark = true :=
  Array.findIdx_getElem

def body : List Token :=
  tokens.vector.toList.take tokens.firstEnd

@[simp] theorem length_body : tokens.body.length = tokens.firstEnd := by
  have := tokens.firstEnd_lt
  simp [body]
  omega

end Tokens

namespace Tape

variable {tokens : Tokens}

theorem index_le (t : Tape tokens) : t.index ≤ tokens.firstEnd := by
  refine Nat.le_of_not_lt fun behind => ?_
  have inside := tokens.firstEnd_lt
  have passed := t.passed _ behind
  rw [Array.getElem?_eq_getElem inside] at passed
  cases tokens.isEnd_endMark.symm.trans passed

theorem atEnd_iff (t : Tape tokens) : t.atEnd = true ↔ t.index = tokens.firstEnd := by
  refine ⟨fun done => ?_, fun here => ?_⟩
  · refine Nat.le_antisymm t.index_le (Nat.le_of_not_lt fun before => ?_)
    cases done.symm.trans (Array.not_of_lt_findIdx before)
  · unfold atEnd current
    simp only [here]
    exact tokens.isEnd_endMark

def toCursor (t : Tape tokens) : Cursor where
  previous := t.previous
  rest := tokens.body.drop t.index
  endMark := tokens.endMark
  depth := t.depth
  recovering := t.recovering
  nextId := t.nextId
  history := t.history

theorem rest_done {t : Tape tokens} (done : t.atEnd = true) : t.toCursor.rest = [] := by
  simp [toCursor, t.atEnd_iff.1 done]

theorem rest_more {t : Tape tokens} (more : t.atEnd = false) :
    t.toCursor.rest = t.current :: tokens.body.drop (t.index + 1) := by
  have := t.index_le
  have : t.index ≠ tokens.firstEnd := fun here => by simp [t.atEnd_iff.2 here] at more
  have inside : t.index < tokens.body.length := by
    rw [Tokens.length_body]
    omega
  rw [toCursor, List.drop_eq_getElem_cons inside]
  simp [Tokens.body, current]

@[simp] theorem atEnd_toCursor (t : Tape tokens) : t.toCursor.atEnd = t.atEnd := by
  cases more : t.atEnd with
  | true => simp [rest_done more]
  | false => simp [Cursor.atEnd, rest_more more]

@[simp] theorem current_toCursor (t : Tape tokens) : t.toCursor.current = t.current := by
  cases more : t.atEnd with
  | true =>
    rw [Cursor.current_nil (rest_done more), current]
    simp only [t.atEnd_iff.1 more]
    rfl
  | false => exact Cursor.current_cons (rest_more more)

theorem sees_toCursor (t : Tape tokens) {kind : Token.Kind} (marks : kind ≠ .endMark) :
    t.toCursor.sees kind = t.sees kind := by
  cases more : t.atEnd with
  | true =>
    have ends : t.current.kind = .endMark := by simpa [atEnd, isEnd] using more
    rw [Cursor.sees_nil (rest_done more), sees, ends]
    exact (beq_eq_false_iff_ne.2 marks.symm).symm
  | false => exact Cursor.sees_cons (rest_more more) kind

theorem toCursor_advance (t : Tape tokens) : t.advance.toCursor = t.toCursor.advance := by
  unfold advance
  split
  · next more =>
    rw [Cursor.advance_cons (rest_more more)]
    rfl
  · next done => rw [Cursor.advance, rest_done (by simpa using done)]

theorem previous_advance {t : Tape tokens} (more : t.atEnd = false) : t.advance.previous = t.current := by
  have same := congrArg Cursor.previous t.toCursor_advance
  rwa [Cursor.advance_cons (rest_more more)] at same

def stops (t : Tape tokens) : Bool :=
  t.previous.kind == .semicolon || (0 < t.depth && t.current.kind == .rightBrace) || opensStatement t.current.kind

def skipped (t : Tape tokens) : Cursor :=
  { t.toCursor with
    previous := (Cursor.skip t.depth t.previous t.toCursor.rest).1
    rest := (Cursor.skip t.depth t.previous t.toCursor.rest).2 }

theorem skipped_done {t : Tape tokens} (done : t.atEnd = true) : t.skipped = t.toCursor := by
  rw [skipped, rest_done done, Cursor.skip, ← rest_done done]
  rfl

theorem skipped_of_stops {t : Tape tokens} (more : t.atEnd = false) (stop : t.stops = true) : t.skipped = t.toCursor := by
  unfold stops at stop
  rw [skipped, rest_more more, Cursor.skip, if_pos stop, ← rest_more more]
  rfl

theorem skipped_of_goes {t : Tape tokens} (more : t.atEnd = false) (goes : t.stops = false) :
    t.skipped = t.advance.skipped := by
  unfold stops at goes
  have depth : t.advance.depth = t.depth := (congrArg Cursor.depth t.toCursor_advance).trans (Cursor.depth_advance _)
  rw [skipped, skipped, depth, previous_advance more, toCursor_advance, Cursor.advance_cons (rest_more more),
    rest_more more, Cursor.skip, if_neg (Bool.eq_false_iff.1 goes)]

/-- Once a token has been read, the guard against looking before the first one is idle. -/
theorem toCursor_skip (t : Tape tokens) (begun : t.atEnd = false → 0 < t.index) : t.skip.toCursor = t.skipped := by
  fun_induction skip t with
  | case1 t more behind =>
    simp only [Bool.and_eq_true] at behind
    rw [skipped_of_stops more (by simp [stops, behind.2])]
  | case2 t more _ brace => rw [skipped_of_stops more (by simp_all [stops, sees])]
  | case3 t more _ _ opens => rw [skipped_of_stops more (by simp [stops, opens])]
  | case4 t more behind brace opens ih =>
    have read := begun more
    rw [ih fun _ => by rw [index_advance more]; exact Nat.succ_pos _, skipped_of_goes more]
    simp_all [stops, sees]
  | case5 t done => rw [skipped_done (by simpa using done)]

theorem toCursor_conclude (t : Tape tokens) (before : List Episode) (begun : t.atEnd = false → 0 < t.index) :
    (t.conclude before).toCursor = t.toCursor.conclude before := by
  cases recovering : t.recovering with
  | false =>
    rw [Cursor.conclude_of_not_recovering recovering]
    simp only [conclude, recovering]
    rfl
  | true =>
    rw [Cursor.conclude_of_recovering recovering]
    simp only [conclude, recovering, if_true]
    exact congrArg (fun c : Cursor =>
      { c with recovering := false, history := .declaration t.history.reverse false :: before }) (t.toCursor_skip begun)

end Tape

section Ended

variable (tokens : List Token)

theorem find?_ended : (ended tokens).find? isEnd = some ((tokens.find? isEnd).getD (impliedEnd tokens)) := by
  unfold ended
  split
  · next marked =>
    obtain ⟨last, found, ends⟩ := (Option.any_eq_true ..).1 marked
    have some : (tokens.find? isEnd).isSome = true := List.find?_isSome.2 ⟨last, List.mem_of_getLast? found, ends⟩
    obtain ⟨first, found⟩ := Option.isSome_iff_exists.1 some
    rw [found, Option.getD_some]
  · rw [List.find?_append]
    cases tokens.find? isEnd <;> rfl

theorem takeWhile_ended : (ended tokens).takeWhile (!isEnd ·) = tokens.takeWhile (!isEnd ·) := by
  unfold ended
  split
  · rfl
  · rw [List.takeWhile_append]
    split
    · next whole =>
      rw [(List.takeWhile_prefix _).eq_of_length whole]
      exact List.append_nil _
    · rfl

theorem head?_ended : (ended tokens).head? = some (tokens.head?.getD (impliedEnd tokens)) := by
  unfold ended
  split
  · next marked => cases tokens with
    | nil => cases marked
    | cons t rest => rfl
  · cases tokens <;> rfl

theorem endMark_ofList : (Tokens.ofList tokens).endMark = (tokens.find? isEnd).getD (impliedEnd tokens) := by
  have := (Tokens.ofList tokens).firstEnd_lt
  have found : (Tokens.ofList tokens).vector[(Tokens.ofList tokens).firstEnd]? = some (Tokens.ofList tokens).endMark :=
    Array.getElem?_eq_getElem this
  have first : (ended tokens)[(ended tokens).findIdx isEnd]? = some (Tokens.ofList tokens).endMark := by
    simpa [Tokens.ofList, Tokens.firstEnd] using found
  rw [← List.find?_eq_getElem?_findIdx, find?_ended] at first
  exact (Option.some.inj first).symm

theorem body_ofList : (Tokens.ofList tokens).body = tokens.takeWhile (!isEnd ·) := by
  rw [← takeWhile_ended, List.takeWhile_eq_take_findIdx_not]
  simp [Tokens.body, Tokens.firstEnd, Tokens.ofList]

theorem toCursor_start (nextId : UseId) :
    (Tape.start (.ofList tokens) nextId).toCursor = Cursor.ofTokens tokens nextId := by
  have previous : (Tape.start (.ofList tokens) nextId).previous =
      tokens.head?.getD ((tokens.find? isEnd).getD (impliedEnd tokens)) := by
    have first : (Tokens.ofList tokens).vector[0]? = some (Tape.start (.ofList tokens) nextId).previous :=
      Array.getElem?_eq_getElem (Tokens.ofList tokens).size_pos
    have head : (Tokens.ofList tokens).vector[0]? = (ended tokens).head? := by
      simp [Tokens.ofList, List.head?_eq_getElem?]
    rw [head, head?_ended] at first
    rw [← Option.some.inj first]
    cases tokens <;> rfl
  simp only [Tape.toCursor, previous, Cursor.ofTokens, body_ofList, endMark_ofList]
  rfl

end Ended

/-- A declaration that is begun before the end reads a token, whatever its budget. -/
theorem anyDeclaration_reads {n : Nat} {c d : Cursor} {stmt : Stmt} (left : c.rest ≠ [])
    (run : anyDeclaration n c = some (stmt, d)) : d.rest.length < c.rest.length := by
  have some_left := List.length_pos_iff.2 left
  have ends := (Budget.statements (max n (32 * c.rest.length + 12))).anyDeclaration c (Nat.le_max_right ..)
  obtain ⟨_, e, ample, behind⟩ := ends
  have tracks : Tracks.Statements id [] n (max n (32 * c.rest.length + 12)) := Tracks.statements View.id (Nat.le_max_left ..)
  obtain ⟨-, mirrors⟩ := tracks.anyDeclaration _ _ _ run
  obtain ⟨_, e', ample', -, same⟩ := mirrors [] [] c ⟨by simp, rfl, rfl, rfl, rfl, c.history, by simp, by simp⟩ fun _ => rfl
  cases ample.symm.trans ample'
  have rest : e.rest = d.rest := by simpa using same.rest
  rw [← rest]
  exact Nat.lt_of_le_pred some_left behind

/-- From one place, a procedure on a tape does what one on a cursor does. -/
def Refines {tokens : Tokens} {α : Type} (t : Tape tokens) (r : Reader (Tape tokens) α) (r' : Reader Cursor α) : Prop :=
  (r t).map (Prod.map id Tape.toCursor) = r' t.toCursor

namespace Refines

variable {tokens : Tokens} {α β : Type} {t : Tape tokens}

theorem none : Refines t (failure : Reader (Tape tokens) α) failure := rfl

theorem pure (a : α) : Refines t (pure a) (pure a) := rfl

theorem bind {r : Reader (Tape tokens) α} {r' : Reader Cursor α} {k : α → Reader (Tape tokens) β} {k' : α → Reader Cursor β}
    (hr : Refines t r r') (hk : ∀ a u, r t = some (a, u) → Refines u (k a) (k' a)) : Refines t (r >>= k) (r' >>= k') := by
  unfold Refines at *
  rw [Reader.bind_run, ← hr]
  change ((r t).bind fun x => k x.1 x.2).map _ = _
  cases run : r t with
  | none => rfl
  | some x => exact hk x.1 x.2 run

theorem map {r : Reader (Tape tokens) α} {r' : Reader Cursor α} (hr : Refines t r r') (k : α → β) :
    Refines t (k <$> r) (k <$> r') := by
  rw [map_eq_pure_bind, map_eq_pure_bind]
  exact hr.bind fun a _ _ => .pure (k a)

theorem atEnd : Refines t Reader.atEnd Reader.atEnd :=
  congrArg some (Prod.ext t.atEnd_toCursor.symm rfl)

theorem current : Refines t Reader.current Reader.current :=
  congrArg some (Prod.ext t.current_toCursor.symm rfl)

theorem previous : Refines t Reader.previous Reader.previous := rfl

theorem advance : Refines t Reader.advance Reader.advance :=
  congrArg some (Prod.ext rfl t.toCursor_advance)

theorem report (token : Token) (fault : Fault) : Refines t (Reader.report token fault) (Reader.report token fault) := rfl

theorem reportHere (fault : Fault) : Refines t (Reader.reportHere fault) (Reader.reportHere fault) := by
  unfold Refines
  change _ = some ((), t.toCursor.report t.toCursor.current fault)
  rw [t.current_toCursor]
  rfl

theorem sees {kind : Token.Kind} (marks : kind ≠ .endMark) : Refines t (Reader.sees kind) (Reader.sees kind) :=
  congrArg some (Prod.ext (t.sees_toCursor marks).symm rfl)

theorem expect (slot : Slot) : Refines t (Reader.expect slot) (Reader.expect slot) := by
  have marks : slot.kind ≠ .endMark := by cases slot <;> decide
  change some ((), Tape.toCursor (if t.sees slot.kind then t.advance else t.report t.current (.missing slot))) =
    some ((), t.toCursor.expect slot)
  unfold Cursor.expect
  rw [t.sees_toCursor marks, t.current_toCursor]
  split
  · rw [t.toCursor_advance]
  · rfl

theorem accept {kind : Token.Kind} (marks : kind ≠ .endMark) : Refines t (Reader.accept kind) (Reader.accept kind) := by
  change some (Prod.map id Tape.toCursor (if t.sees kind then (true, t.advance) else (false, t))) =
    some (if t.toCursor.sees kind then (true, t.toCursor.advance) else (false, t.toCursor))
  rw [t.sees_toCursor marks, ← t.toCursor_advance]
  split <;> rfl

theorem acceptAny {kinds : List Token.Kind} (marks : .endMark ∉ kinds) :
    Refines t (Reader.acceptAny kinds) (Reader.acceptAny kinds) := by
  have same : kinds.any t.toCursor.sees = kinds.any t.sees := by
    rw [Bool.eq_iff_iff, List.any_eq_true, List.any_eq_true]
    refine exists_congr fun kind => and_congr_right fun mem => ?_
    rw [t.sees_toCursor (ne_of_mem_of_not_mem mem marks)]
  change some (Prod.map id Tape.toCursor (if kinds.any t.sees then (true, t.advance) else (false, t))) =
    some (if kinds.any t.toCursor.sees then (true, t.toCursor.advance) else (false, t.toCursor))
  rw [same, ← t.toCursor_advance]
  split <;> rfl

theorem freshId : Refines t Reader.freshId Reader.freshId := rfl

theorem begin : Refines t Reader.begin Reader.begin := rfl

theorem conclude (before : List Episode) (begun : t.atEnd = false → 0 < t.index) :
    Refines t (Reader.conclude before) (Reader.conclude before) :=
  congrArg some (Prod.ext rfl (t.toCursor_conclude before begun))

theorem limit (count : Nat) (fault : Fault) : Refines t (Reader.limit count fault) (Reader.limit count fault) := by
  unfold Reader.limit
  split
  · exact reportHere fault
  · exact .pure ()

theorem choose {kind : Token.Kind} (marks : kind ≠ .endMark) {r s : Reader (Tape tokens) α} {r' s' : Reader Cursor α}
    (yes : ∀ u, Refines u r r') (no : ∀ u, Refines u s s') :
    Refines t (do if ← Reader.accept kind then r else s) (do if ← Reader.accept kind then r' else s') := by
  refine (accept marks).bind fun seen u _ => ?_
  cases seen with
  | true => exact yes u
  | false => exact no u

theorem unlessSees {closing : Token.Kind} (marks : closing ≠ .endMark) (absent : α) {r : Reader (Tape tokens) α}
    {r' : Reader Cursor α} (hr : ∀ u, Refines u r r') :
    Refines t (Reader.unlessSees closing absent r) (Reader.unlessSees closing absent r') := by
  refine (sees marks).bind fun seen u _ => ?_
  cases seen with
  | true => exact .pure absent
  | false => exact hr u

theorem ifAccepted {opening : Token.Kind} (marks : opening ≠ .endMark) (absent : α) {r : Reader (Tape tokens) α}
    {r' : Reader Cursor α} (hr : ∀ u, Refines u r r') :
    Refines t (Reader.ifAccepted opening absent r) (Reader.ifAccepted opening absent r') :=
  choose marks hr fun _ => .pure absent

structure Expressions (tokens : Tokens) (n : Nat) : Prop where
  expression : ∀ t : Tape tokens, Refines t (expression n) (expression n)
  operation : ∀ tiers, tiers <:+ Tier.all → ∀ t : Tape tokens, Refines t (operation n tiers) (operation n tiers)
  operationRest : ∀ tier tighter left, tier :: tighter <:+ Tier.all → ∀ t : Tape tokens,
    Refines t (operationRest n tier tighter left) (operationRest n tier tighter left)
  unary : ∀ t : Tape tokens, Refines t (unary n) (unary n)
  suffixes : ∀ target, ∀ t : Tape tokens, Refines t (suffixes n target) (suffixes n target)
  arguments : ∀ count, ∀ t : Tape tokens, Refines t (arguments n count) (arguments n count)
  primary : ∀ t : Tape tokens, Refines t (primary n) (primary n)

variable {n : Nat}

theorem expression_succ (ih : Expressions tokens n) (t : Tape tokens) : Refines t (expression (n + 1)) (expression (n + 1)) := by
  unfold expression
  refine (ih.operation _ List.suffix_rfl t).bind fun target _ _ => choose (by decide) (fun _ => ?_) fun _ => .pure target
  refine previous.bind fun equals _ _ => (ih.expression _).bind fun value _ _ => ?_
  split
  · exact freshId.bind fun _ _ _ => .pure _
  · exact (report equals _).bind fun _ _ _ => .pure _

theorem operation_succ (ih : Expressions tokens n) (tiers : List Tier) (regular : tiers <:+ Tier.all) (t : Tape tokens) :
    Refines t (operation (n + 1) tiers) (operation (n + 1) tiers) := by
  cases tiers with
  | nil => exact ih.unary t
  | cons tier tighter =>
    exact (ih.operation tighter ((List.suffix_cons ..).trans regular) t).bind fun left _ _ =>
      ih.operationRest tier tighter left regular _

theorem operators_marked : ∀ tier ∈ Tier.all, Token.Kind.endMark ∉ tier.operators := by
  decide

theorem operationRest_succ (ih : Expressions tokens n) (tier : Tier) (tighter : List Tier) (left : Expr)
    (regular : tier :: tighter <:+ Tier.all) (t : Tape tokens) :
    Refines t (operationRest (n + 1) tier tighter left) (operationRest (n + 1) tier tighter left) := by
  unfold operationRest
  refine (acceptAny (operators_marked tier (regular.subset List.mem_cons_self))).bind fun seen u _ => ?_
  cases seen with
  | false => exact .pure left
  | true =>
    refine previous.bind fun operator _ _ => ?_
    exact (ih.operation tighter ((List.suffix_cons ..).trans regular) _).bind fun right _ _ =>
      ih.operationRest tier tighter _ regular _

theorem unary_succ (ih : Expressions tokens n) (t : Tape tokens) : Refines t (unary (n + 1)) (unary (n + 1)) := by
  unfold unary
  refine (acceptAny (by decide)).bind fun seen u _ => ?_
  cases seen with
  | false => exact (ih.primary u).bind fun callee _ _ => ih.suffixes callee _
  | true => exact previous.bind fun operator _ _ => (ih.unary _).bind fun operand _ _ => .pure _

theorem suffixes_succ (ih : Expressions tokens n) (target : Expr) (t : Tape tokens) :
    Refines t (suffixes (n + 1) target) (suffixes (n + 1) target) := by
  unfold suffixes
  refine choose (by decide) (fun _ => ?_) fun _ => choose (by decide) (fun _ => ?_) fun _ => .pure target
  · refine (unlessSees (by decide) [] (ih.arguments 1)).bind fun arguments _ _ => (expect _).bind fun _ _ _ => ?_
    exact previous.bind fun _ _ _ => ih.suffixes _ _
  · refine previous.bind fun bracket _ _ => (ih.expression _).bind fun place _ _ => (expect _).bind fun _ _ _ => ?_
    exact ih.suffixes _ _

theorem arguments_succ (ih : Expressions tokens n) (count : Nat) (t : Tape tokens) :
    Refines t (arguments (n + 1) count) (arguments (n + 1) count) := by
  unfold arguments
  refine (ih.expression t).bind fun argument _ _ => choose (by decide) (fun _ => ?_) fun _ => .pure _
  exact (limit count _).bind fun _ _ _ => (ih.arguments (count + 1) _).bind fun rest _ _ => .pure _

theorem primary_succ (ih : Expressions tokens n) (t : Tape tokens) : Refines t (primary (n + 1)) (primary (n + 1)) := by
  unfold primary
  refine atEnd.bind fun done _ _ => ?_
  cases done with
  | true => exact (reportHere _).bind fun _ _ _ => .pure _
  | false =>
    refine current.bind fun token _ _ => advance.bind fun _ _ _ => ?_
    cases Operand.ofToken token with
    | constant value => exact .pure _
    | «variable» => exact freshId.bind fun _ _ _ => .pure _
    | group => exact (ih.expression _).bind fun _ _ _ => (expect _).bind fun _ _ _ => .pure _
    | unknown fault => exact (report token fault).bind fun _ _ _ => .pure _

theorem expressions (tokens : Tokens) : ∀ n, Expressions tokens n
  | 0 => ⟨fun _ => .none, fun _ _ _ => .none, fun _ _ _ _ _ => .none, fun _ => .none, fun _ _ => .none, fun _ _ => .none,
      fun _ => .none⟩
  | n + 1 =>
    have ih := expressions tokens n
    ⟨expression_succ ih, operation_succ ih, operationRest_succ ih, unary_succ ih, suffixes_succ ih, arguments_succ ih,
      primary_succ ih⟩

theorem expression (n : Nat) (t : Tape tokens) : Refines t (Grammar.expression n) (Grammar.expression n) :=
  (expressions tokens n).expression t

theorem expressionUnless (n : Nat) {closing : Token.Kind} (marks : closing ≠ .endMark) (t : Tape tokens) :
    Refines t (expressionUnless n closing) (expressionUnless n closing) :=
  unlessSees marks Option.none fun u => (expression n u).map some

theorem expressionStatement (n : Nat) (t : Tape tokens) : Refines t (expressionStatement n) (expressionStatement n) :=
  (expression n t).bind fun _ _ _ => (expect _).bind fun _ _ _ => .pure _

theorem printStatement (n : Nat) (t : Tape tokens) : Refines t (printStatement n) (printStatement n) :=
  (expression n t).bind fun _ _ _ => (expect _).bind fun _ _ _ => .pure _

theorem returnStatement (n : Nat) (t : Tape tokens) : Refines t (returnStatement n) (returnStatement n) :=
  previous.bind fun _ _ _ => (expressionUnless n (by decide) _).bind fun _ _ _ => (expect _).bind fun _ _ _ => .pure _

theorem variableDeclaration (n : Nat) (t : Tape tokens) : Refines t (variableDeclaration n) (variableDeclaration n) := by
  refine (expect _).bind fun _ _ _ => previous.bind fun _ _ _ => ?_
  refine (ifAccepted (by decide) Option.none fun u => (expression n u).map some).bind fun _ _ _ => ?_
  exact (expect _).bind fun _ _ _ => .pure _

theorem forInitial (n : Nat) (t : Tape tokens) : Refines t (forInitial n) (forInitial n) := by
  refine choose (by decide) (fun _ => .pure _) fun _ => choose (by decide) (fun u => ?_) fun u => ?_
  · exact (variableDeclaration n u).map some
  · exact (expressionStatement n u).map some

theorem parameters (n count : Nat) (t : Tape tokens) : Refines t (parameters n count) (parameters n count) := by
  induction n generalizing count t with
  | zero => exact .none
  | succ n ih =>
    refine (limit count _).bind fun _ _ _ => (expect _).bind fun _ _ _ => previous.bind fun name _ _ => ?_
    exact choose (by decide) (fun u => (ih (count + 1) u).bind fun _ _ _ => .pure _) fun _ => .pure _

structure Statements (tokens : Tokens) (n : Nat) : Prop where
  declaration : ∀ t : Tape tokens, t.atEnd = false → Refines t (declaration n) (declaration n)
  anyDeclaration : ∀ t : Tape tokens, Refines t (anyDeclaration n) (anyDeclaration n)
  functionDeclaration : ∀ t : Tape tokens, Refines t (functionDeclaration n) (functionDeclaration n)
  statement : ∀ t : Tape tokens, Refines t (statement n) (statement n)
  ifStatement : ∀ t : Tape tokens, Refines t (ifStatement n) (ifStatement n)
  whileStatement : ∀ t : Tape tokens, Refines t (whileStatement n) (whileStatement n)
  forStatement : ∀ t : Tape tokens, Refines t (forStatement n) (forStatement n)
  block : ∀ t : Tape tokens, Refines t (block n) (block n)
  declarations : ∀ nested, ∀ t : Tape tokens, Refines t (declarations n nested) (declarations n nested)

theorem declaration_succ (ih : Statements tokens n) (t : Tape tokens) (more : t.atEnd = false) :
    Refines t (declaration (n + 1)) (declaration (n + 1)) := by
  unfold declaration
  refine begin.bind fun before u run => (ih.anyDeclaration u).bind fun stmt v own => ?_
  have begun : 0 < v.index := by
    cases run
    refine Nat.pos_of_ne_zero fun first => ?_
    have refined := ih.anyDeclaration (Place.begin t)
    rw [Refines, own] at refined
    have left : t.toCursor.rest ≠ [] := by simp [Tape.rest_more more]
    have shorter := @anyDeclaration_reads n (Place.begin t).toCursor _ _ left refined.symm
    simp [Tape.toCursor, first] at shorter
    omega
  refine (conclude before fun _ => begun).bind fun kept _ _ => ?_
  cases kept <;> exact .pure _

theorem anyDeclaration_succ (ih : Statements tokens n) (t : Tape tokens) :
    Refines t (anyDeclaration (n + 1)) (anyDeclaration (n + 1)) := by
  unfold anyDeclaration
  exact choose (by decide) (variableDeclaration n) fun _ => choose (by decide) ih.functionDeclaration ih.statement

theorem functionDeclaration_succ (ih : Statements tokens n) (t : Tape tokens) :
    Refines t (functionDeclaration (n + 1)) (functionDeclaration (n + 1)) := by
  unfold functionDeclaration
  refine (expect _).bind fun _ _ _ => previous.bind fun _ _ _ => (expect _).bind fun _ _ _ => ?_
  refine (unlessSees (by decide) [] (parameters n 0)).bind fun _ _ _ => (expect _).bind fun _ _ _ => ?_
  exact (expect _).bind fun _ _ _ => (ih.block _).bind fun _ _ _ => .pure _

theorem statement_succ (ih : Statements tokens n) (t : Tape tokens) :
    Refines t (statement (n + 1)) (statement (n + 1)) := by
  unfold statement
  refine choose (by decide) (printStatement n) fun _ => choose (by decide) (returnStatement n) fun _ => ?_
  refine choose (by decide) ih.ifStatement fun _ => choose (by decide) ih.whileStatement fun _ => ?_
  refine choose (by decide) ih.forStatement fun _ => choose (by decide) (fun u => ?_) (expressionStatement n)
  exact (ih.block u).bind fun _ _ _ => .pure _

theorem ifStatement_succ (ih : Statements tokens n) (t : Tape tokens) :
    Refines t (ifStatement (n + 1)) (ifStatement (n + 1)) := by
  unfold ifStatement
  refine (expect _).bind fun _ _ _ => (expression n _).bind fun _ _ _ => (expect _).bind fun _ _ _ => ?_
  refine (ih.statement _).bind fun _ _ _ => choose (by decide) (fun u => ?_) fun _ => .pure _
  exact (ih.statement u).bind fun _ _ _ => .pure _

theorem whileStatement_succ (ih : Statements tokens n) (t : Tape tokens) :
    Refines t (whileStatement (n + 1)) (whileStatement (n + 1)) := by
  unfold whileStatement
  refine (expect _).bind fun _ _ _ => (expression n _).bind fun _ _ _ => (expect _).bind fun _ _ _ => ?_
  exact (ih.statement _).bind fun _ _ _ => .pure _

theorem forStatement_succ (ih : Statements tokens n) (t : Tape tokens) :
    Refines t (forStatement (n + 1)) (forStatement (n + 1)) := by
  unfold forStatement
  refine (expect _).bind fun _ _ _ => (forInitial n _).bind fun _ _ _ => ?_
  refine (expressionUnless n (by decide) _).bind fun _ _ _ => (expect _).bind fun _ _ _ => ?_
  refine (expressionUnless n (by decide) _).bind fun _ _ _ => (expect _).bind fun _ _ _ => ?_
  exact (ih.statement _).bind fun _ _ _ => .pure _

theorem block_succ (ih : Statements tokens n) (t : Tape tokens) : Refines t (block (n + 1)) (block (n + 1)) := by
  unfold block
  have enter (u : Tape tokens) : Refines u (modify Place.enter) (modify Place.enter) := rfl
  have leave (u : Tape tokens) : Refines u (modify Place.leave) (modify Place.leave) := rfl
  refine (enter t).bind fun _ _ _ => (ih.declarations true _).bind fun _ _ _ => (leave _).bind fun _ _ _ => ?_
  exact (expect _).bind fun _ _ _ => .pure _

theorem declarations_succ (ih : Statements tokens n) (nested : Bool) (t : Tape tokens) :
    Refines t (declarations (n + 1) nested) (declarations (n + 1) nested) := by
  unfold declarations
  refine atEnd.bind fun done u run => (sees (by decide)).bind fun closing v run' => ?_
  split
  · exact .pure []
  · next goes =>
    have more : v.atEnd = false := by
      cases run
      cases run'
      simp at goes
      exact goes.1
    refine (ih.declaration v more).bind fun stmt? _ _ => ?_
    cases stmt? with
    | none => exact ih.declarations nested _
    | some stmt => exact (ih.declarations nested _).bind fun _ _ _ => .pure _

theorem statements (tokens : Tokens) : ∀ n, Statements tokens n
  | 0 => ⟨fun _ _ => .none, fun _ => .none, fun _ => .none, fun _ => .none, fun _ => .none, fun _ => .none,
      fun _ => .none, fun _ => .none, fun _ _ => .none⟩
  | n + 1 =>
    have ih := statements tokens n
    ⟨declaration_succ ih, anyDeclaration_succ ih, functionDeclaration_succ ih, statement_succ ih, ifStatement_succ ih,
      whileStatement_succ ih, forStatement_succ ih, block_succ ih, declarations_succ ih⟩

end Refines

theorem length_ofTokens_le (tokens : List Token) (nextId : UseId) :
    (Cursor.ofTokens tokens nextId).rest.length ≤ tokens.length :=
  (List.takeWhile_prefix _).length_le

/-- Reading by index is reading by what is left. -/
theorem read?_eq (tokens : List Token) (nextId : UseId) :
    read? tokens nextId =
      (declarations (budget tokens.length) false (Cursor.ofTokens tokens nextId)).map fun x =>
        ⟨x.1, x.2.history.reverse, x.2.nextId⟩ := by
  rw [← toCursor_start, ← (Refines.statements _ _).declarations, Option.map_map]
  rfl

theorem read_run (tokens : List Token) (nextId : UseId) :
    ∃ program c, declarations (budget tokens.length) false (Cursor.ofTokens tokens nextId) = some (program, c) ∧
      read tokens nextId = ⟨program, c.history.reverse, c.nextId⟩ := by
  have short := length_ofTokens_le tokens nextId
  have enough : 32 * (Cursor.ofTokens tokens nextId).rest.length + 14 ≤ budget tokens.length := by
    unfold budget
    omega
  obtain ⟨program, c, h, -⟩ := (Budget.statements _).declarations false _ enough
  exact ⟨program, c, h, by simp [read, read?_eq, h]⟩

end Scriptlet.Grammar
