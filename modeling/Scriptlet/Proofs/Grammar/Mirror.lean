import Scriptlet.Proofs.Tree.Map
import Scriptlet.Proofs.Grammar.Procedure

/-!
Two readings side by side. The tokens of the second are those of the first as a view `f` of tokens shows them, and more
may follow them. What happened before the two, and the numbers that they give, may be different. As long as the first
reading has not come to its end, the second does the same.
-/

namespace Scriptlet.Grammar

namespace Episode

variable (f : Token → Token)

mutual

def map : Episode → Episode
  | .fault error hushed => .fault ⟨f error.token, error.cause⟩ hushed
  | .declaration history kept => .declaration (mapIn history) kept

def mapIn : List Episode → List Episode
  | [] => []
  | episode :: rest => episode.map :: mapIn rest

end

@[simp] theorem mapIn_eq_map (history : List Episode) : mapIn f history = history.map (map f) := by
  induction history with
  | nil => rfl
  | cons episode rest ih => simp [mapIn, ih]

mutual

theorem map_id : ∀ episode : Episode, episode.map id = episode
  | .fault error hushed => rfl
  | .declaration history kept => by rw [map, mapIn_id history]

theorem mapIn_id : ∀ history : List Episode, mapIn id history = history
  | [] => rfl
  | episode :: rest => by rw [mapIn, map_id episode, mapIn_id rest]

end

@[simp] theorem map_id_eq_id : map id = id :=
  funext map_id

end Episode

/-- A view of tokens that shows what the reader looks at. -/
structure View (f : Token → Token) : Prop where
  kind : ∀ t, (f t).kind = t.kind
  payload : ∀ t, (f t).payload = t.payload

theorem View.id : View id :=
  ⟨fun _ => rfl, fun _ => rfl⟩

namespace View

variable {f : Token → Token} (view : View f)

include view

theorem ofToken_eq (t : Token) : Operand.ofToken (f t) = Operand.ofToken t := by
  simp only [Operand.ofToken, view.kind, view.payload]

end View

/-- Two cursors at corresponding places, the second with more tokens behind those of the first. -/
structure Cursor.Mirror (f : Token → Token) (extra : List Token) (base base' : List Episode) (c c' : Cursor) :
    Prop where
  rest : c'.rest = c.rest.map f ++ extra
  previous : c'.previous = f c.previous
  endMark : c'.endMark = f c.endMark
  depth : c'.depth = c.depth
  recovering : c'.recovering = c.recovering
  history : ∃ new, c.history = new ++ base ∧ c'.history = new.map (Episode.map f) ++ base'

/-- The end is not in sight, or it is the end of both readings. -/
def Cursor.Alive (extra : List Token) (c : Cursor) : Prop :=
  c.rest = [] → extra = []

namespace Cursor.Mirror

variable {f : Token → Token} (view : View f) {extra : List Token} {base base' : List Episode} {c c' : Cursor}

theorem rest_nil (h : Mirror f extra base base' c c') (alive : c.Alive extra) (done : c.rest = []) : c'.rest = [] := by
  simpa [done, alive done] using h.rest

theorem rest_cons (h : Mirror f extra base base' c c') {t : Token} {rest : List Token} (hr : c.rest = t :: rest) :
    c'.rest = f t :: (rest.map f ++ extra) := by
  rw [h.rest, hr, List.map_cons, List.cons_append]

include view in
theorem sees (h : Mirror f extra base base' c c') (alive : c.Alive extra) (kind : Token.Kind) :
    c'.sees kind = c.sees kind := by
  cases hr : c.rest with
  | nil => rw [sees_nil hr, sees_nil (h.rest_nil alive hr)]
  | cons t rest => rw [sees_cons hr, sees_cons (h.rest_cons hr), view.kind]

theorem atEnd (h : Mirror f extra base base' c c') (alive : c.Alive extra) : c'.atEnd = c.atEnd := by
  cases hr : c.rest with
  | nil => simp [Cursor.atEnd, hr, h.rest_nil alive hr]
  | cons t rest => simp [Cursor.atEnd, hr, h.rest_cons hr]

theorem current (h : Mirror f extra base base' c c') (alive : c.Alive extra) : c'.current = f c.current := by
  cases hr : c.rest with
  | nil => rw [current_nil hr, current_nil (h.rest_nil alive hr), h.endMark]
  | cons t rest => rw [current_cons hr, current_cons (h.rest_cons hr)]

theorem advance (h : Mirror f extra base base' c c') (alive : c.Alive extra) :
    Mirror f extra base base' c.advance c'.advance := by
  cases hr : c.rest with
  | nil =>
    have hr' := h.rest_nil alive hr
    simpa only [Cursor.advance, hr, hr'] using h
  | cons t rest =>
    rw [advance_cons hr, advance_cons (h.rest_cons hr)]
    exact { h with rest := rfl, previous := rfl }

theorem report (h : Mirror f extra base base' c c') (t : Token) (fault : Fault) :
    Mirror f extra base base' (c.report t fault) (c'.report (f t) fault) := by
  obtain ⟨new, hh, hh'⟩ := h.history
  refine { h with recovering := ?_, history := ⟨.fault ⟨t, fault⟩ c.recovering :: new, by simp [hh], ?_⟩ }
  · simp [h.recovering]
  · simp [Episode.map, hh', h.recovering]

include view in
theorem expect (h : Mirror f extra base base' c c') (alive : c.Alive extra) (slot : Slot) :
    Mirror f extra base base' (c.expect slot) (c'.expect slot) := by
  have same := h.sees view alive slot.kind
  cases seen : c.sees slot.kind with
  | true =>
    rw [expect_of_sees seen, expect_of_sees (same.trans seen)]
    exact h.advance alive
  | false =>
    rw [expect_of_not_sees seen, expect_of_not_sees (same.trans seen), h.current alive]
    exact h.report _ _

include view in
theorem skip (depth : Nat) (previous : Token) (rest : List Token)
    (alive : (skip depth previous rest).2 = [] → extra = []) :
    skip depth (f previous) (rest.map f ++ extra) =
      (f (skip depth previous rest).1, (skip depth previous rest).2.map f ++ extra) := by
  induction rest generalizing previous with
  | nil =>
    rw [alive rfl]
    rfl
  | cons t rest ih =>
    unfold Cursor.skip at alive
    rw [List.map_cons, List.cons_append, Cursor.skip, Cursor.skip, view.kind, view.kind]
    split
    · rfl
    · next more =>
      rw [if_neg more] at alive
      exact ih t alive

include view in
theorem conclude (h : Mirror f extra base base' c c') {d d' : Cursor} (k : Mirror f extra [] [] d d')
    (alive : (d.conclude c.history).Alive extra) :
    Mirror f extra base base' (d.conclude c.history) (d'.conclude c'.history) := by
  obtain ⟨new, hh, hh'⟩ := h.history
  obtain ⟨own, ho, ho'⟩ := k.history
  rw [List.append_nil] at ho ho'
  have history : ∃ new, (d.conclude c.history).history = new ++ base ∧
      (d'.conclude c'.history).history = new.map (Episode.map f) ++ base' := by
    refine ⟨.declaration d.history.reverse (!d.recovering) :: new, by simp [hh], ?_⟩
    simp [Episode.map, ho, ho', hh', k.recovering]
  cases recovering : d.recovering with
  | false =>
    rw [conclude_of_not_recovering recovering] at history ⊢
    rw [conclude_of_not_recovering (k.recovering.trans recovering)] at history ⊢
    exact { k with history }
  | true =>
    rw [conclude_of_recovering recovering] at history alive ⊢
    rw [conclude_of_recovering (k.recovering.trans recovering)] at history ⊢
    have skipped : Cursor.skip d'.depth d'.previous d'.rest =
        (f (Cursor.skip d.depth d.previous d.rest).1, (Cursor.skip d.depth d.previous d.rest).2.map f ++ extra) := by
      rw [k.depth, k.previous, k.rest]
      exact skip view d.depth d.previous d.rest alive
    exact { k with rest := congrArg Prod.snd skipped, previous := congrArg Prod.fst skipped, recovering := rfl, history }

end Cursor.Mirror

open Cursor

/-- Two views of results, such that every result of the first reading has one that corresponds to it. -/
class Lifts {α β : Type} (g g' : α → β) : Prop where
  lift : ∀ a, ∃ a', g' a' = g a

namespace Lifts

variable {α β : Type} (f : Token → Token) (g g' : α → β)

instance : Lifts g g :=
  ⟨fun a => ⟨a, rfl⟩⟩

instance : Lifts f fun t => t :=
  ⟨fun a => ⟨f a, rfl⟩⟩

instance : Lifts (List.map f) fun names => names :=
  ⟨fun names => ⟨names.map f, rfl⟩⟩

instance : Lifts (Expr.view f) Expr.unnumbered :=
  ⟨fun e => ⟨e.view f, e.map_map ..⟩⟩

instance : Lifts (Stmt.view f) Stmt.unnumbered :=
  ⟨fun stmt => ⟨stmt.view f, stmt.map_map ..⟩⟩

instance [Lifts g g'] : Lifts (Option.map g) (Option.map g') where
  lift
    | none => ⟨none, rfl⟩
    | some a =>
      have ⟨a', same⟩ : ∃ a', g' a' = g a := lift a
      ⟨some a', congrArg some same⟩

instance [Lifts g g'] : Lifts (List.map g) (List.map g') where
  lift as := by
    induction as with
    | nil => exact ⟨[], rfl⟩
    | cons a as ih =>
      obtain ⟨a', head⟩ : ∃ a', g' a' = g a := lift a
      obtain ⟨as', rest⟩ := ih
      exact ⟨a' :: as', by simp [head, rest]⟩

end Lifts

/-- Two procedures that do the same at corresponding places and give results that correspond. -/
def Tracks {α β : Type} (f : Token → Token) (extra : List Token) (g g' : α → β) (r r' : Reader Cursor α) : Prop :=
  ∀ c a d, r c = some (a, d) → (c.rest = [] → d.rest = []) ∧
    ∀ base base' c', Mirror f extra base base' c c' → d.Alive extra →
      ∃ a' d', r' c' = some (a', d') ∧ g' a' = g a ∧ Mirror f extra base base' d d'

namespace Tracks

variable {α β γ δ : Type} {f : Token → Token} (view : View f) {extra : List Token} {g g' : α → β}
  {h h' : γ → δ}

theorem none {r' : Reader Cursor α} : Tracks f extra g g' failure r' := by
  intro c a d run
  cases run

theorem pure {a a' : α} (same : g' a' = g a) : Tracks f extra g g' (pure a) (pure a') := by
  rintro c _ _ ⟨⟩
  exact ⟨id, fun base base' c' hc _ => ⟨a', c', rfl, same, hc⟩⟩

theorem bind [Lifts g g'] {r r' : Reader Cursor α} {k k' : α → Reader Cursor γ} (hr : Tracks f extra g g' r r')
    (hk : ∀ a a', g' a' = g a → Tracks f extra h h' (k a) (k' a')) : Tracks f extra h h' (r >>= k) (r' >>= k') := by
  intro c b e run
  rw [Reader.bind_run] at run
  obtain ⟨a, d, run, rest⟩ := Outcome.andThen_eq_some.1 run
  obtain ⟨shrinks, mirrors⟩ := hr c a d run
  obtain ⟨other, corresponds⟩ : ∃ a', g' a' = g a := Lifts.lift a
  have shrinks' := (hk a other corresponds d b e rest).1
  refine ⟨fun done => shrinks' (shrinks done), fun base base' c' hc alive => ?_⟩
  obtain ⟨a', d', run', same, hd⟩ := mirrors base base' c' hc fun done => alive (shrinks' done)
  obtain ⟨b', e', rest', same', he⟩ := (hk a a' same d b e rest).2 base base' d' hd alive
  refine ⟨b', e', ?_, same', he⟩
  rw [Reader.bind_run]
  exact Outcome.andThen_eq_some.2 ⟨a', d', run', rest'⟩

theorem map [Lifts g g'] {r r' : Reader Cursor α} {k : α → γ} (hr : Tracks f extra g g' r r')
    (hk : ∀ a a', g' a' = g a → h' (k a') = h (k a)) : Tracks f extra h h' (k <$> r) (k <$> r') := by
  rw [map_eq_pure_bind, map_eq_pure_bind]
  exact hr.bind fun a a' same => .pure (hk a a' same)

theorem step {r : Reader Cursor α} (act : Cursor → α × Cursor) (hr : ∀ c, r c = some (act c))
    (shrinks : ∀ c, c.rest = [] → (act c).2.rest = [])
    (mirrors : ∀ base base' c c', Mirror f extra base base' c c' → c.Alive extra →
      g' (act c').1 = g (act c).1 ∧ Mirror f extra base base' (act c).2 (act c').2) : Tracks f extra g g' r r := by
  intro c a d run
  rw [hr] at run
  obtain rfl : (act c).1 = a := congrArg Prod.fst (Option.some.inj run)
  obtain rfl : (act c).2 = d := congrArg Prod.snd (Option.some.inj run)
  refine ⟨shrinks c, fun base base' c' hc alive => ⟨_, _, hr c', ?_⟩⟩
  exact mirrors base base' c c' hc fun done => alive (shrinks c done)

include view

theorem accept (kind : Token.Kind) : Tracks f extra id id (Reader.accept kind) (Reader.accept kind) := by
  refine step (fun c => if c.sees kind then (true, c.advance) else (false, c)) (fun _ => rfl)
    (fun c done => ?_) fun base base' c c' hc alive => ?_
  · split <;> simp [done]
  · rw [hc.sees view alive]
    split
    · exact ⟨rfl, hc.advance alive⟩
    · exact ⟨rfl, hc⟩

theorem choose {r r' s s' : Reader Cursor α} (kind : Token.Kind) (yes : Tracks f extra g g' r r') (no : Tracks f extra g g' s s') :
    Tracks f extra g g' (do if ← Reader.accept kind then r else s) (do if ← Reader.accept kind then r' else s') := by
  refine (accept view kind).bind fun seen _ same => ?_
  cases same
  cases seen with
  | true => exact yes
  | false => exact no

theorem acceptAny (kinds : List Token.Kind) : Tracks f extra id id (Reader.acceptAny kinds) (Reader.acceptAny kinds) := by
  refine step (fun c => if kinds.any c.sees then (true, c.advance) else (false, c)) (fun _ => rfl)
    (fun c done => ?_) fun base base' c c' hc alive => ?_
  · split <;> simp [done]
  · have same : c'.sees = c.sees := funext (hc.sees view alive)
    rw [same]
    split
    · exact ⟨rfl, hc.advance alive⟩
    · exact ⟨rfl, hc⟩

theorem sees (kind : Token.Kind) : Tracks f extra id id (Reader.sees kind) (Reader.sees kind) :=
  step (fun c => (c.sees kind, c)) (fun _ => rfl) (fun _ done => done) fun _ _ _ _ hc alive =>
    ⟨hc.sees view alive kind, hc⟩

theorem expect (slot : Slot) : Tracks f extra id id (Reader.expect slot) (Reader.expect slot) := by
  refine step (fun c => ((), c.expect slot)) (fun _ => rfl) (fun c done => ?_) fun _ _ _ _ hc alive =>
    ⟨rfl, hc.expect view alive slot⟩
  rw [expect_of_not_sees (sees_nil done _), rest_report, done]

omit view

theorem previous : Tracks f extra f (fun t => t) Reader.previous Reader.previous :=
  step (fun c => (c.previous, c)) (fun _ => rfl) (fun _ done => done) fun _ _ _ _ hc _ => ⟨hc.previous, hc⟩

theorem freshId : Tracks f extra (fun _ => ()) (fun _ => ()) Reader.freshId Reader.freshId :=
  step _ (fun _ => rfl) (fun _ done => done) fun _ _ _ _ hc _ => ⟨rfl, { hc with }⟩

theorem reportHere (fault : Fault) : Tracks f extra id id (Reader.reportHere fault) (Reader.reportHere fault) := by
  refine step (fun c => ((), c.report c.current fault)) (fun _ => rfl) (fun _ done => done) fun _ _ c c' hc alive => ?_
  rw [hc.current alive]
  exact ⟨rfl, hc.report c.current fault⟩

theorem report {t t' : Token} (ht : t' = f t) (fault : Fault) :
    Tracks f extra id id (Reader.report t fault) (Reader.report t' fault) := by
  subst ht
  rintro c _ _ ⟨⟩
  exact ⟨id, fun _ _ c' hc _ => ⟨_, _, rfl, rfl, hc.report t fault⟩⟩

theorem limit (count : Nat) (fault : Fault) :
    Tracks f extra id id (Reader.limit count fault) (Reader.limit count fault) := by
  unfold Reader.limit
  split
  · exact reportHere fault
  · exact .pure rfl

include view

theorem unlessSees {r r' : Reader Cursor α} (hr : Tracks f extra g g' r r') (closing : Token.Kind) {absent : α}
    (same : g' absent = g absent) :
    Tracks f extra g g' (Reader.unlessSees closing absent r) (Reader.unlessSees closing absent r') := by
  refine (sees view closing).bind fun seen _ h => ?_
  cases h
  cases seen with
  | true => exact .pure same
  | false => exact hr

theorem ifAccepted {r r' : Reader Cursor α} (hr : Tracks f extra g g' r r') (opening : Token.Kind) {absent : α}
    (same : g' absent = g absent) :
    Tracks f extra g g' (Reader.ifAccepted opening absent r) (Reader.ifAccepted opening absent r') :=
  choose view opening hr (.pure same)

structure Expressions (f : Token → Token) (extra : List Token) (n m : Nat) : Prop where
  expression : Tracks f extra (Expr.view f) Expr.unnumbered (expression n) (expression m)
  operation : ∀ tiers, Tracks f extra (Expr.view f) Expr.unnumbered (operation n tiers) (operation m tiers)
  operationRest : ∀ tier tighter left left', left'.unnumbered = left.view f →
    Tracks f extra (Expr.view f) Expr.unnumbered (operationRest n tier tighter left) (operationRest m tier tighter left')
  unary : Tracks f extra (Expr.view f) Expr.unnumbered (unary n) (unary m)
  suffixes : ∀ target target', target'.unnumbered = target.view f →
    Tracks f extra (Expr.view f) Expr.unnumbered (suffixes n target) (suffixes m target')
  arguments : ∀ count, Tracks f extra (List.map (Expr.view f)) (List.map Expr.unnumbered) (arguments n count) (arguments m count)
  primary : Tracks f extra (Expr.view f) Expr.unnumbered (primary n) (primary m)

variable {n m : Nat}

theorem expression_succ (ih : Expressions f extra n m) :
    Tracks f extra (Expr.view f) Expr.unnumbered (expression (n + 1)) (expression (m + 1)) := by
  unfold expression
  refine (ih.operation _).bind fun target target' same => choose view _ ?_ (.pure same)
  refine previous.bind fun equals equals' he => ih.expression.bind fun value value' hv => ?_
  split
  · next id name =>
    split
    · next id' name' =>
      simp only [Expr.map, Expr.read.injEq, true_and, id_eq] at same
      exact freshId.bind fun _ _ _ => .pure (by simp [Expr.map, same, hv])
    · next other => exact absurd same (by cases target' <;> simp_all [Expr.map])
  · next other =>
    split
    · next id' name' => exact absurd same (by cases target <;> simp_all [Expr.map])
    · exact (report he _).bind fun _ _ _ => .pure same

omit view in
theorem operation_succ (ih : Expressions f extra n m) (tiers : List Tier) :
    Tracks f extra (Expr.view f) Expr.unnumbered (operation (n + 1) tiers) (operation (m + 1) tiers) := by
  cases tiers with
  | nil => exact ih.unary
  | cons tier tighter => exact (ih.operation tighter).bind fun left left' => ih.operationRest tier tighter left left'

theorem operationRest_succ (ih : Expressions f extra n m) (tier : Tier) (tighter : List Tier) (left left' : Expr)
    (hl : left'.unnumbered = left.view f) :
    Tracks f extra (Expr.view f) Expr.unnumbered (operationRest (n + 1) tier tighter left)
      (operationRest (m + 1) tier tighter left') := by
  unfold operationRest
  refine (acceptAny view _).bind fun seen _ h => ?_
  cases h
  cases seen with
  | false => exact .pure hl
  | true =>
    refine previous.bind fun operator operator' ho => (ih.operation tighter).bind fun right right' hr => ?_
    refine ih.operationRest tier tighter _ _ ?_
    unfold Tier.node
    split <;> simp [Expr.map, hl, ho, hr]

theorem unary_succ (ih : Expressions f extra n m) :
    Tracks f extra (Expr.view f) Expr.unnumbered (unary (n + 1)) (unary (m + 1)) := by
  unfold unary
  refine (acceptAny view _).bind fun seen _ h => ?_
  cases h
  cases seen with
  | false => exact ih.primary.bind fun callee callee' => ih.suffixes callee callee'
  | true =>
    refine previous.bind fun operator operator' ho => ih.unary.bind fun operand operand' same => .pure ?_
    simp [Expr.map, ho, same]

theorem suffixes_succ (ih : Expressions f extra n m) (target target' : Expr) (ht : target'.unnumbered = target.view f) :
    Tracks f extra (Expr.view f) Expr.unnumbered (suffixes (n + 1) target) (suffixes (m + 1) target') := by
  unfold suffixes
  refine choose view _ ?_ (choose view _ ?_ (.pure ht))
  · refine ((ih.arguments 1).unlessSees view _ rfl).bind fun es es' hes => (expect view _).bind fun _ _ _ => ?_
    refine previous.bind fun paren paren' hp => ih.suffixes _ _ ?_
    simpa [Expr.map, ht, hp] using hes
  · refine previous.bind fun bracket bracket' hb => ih.expression.bind fun place place' hp => ?_
    refine (expect view _).bind fun _ _ _ => ih.suffixes _ _ ?_
    simp [Expr.map, ht, hb, hp]

theorem arguments_succ (ih : Expressions f extra n m) (count : Nat) :
    Tracks f extra (List.map (Expr.view f)) (List.map Expr.unnumbered) (arguments (n + 1) count) (arguments (m + 1) count) := by
  unfold arguments
  refine ih.expression.bind fun e e' he => choose view _ ?_ (.pure (by simp [he]))
  refine (limit count _).bind fun _ _ _ => (ih.arguments (count + 1)).bind fun es es' hes => .pure ?_
  simp only [List.map_cons, he, hes]

omit view in
theorem atEnd : Tracks f extra id id Reader.atEnd Reader.atEnd :=
  step (fun c => (c.atEnd, c)) (fun _ => rfl) (fun _ done => done) fun _ _ _ _ hc alive => ⟨hc.atEnd alive, hc⟩

omit view in
theorem current : Tracks f extra f (fun t => t) Reader.current Reader.current :=
  step (fun c => (c.current, c)) (fun _ => rfl) (fun _ done => done) fun _ _ _ _ hc alive => ⟨hc.current alive, hc⟩

omit view in
theorem advance : Tracks f extra id id Reader.advance Reader.advance :=
  step (fun c => ((), c.advance)) (fun _ => rfl) (fun _ done => by simp [done]) fun _ _ _ _ hc alive =>
    ⟨rfl, hc.advance alive⟩

theorem primary_succ (ih : Expressions f extra n m) :
    Tracks f extra (Expr.view f) Expr.unnumbered (primary (n + 1)) (primary (m + 1)) := by
  unfold primary
  refine atEnd.bind fun done _ same => ?_
  cases same
  cases done with
  | true => exact (reportHere _).bind fun _ _ _ => .pure rfl
  | false =>
    refine current.bind fun t _ same => advance.bind fun _ _ _ => ?_
    rw [same, view.ofToken_eq]
    cases Operand.ofToken t with
    | constant value => exact .pure rfl
    | «variable» => exact freshId.bind fun _ _ _ => .pure (by simp [Expr.map])
    | group =>
      refine ih.expression.bind fun inner inner' hi => (expect view _).bind fun _ _ _ => .pure ?_
      simp [Expr.map, hi]
    | unknown fault => exact (report rfl fault).bind fun _ _ _ => .pure rfl

theorem expressions : ∀ {n m : Nat}, n ≤ m → Expressions f extra n m
  | 0, _, _ => ⟨.none, fun _ => .none, fun _ _ _ _ _ => .none, .none, fun _ _ _ => .none, fun _ => .none, .none⟩
  | _ + 1, _ + 1, le =>
    have ih := expressions (Nat.le_of_succ_le_succ le)
    ⟨expression_succ view ih, operation_succ ih, operationRest_succ view ih, unary_succ view ih,
      suffixes_succ view ih, arguments_succ view ih, primary_succ view ih⟩

theorem expression (le : n ≤ m) : Tracks f extra (Expr.view f) Expr.unnumbered (Grammar.expression n) (Grammar.expression m) :=
  (expressions view le).expression

theorem expressionUnless (le : n ≤ m) (closing : Token.Kind) :
    Tracks f extra (Option.map (Expr.view f)) (Option.map Expr.unnumbered) (expressionUnless n closing) (expressionUnless m closing) := by
  refine unlessSees view ?_ closing rfl
  exact (expression view le).map fun _ _ same => by simp [same]

theorem expressionStatement (le : n ≤ m) :
    Tracks f extra (Stmt.view f) Stmt.unnumbered (expressionStatement n) (expressionStatement m) :=
  (expression view le).bind fun _ _ same => (expect view _).bind fun _ _ _ => .pure (by simp [Stmt.map, same])

theorem printStatement (le : n ≤ m) : Tracks f extra (Stmt.view f) Stmt.unnumbered (printStatement n) (printStatement m) :=
  (expression view le).bind fun _ _ same => (expect view _).bind fun _ _ _ => .pure (by simp [Stmt.map, same])

theorem returnStatement (le : n ≤ m) : Tracks f extra (Stmt.view f) Stmt.unnumbered (returnStatement n) (returnStatement m) :=
  previous.bind fun _ _ keyword => (expressionUnless view le _).bind fun _ _ same =>
    (expect view _).bind fun _ _ _ => .pure (by simp [Stmt.map, keyword, same])

theorem variableDeclaration (le : n ≤ m) :
    Tracks f extra (Stmt.view f) Stmt.unnumbered (variableDeclaration n) (variableDeclaration m) := by
  refine (expect view _).bind fun _ _ _ => previous.bind fun _ _ name => ?_
  have initial : Tracks f extra (Option.map (Expr.view f)) (Option.map Expr.unnumbered) (some <$> Grammar.expression n)
      (some <$> Grammar.expression m) := (expression view le).map fun _ _ same => by simp [same]
  refine (initial.ifAccepted view _ rfl).bind fun _ _ same => (expect view _).bind fun _ _ _ => .pure ?_
  simp [Stmt.map, name, same]

theorem forInitial (le : n ≤ m) : Tracks f extra (Option.map (Stmt.view f)) (Option.map Stmt.unnumbered) (forInitial n) (forInitial m) := by
  refine choose view _ (.pure rfl) (choose view _ ?_ ?_)
  · exact (variableDeclaration view le).map fun _ _ same => by simp [same]
  · exact (expressionStatement view le).map fun _ _ same => by simp [same]

theorem parameters (le : n ≤ m) (count : Nat) :
    Tracks f extra (List.map f) (fun names => names) (parameters n count) (parameters m count) := by
  induction n generalizing m count with
  | zero => exact .none
  | succ n ih =>
    obtain ⟨m, rfl⟩ : ∃ k, m = k + 1 := ⟨m - 1, by omega⟩
    refine (limit count _).bind fun _ _ _ => (expect view _).bind fun _ _ _ => previous.bind fun _ _ name => ?_
    refine choose view _ ?_ (.pure (by simp [name]))
    exact (ih (by omega) (count + 1)).bind fun _ _ names => .pure (by simp [name, names])

structure Statements (f : Token → Token) (extra : List Token) (n m : Nat) : Prop where
  declaration : Tracks f extra (Option.map (Stmt.view f)) (Option.map Stmt.unnumbered) (declaration n) (declaration m)
  anyDeclaration : Tracks f extra (Stmt.view f) Stmt.unnumbered (anyDeclaration n) (anyDeclaration m)
  functionDeclaration : Tracks f extra (Stmt.view f) Stmt.unnumbered (functionDeclaration n) (functionDeclaration m)
  statement : Tracks f extra (Stmt.view f) Stmt.unnumbered (statement n) (statement m)
  ifStatement : Tracks f extra (Stmt.view f) Stmt.unnumbered (ifStatement n) (ifStatement m)
  whileStatement : Tracks f extra (Stmt.view f) Stmt.unnumbered (whileStatement n) (whileStatement m)
  forStatement : Tracks f extra (Stmt.view f) Stmt.unnumbered (forStatement n) (forStatement m)
  block : Tracks f extra (List.map (Stmt.view f)) (List.map Stmt.unnumbered) (block n) (block m)
  declarations : ∀ nested, Tracks f extra (List.map (Stmt.view f)) (List.map Stmt.unnumbered) (declarations n nested) (declarations m nested)

theorem declaration_succ (ih : Statements f extra n m) :
    Tracks f extra (Option.map (Stmt.view f)) (Option.map Stmt.unnumbered) (declaration (n + 1)) (declaration (m + 1)) := by
  intro c a e run
  rw [Grammar.declaration_succ] at run
  obtain ⟨stmt, d, own, rest⟩ := Outcome.andThen_eq_some.1 run
  cases rest
  obtain ⟨shrinks, mirrors⟩ := ih.anyDeclaration _ stmt d own
  have ends (done : d.rest = []) : (d.conclude c.history).rest = [] := by
    have := d.rest_conclude_suffix c.history
    rwa [done, List.suffix_nil] at this
  refine ⟨fun done => ends (shrinks done), fun base base' c' hc alive => ?_⟩
  have begun : Mirror f extra [] [] { c with history := [] } { c' with history := [] } :=
    { hc with history := ⟨[], rfl, rfl⟩ }
  obtain ⟨stmt', d', run', same, hd⟩ := mirrors [] [] _ begun fun done => alive (ends done)
  refine ⟨_, _, by rw [Grammar.declaration_succ, run']; rfl, ?_, hc.conclude view hd alive⟩
  rw [hd.recovering]
  split <;> simp [same]

theorem anyDeclaration_succ (le : n ≤ m) (ih : Statements f extra n m) :
    Tracks f extra (Stmt.view f) Stmt.unnumbered (anyDeclaration (n + 1)) (anyDeclaration (m + 1)) := by
  unfold anyDeclaration
  exact choose view _ (variableDeclaration view le) (choose view _ ih.functionDeclaration ih.statement)

theorem functionDeclaration_succ (le : n ≤ m) (ih : Statements f extra n m) :
    Tracks f extra (Stmt.view f) Stmt.unnumbered (functionDeclaration (n + 1)) (functionDeclaration (m + 1)) := by
  unfold functionDeclaration
  refine (expect view _).bind fun _ _ _ => previous.bind fun _ _ name => (expect view _).bind fun _ _ _ => ?_
  refine ((parameters view le 0).unlessSees view _ rfl).bind fun _ _ names => (expect view _).bind fun _ _ _ => ?_
  refine (expect view _).bind fun _ _ _ => ih.block.bind fun _ _ body => .pure ?_
  simpa [Stmt.map, name, names] using body

theorem statement_succ (le : n ≤ m) (ih : Statements f extra n m) :
    Tracks f extra (Stmt.view f) Stmt.unnumbered (statement (n + 1)) (statement (m + 1)) := by
  unfold statement
  refine choose view _ (printStatement view le) (choose view _ (returnStatement view le) ?_)
  refine choose view _ ih.ifStatement (choose view _ ih.whileStatement (choose view _ ih.forStatement ?_))
  refine choose view _ (ih.block.bind fun _ _ body => .pure ?_) (expressionStatement view le)
  simpa [Stmt.map] using body

theorem ifStatement_succ (le : n ≤ m) (ih : Statements f extra n m) :
    Tracks f extra (Stmt.view f) Stmt.unnumbered (ifStatement (n + 1)) (ifStatement (m + 1)) := by
  unfold ifStatement
  refine (expect view _).bind fun _ _ _ => (expression view le).bind fun _ _ condition => ?_
  refine (expect view _).bind fun _ _ _ => ih.statement.bind fun _ _ yes => ?_
  refine choose view _ (ih.statement.bind fun _ _ no => .pure ?_) (.pure ?_)
  · simp [Stmt.map, condition, yes, no]
  · simp [Stmt.map, condition, yes]

theorem whileStatement_succ (le : n ≤ m) (ih : Statements f extra n m) :
    Tracks f extra (Stmt.view f) Stmt.unnumbered (whileStatement (n + 1)) (whileStatement (m + 1)) := by
  unfold whileStatement
  refine (expect view _).bind fun _ _ _ => (expression view le).bind fun _ _ condition => ?_
  refine (expect view _).bind fun _ _ _ => ih.statement.bind fun _ _ body => .pure ?_
  simp [Stmt.map, condition, body]

theorem forStatement_succ (le : n ≤ m) (ih : Statements f extra n m) :
    Tracks f extra (Stmt.view f) Stmt.unnumbered (forStatement (n + 1)) (forStatement (m + 1)) := by
  unfold forStatement
  refine (expect view _).bind fun _ _ _ => (forInitial view le).bind fun _ _ initial => ?_
  refine (expressionUnless view le _).bind fun _ _ condition => (expect view _).bind fun _ _ _ => ?_
  refine (expressionUnless view le _).bind fun _ _ increment => (expect view _).bind fun _ _ _ => ?_
  refine ih.statement.bind fun _ _ body => .pure ?_
  simp only [Stmt.view, Stmt.unnumbered, Stmt.map_forLoop] at *
  rw [initial, condition, increment, body]

omit view in
theorem setDepth (k : Nat → Nat) :
    Tracks f extra id id (modify fun c => { c with depth := k c.depth } : Reader Cursor Unit)
      (modify fun c => { c with depth := k c.depth }) :=
  step (fun c => ((), { c with depth := k c.depth })) (fun _ => rfl) (fun _ done => done) fun _ _ _ _ hc _ =>
    ⟨rfl, { hc with depth := congrArg k hc.depth }⟩

theorem block_succ (ih : Statements f extra n m) :
    Tracks f extra (List.map (Stmt.view f)) (List.map Stmt.unnumbered) (block (n + 1)) (block (m + 1)) := by
  unfold block
  refine (setDepth (· + 1)).bind fun _ _ _ => (ih.declarations true).bind fun _ _ body => ?_
  exact (setDepth (· - 1)).bind fun _ _ _ => (expect view _).bind fun _ _ _ => .pure body

theorem declarations_succ (ih : Statements f extra n m) (nested : Bool) :
    Tracks f extra (List.map (Stmt.view f)) (List.map Stmt.unnumbered) (declarations (n + 1) nested) (declarations (m + 1) nested) := by
  unfold declarations
  refine atEnd.bind fun done _ same => (sees view _).bind fun closing _ same' => ?_
  cases same
  cases same'
  split
  · exact .pure rfl
  · refine ih.declaration.bind fun stmt? stmt?' same => ?_
    cases stmt? with
    | none =>
      obtain rfl : stmt?' = Option.none := by simpa using same
      exact ih.declarations nested
    | some stmt =>
      obtain ⟨stmt', rfl, head⟩ := Option.map_eq_some_iff.1 same
      exact (ih.declarations nested).bind fun _ _ rest => .pure (by simp only [List.map_cons, head, rest])

theorem statements : ∀ {n m : Nat}, n ≤ m → Statements f extra n m
  | 0, _, _ => ⟨.none, .none, .none, .none, .none, .none, .none, .none, fun _ => .none⟩
  | _ + 1, _ + 1, le =>
    have le := Nat.le_of_succ_le_succ le
    have ih := statements le
    ⟨declaration_succ view ih, anyDeclaration_succ view le ih, functionDeclaration_succ view le ih,
      statement_succ view le ih, ifStatement_succ view le ih, whileStatement_succ view le ih,
      forStatement_succ view le ih, block_succ view ih, declarations_succ view ih⟩

end Tracks

section Start

variable {c : Cursor} (left : c.rest ≠ []) (t : Token)

include left

theorem advance_previous : ({ c with previous := t } : Cursor).advance = c.advance := by
  obtain ⟨head, rest, hr⟩ := List.exists_cons_of_ne_nil left
  simp only [Cursor.advance, hr]

theorem primary_previous (n : Nat) : primary n { c with previous := t } = primary n c := by
  cases n with
  | zero => rfl
  | succ n =>
    rw [primary_succ, primary_succ, advance_previous left]
    dsimp only
    split
    · next done => exact absurd done left
    · rfl

theorem unary_previous (n : Nat) : unary n { c with previous := t } = unary n c := by
  cases n with
  | zero => rfl
  | succ n =>
    rw [unary_succ, unary_succ, advance_previous left, primary_previous left]
    rfl

theorem operation_previous (n : Nat) (tiers : List Tier) :
    operation n tiers { c with previous := t } = operation n tiers c := by
  induction n generalizing tiers with
  | zero => rfl
  | succ n ih =>
    cases tiers with
    | nil => exact unary_previous left t n
    | cons tier tighter => rw [operation_cons, operation_cons, ih]

theorem expression_previous (n : Nat) : expression n { c with previous := t } = expression n c := by
  cases n with
  | zero => rfl
  | succ n => rw [expression_succ, expression_succ, operation_previous left]

theorem statement_previous (n : Nat) : statement n { c with previous := t } = statement n c := by
  cases n with
  | zero => rfl
  | succ n =>
    rw [statement_succ, statement_succ, advance_previous left, expressionStatement_run, expressionStatement_run,
      expression_previous left]
    rfl

theorem declaration_previous (n : Nat) : declaration n { c with previous := t } = declaration n c := by
  obtain _ | n := n
  · rfl
  have inner : anyDeclaration n { c with previous := t, history := [] } = anyDeclaration n { c with history := [] } := by
    have left : ({ c with history := [] } : Cursor).rest ≠ [] := left
    obtain _ | n := n
    · rfl
    · rw [anyDeclaration_succ, anyDeclaration_succ, ← statement_previous left t, ← advance_previous left t]
      rfl
  rw [declaration_succ, declaration_succ, inner]

theorem declarations_previous (n : Nat) : declarations n false { c with previous := t } = declarations n false c := by
  obtain _ | n := n
  · rfl
  have goes : c.atEnd = false := by simpa [Cursor.atEnd] using left
  rw [declarations_succ, declarations_succ, declaration_previous left]
  simp only [Cursor.atEnd] at goes
  simp [Cursor.atEnd, goes]

end Start

theorem declarations_mirror {f : Token → Token} (view : View f) {n m : Nat} (le : n ≤ m) {c c' : Cursor}
    {program : Program} {d : Cursor} (run : declarations n false c = some (program, d))
    (same : Mirror f [] c.history c'.history c { c' with previous := f c.previous }) :
    ∃ program' d', declarations m false c' = some (program', d') ∧
      program'.map Stmt.unnumbered = program.map (Stmt.view f) ∧
      ∃ new, d.history = new ++ c.history ∧ d'.history = new.map (Episode.map f) ++ c'.history := by
  have alive (c : Cursor) : c.Alive [] := fun _ => rfl
  by_cases left : c.rest = []
  · obtain ⟨n, rfl⟩ : ∃ k, n = k + 1 := by
      cases n with
      | zero => cases run
      | succ n => exact ⟨n, rfl⟩
    obtain ⟨m, rfl⟩ : ∃ k, m = k + 1 := ⟨m - 1, by omega⟩
    have left' : c'.rest = [] := same.rest_nil (alive _) left
    rw [declarations_succ, if_pos (by simp [left])] at run
    cases run
    exact ⟨[], c', by rw [declarations_succ, if_pos (by simp [left'])], rfl, [], rfl, rfl⟩
  · have rest : c'.rest = c.rest.map f := by simpa using same.rest
    have left' : c'.rest ≠ [] := by simpa [rest] using left
    obtain ⟨-, mirrors⟩ := (Tracks.statements view le).declarations false _ _ _ run
    obtain ⟨program', d', run', views, hd⟩ := mirrors _ _ _ same (alive d)
    rw [declarations_previous left'] at run'
    exact ⟨program', d', run', views, hd.history⟩

end Scriptlet.Grammar
