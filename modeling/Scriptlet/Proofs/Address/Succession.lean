import Scriptlet.Proofs.Address.Record

namespace Scriptlet

namespace Scoping

structure Beside (base : Addresses) (s t : Scoping) : Prop where
  scopes : t.scopes = s.scopes
  inFunction : t.inFunction = s.inFunction
  addresses : ∀ id : UseId, s.addresses[id]? = t.addresses[id]?.or base[id]?

def Keeps (uses : List Use) (t t' : Scoping) : Prop :=
  ∀ id, (∀ u ∈ uses, u.id ≠ id) → t'.addresses[id]? = t.addresses[id]?

/-- The ends of two walks beside each other, the second of which began at `t`. -/
inductive Parallel (base : Addresses) (uses : List Use) (t : Scoping) :
    EStateM.Result (Located Scope.Fault) Scoping Unit → EStateM.Result (Located Scope.Fault) Scoping Unit → Prop
  | ok {s' t' : Scoping} (beside : Beside base s' t') (keeps : Keeps uses t t') :
      Parallel base uses t (.ok () s') (.ok () t')
  | error (breach : Located Scope.Fault) {s' t' : Scoping} (beside : Beside base s' t') (keeps : Keeps uses t t') :
      Parallel base uses t (.error breach s') (.error breach t')

def Blind (walk : Walk Unit) (uses : List Use) : Prop :=
  ∀ base s t, Beside base s t → Parallel base uses t (walk s) (walk t)

namespace Keeps

variable {us vs : List Use} {t u v : Scoping}

theorem of_addresses (same : u.addresses = t.addresses) : Keeps us t u := fun _ _ => by rw [same]

theorem append (h : Keeps us t u) (k : Keeps vs u v) : Keeps (us ++ vs) t v := by
  intro id apart
  obtain ⟨first, second⟩ := List.forall_mem_append.1 apart
  rw [k id second, h id first]

theorem left (h : Keeps us t u) (vs : List Use) : Keeps (us ++ vs) t u :=
  h.append (of_addresses rfl)

end Keeps

namespace Blind

variable {x y : Walk Unit} {us vs : List Use}

theorem bind (hx : Blind x us) (hy : Blind y vs) : Blind (x >>= fun _ => y) (us ++ vs) := by
  intro base s t beside
  change Parallel base (us ++ vs) t (EStateM.bind x (fun _ => y) s) (EStateM.bind x (fun _ => y) t)
  have first := hx base s t beside
  unfold EStateM.bind
  generalize x s = r, x t = r' at first ⊢
  cases first with
  | error breach beside keeps => exact .error breach beside (keeps.left vs)
  | @ok s' t' beside keeps =>
    dsimp only
    have second := hy base s' t' beside
    generalize y s' = r, y t' = r' at second ⊢
    cases second with
    | ok beside later => exact .ok beside (keeps.append later)
    | error breach beside later => exact .error breach beside (keeps.append later)

theorem step (act : Scoping → Scoping) (hx : ∀ s, x s = .ok () (act s)) (alone : ∀ s, (act s).addresses = s.addresses)
    (same : ∀ s t : Scoping, t.scopes = s.scopes → t.inFunction = s.inFunction →
      (act t).scopes = (act s).scopes ∧ (act t).inFunction = (act s).inFunction) : Blind x [] := by
  intro base s t beside
  obtain ⟨scopes, inFunction⟩ := same s t beside.scopes beside.inFunction
  rw [hx, hx]
  refine .ok ⟨scopes, inFunction, fun id => ?_⟩ (.of_addresses (alone t))
  rw [alone, alone, beside.addresses]

theorem skip : Blind (pure ()) [] :=
  step id (fun _ => rfl) (fun _ => rfl) fun _ _ scopes inFunction => ⟨scopes, inFunction⟩

theorem throws (breach : Located Scope.Fault) (uses : List Use) : Blind (throw breach) uses :=
  fun _ _ _ beside => .error breach beside (.of_addresses rfl)

theorem get {f : Scoping → Walk Unit}
    (looks : ∀ s t : Scoping, t.scopes = s.scopes → t.inFunction = s.inFunction → f t = f s)
    (h : ∀ s, Blind (f s) us) : Blind (MonadState.get >>= f) us := by
  intro base s t beside
  change Parallel base us t (f s s) (f t t)
  rw [looks s t beside.scopes beside.inFunction]
  exact h s base s t beside

end Blind

theorem isPending_congr {s t : Scoping} (scopes : t.scopes = s.scopes) (name : String) :
    t.isPending name = s.isPending name := by
  rw [isPending, scopes, isPending]

theorem record_blind (u : Use) : Blind (record u.id u.name) [u] := by
  intro base s t beside
  change Parallel base [u] t (.ok () _) (.ok () _)
  dsimp only
  rw [beside.scopes]
  cases distance? s.scopes u.name.lexeme with
  | none => exact .ok beside (.of_addresses rfl)
  | some distance =>
    dsimp only
    refine .ok ⟨rfl, beside.inFunction, fun id => ?_⟩ fun id apart => ?_
    · simp only [Std.TreeMap.getElem?_insert]
      split
      · rfl
      · exact beside.addresses id
    · simp [Std.TreeMap.getElem?_insert, apart u List.mem_cons_self]

mutual

theorem visit_blind (e : Expr) : Blind (visit e) e.uses := by
  match e with
  | .constant value => exact .skip
  | .read id name =>
    unfold visit
    refine .get (fun s t scopes _ => by rw [isPending_congr scopes]) fun s => ?_
    split
    · exact .throws _ _
    · exact record_blind ⟨id, name, false⟩
  | .assign id name value =>
    unfold visit
    exact (visit_blind value).bind (record_blind ⟨id, name, true⟩)
  | .binary _ left right | .logical _ left right =>
    unfold visit
    exact (visit_blind left).bind (visit_blind right)
  | .unary _ operand =>
    unfold visit
    exact visit_blind operand
  | .group inner =>
    unfold visit
    exact visit_blind inner
  | .call callee _ arguments =>
    unfold visit
    exact (visit_blind callee).bind (visitAll_blind arguments)
  | .index target _ place =>
    unfold visit
    exact (visit_blind target).bind (visit_blind place)

theorem visitAll_blind (es : List Expr) : Blind (visitAll es) (Expr.usesIn es) := by
  match es with
  | [] => exact .skip
  | e :: rest =>
    unfold visitAll
    exact (visit_blind e).bind (visitAll_blind rest)

end

theorem visit?_blind (e : Option Expr) : Blind (visit? e) ((e.map Expr.uses).getD []) := by
  cases e with
  | none => exact .skip
  | some e => exact visit_blind e

theorem declare_blind (name : Token) : Blind (declare name) [] := by
  unfold declare
  refine .get (fun s t scopes _ => by rw [scopes]) fun s => ?_
  cases s.scopes with
  | nil => exact .skip
  | cons scope outer =>
    dsimp only
    split
    · exact .throws _ _
    · exact .step _ (fun _ => rfl) (fun _ => rfl) fun _ _ _ inFunction => ⟨rfl, inFunction⟩

theorem settle_blind : Blind settle [] := by
  refine .step _ (fun _ => rfl) (fun s => ?_) fun s t scopes inFunction => ?_
  · split <;> rfl
  · rw [scopes]
    split <;> simp_all

theorem openScope_blind : Blind openScope [] :=
  .step _ (fun _ => rfl) (fun _ => rfl) fun _ _ scopes inFunction => ⟨congrArg (.empty :: ·) scopes, inFunction⟩

theorem closeScope_blind : Blind closeScope [] :=
  .step _ (fun _ => rfl) (fun _ => rfl) fun _ _ scopes inFunction => ⟨congrArg List.tail scopes, inFunction⟩

theorem inFunction_blind (inFunction : Bool) : Blind (modify fun s => { s with inFunction }) [] :=
  .step _ (fun _ => rfl) (fun _ => rfl) fun _ _ scopes _ => ⟨scopes, rfl⟩

theorem declareParameters_blind (parameters : List Token) : Blind (declareParameters parameters) [] := by
  induction parameters with
  | nil => exact .skip
  | cons name rest ih =>
    unfold declareParameters
    exact (declare_blind name).bind (settle_blind.bind ih)

mutual

theorem walk_blind (stmt : Stmt) : Blind (walk stmt) stmt.uses := by
  match stmt with
  | .expression e | .print e => exact visit_blind e
  | .declare name initial =>
    unfold walk
    simpa [Stmt.uses] using (declare_blind name).bind ((visit?_blind initial).bind settle_blind)
  | .block body =>
    unfold walk
    simpa [Stmt.uses] using openScope_blind.bind ((walkAll_blind body).bind closeScope_blind)
  | .ifThen condition yes =>
    unfold walk
    exact (visit_blind condition).bind (walk_blind yes)
  | .ifElse condition yes no =>
    unfold walk
    simpa [Stmt.uses] using (visit_blind condition).bind ((walk_blind yes).bind (walk_blind no))
  | .loop condition body =>
    unfold walk
    exact (visit_blind condition).bind (walk_blind body)
  | .function name parameters body =>
    unfold walk
    have body := (walkAll_blind body).bind closeScope_blind
    have scope := openScope_blind.bind ((declareParameters_blind parameters).bind body)
    have inside : Blind _ _ := .get (fun s t _ inFunction => by rw [inFunction]) fun s =>
      (inFunction_blind true).bind (scope.bind (inFunction_blind s.inFunction))
    simpa [Stmt.uses, bind_assoc] using (declare_blind name).bind (settle_blind.bind inside)
  | .leave keyword value =>
    unfold walk
    refine .get (fun s t _ inFunction => by rw [inFunction]) fun s => ?_
    split
    · exact visit?_blind value
    · exact .throws _ _

theorem walkAll_blind (stmts : List Stmt) : Blind (walkAll stmts) (Stmt.usesIn stmts) := by
  match stmts with
  | [] => exact .skip
  | stmt :: rest =>
    unfold walkAll
    exact (walk_blind stmt).bind (walkAll_blind rest)

end

/-- If a walk ends well, it does so inside of the scopes where it began, of which only the innermost can have changed. -/
def Level (walk : Walk Unit) : Prop :=
  ∀ s t, walk s = .ok () t →
    t.scopes.length = s.scopes.length ∧ t.scopes.tail = s.scopes.tail ∧ t.inFunction = s.inFunction

namespace Level

variable {x y : Walk Unit}

theorem bind (hx : Level x) (hy : Level y) : Level (x >>= fun _ => y) := by
  intro s u run
  obtain ⟨_, t, first, second⟩ := bind_eq_ok.1 run
  obtain ⟨length, tail, inFunction⟩ := hx s t first
  obtain ⟨length', tail', inFunction'⟩ := hy t u second
  exact ⟨length'.trans length, tail'.trans tail, inFunction'.trans inFunction⟩

theorem get {f : Scoping → Walk Unit} (h : ∀ s, Level (f s)) : Level (MonadState.get >>= f) :=
  fun s => h s s

theorem skip : Level (pure ()) := by
  rintro s t ⟨⟩
  exact ⟨rfl, rfl, rfl⟩

theorem throws (breach : Located Scope.Fault) : Level (throw breach) := by
  rintro s t ⟨⟩

theorem inScope (h : Level x) : Level (openScope >>= fun _ => x >>= fun _ => closeScope) := by
  intro s v run
  obtain ⟨_, t, ⟨⟩, run⟩ := bind_eq_ok.1 run
  obtain ⟨_, u, inner, ⟨⟩⟩ := bind_eq_ok.1 run
  obtain ⟨-, tail, inFunction⟩ := h _ u inner
  have scopes : u.scopes.tail = s.scopes := tail
  exact ⟨congrArg List.length scopes, congrArg List.tail scopes, inFunction⟩

theorem inFunction (h : Level x) :
    Level (MonadState.get >>= fun s => (modify fun s => { s with inFunction := true }) >>= fun _ =>
      x >>= fun _ => modify fun t => { t with inFunction := s.inFunction }) := by
  intro s v run
  obtain ⟨_, _, ⟨⟩, run⟩ := bind_eq_ok.1 run
  obtain ⟨_, t, ⟨⟩, run⟩ := bind_eq_ok.1 run
  obtain ⟨_, u, inner, ⟨⟩⟩ := bind_eq_ok.1 run
  obtain ⟨length, tail, -⟩ := h _ u inner
  exact ⟨length, tail, rfl⟩

end Level

theorem record_level (id : UseId) (name : Token) : Level (record id name) := by
  rintro s t ⟨⟩
  dsimp only
  split <;> exact ⟨rfl, rfl, rfl⟩

mutual

theorem visit_level (e : Expr) : Level (visit e) := by
  match e with
  | .constant value => exact .skip
  | .read id name =>
    unfold visit
    refine .get fun s => ?_
    split
    · exact .throws _
    · exact record_level id name
  | .assign id name value =>
    unfold visit
    exact (visit_level value).bind (record_level id name)
  | .binary _ left right | .logical _ left right =>
    unfold visit
    exact (visit_level left).bind (visit_level right)
  | .unary _ operand =>
    unfold visit
    exact visit_level operand
  | .group inner =>
    unfold visit
    exact visit_level inner
  | .call callee _ arguments =>
    unfold visit
    exact (visit_level callee).bind (visitAll_level arguments)
  | .index target _ place =>
    unfold visit
    exact (visit_level target).bind (visit_level place)

theorem visitAll_level (es : List Expr) : Level (visitAll es) := by
  match es with
  | [] => exact .skip
  | e :: rest =>
    unfold visitAll
    exact (visit_level e).bind (visitAll_level rest)

end

theorem visit?_level (e : Option Expr) : Level (visit? e) := by
  cases e with
  | none => exact .skip
  | some e => exact visit_level e

theorem declare_level (name : Token) : Level (declare name) := by
  intro s t run
  obtain ⟨_, _, ⟨⟩, run⟩ := bind_eq_ok.1 run
  cases scopes : s.scopes with
  | nil =>
    rw [scopes] at run
    cases run
    simp [scopes]
  | cons scope outer =>
    rw [scopes] at run
    dsimp only at run
    split at run
    · cases run
    · cases run
      simp

theorem settle_level : Level settle := by
  rintro s t ⟨⟩
  dsimp only
  split <;> simp_all

theorem declareParameters_level (parameters : List Token) : Level (declareParameters parameters) := by
  induction parameters with
  | nil => exact .skip
  | cons name rest ih =>
    unfold declareParameters
    exact (declare_level name).bind (settle_level.bind ih)

mutual

theorem walk_level (stmt : Stmt) : Level (walk stmt) := by
  match stmt with
  | .expression e | .print e => exact visit_level e
  | .declare name initial =>
    unfold walk
    exact (declare_level name).bind ((visit?_level initial).bind settle_level)
  | .block body =>
    unfold walk
    exact (walkAll_level body).inScope
  | .ifThen condition yes =>
    unfold walk
    exact (visit_level condition).bind (walk_level yes)
  | .ifElse condition yes no =>
    unfold walk
    exact (visit_level condition).bind ((walk_level yes).bind (walk_level no))
  | .loop condition body =>
    unfold walk
    exact (visit_level condition).bind (walk_level body)
  | .function name parameters body =>
    unfold walk
    have scope := ((declareParameters_level parameters).bind (walkAll_level body)).inScope.inFunction
    simpa [bind_assoc] using (declare_level name).bind (settle_level.bind scope)
  | .leave keyword value =>
    unfold walk
    refine .get fun s => ?_
    split
    · exact visit?_level value
    · exact .throws _

theorem walkAll_level (stmts : List Stmt) : Level (walkAll stmts) := by
  match stmts with
  | [] => exact .skip
  | stmt :: rest =>
    unfold walkAll
    exact (walk_level stmt).bind (walkAll_level rest)

end

def Outside (s : Scoping) : Prop :=
  s.scopes = [] ∧ s.inFunction = false

theorem Outside.resolve {s : Scoping} (outside : s.Outside) (program : Program) : (s.resolve program).1.Outside := by
  unfold Scoping.resolve
  split
  · next t run =>
    obtain ⟨length, -, inFunction⟩ := walkAll_level program s t run
    rw [outside.1] at length
    exact ⟨List.length_eq_zero_iff.1 length, inFunction.trans outside.2⟩
  · exact ⟨rfl, rfl⟩

theorem Outside.resolve_beside {s : Scoping} (outside : s.Outside) (program : Program) :
    (s.resolve program).2 = (start.resolve program).2 ∧
      ∀ id : UseId, (s.resolve program).1.addresses[id]? = (start.resolve program).1.addresses[id]?.or s.addresses[id]? ∧
        ((∀ u ∈ program.uses, u.id ≠ id) → (start.resolve program).1.addresses[id]? = none) := by
  have beside : Beside s.addresses s start := by
    refine ⟨outside.1.symm, outside.2.symm, fun id => ?_⟩
    exact (Option.none_or ..).symm
  have walked := walkAll_blind program s.addresses s start beside
  have fresh {t : Scoping} (keeps : Keeps program.uses start t) (id : UseId) (apart : ∀ u ∈ program.uses, u.id ≠ id) :
      t.addresses[id]? = none :=
    (keeps id apart).trans Std.TreeMap.getElem?_emptyc
  unfold Scoping.resolve EStateM.run
  generalize walkAll program s = r, walkAll program start = r' at walked ⊢
  cases walked with
  | ok beside keeps => exact ⟨rfl, fun id => ⟨beside.addresses id, fresh keeps id⟩⟩
  | error breach beside keeps => exact ⟨rfl, fun id => ⟨beside.addresses id, fresh keeps id⟩⟩

def resolveAll (s : Scoping) (programs : List Program) : Scoping :=
  programs.foldl (fun s program => (s.resolve program).1) s

theorem resolveAll_append (s : Scoping) (programs more : List Program) :
    s.resolveAll (programs ++ more) = (s.resolveAll programs).resolveAll more :=
  List.foldl_append

theorem Outside.resolveAll {s : Scoping} (outside : s.Outside) (programs : List Program) :
    (s.resolveAll programs).Outside := by
  induction programs generalizing s with
  | nil => exact outside
  | cons program rest ih => exact ih (outside.resolve program)

theorem Outside.getElem?_resolveAll {s : Scoping} (outside : s.Outside) {programs : List Program} {id : UseId}
    (unused : ∀ program ∈ programs, ∀ u ∈ program.uses, u.id ≠ id) :
    (s.resolveAll programs).addresses[id]? = s.addresses[id]? := by
  induction programs generalizing s with
  | nil => rfl
  | cons program rest ih =>
    obtain ⟨here, later⟩ := List.forall_mem_cons.1 unused
    obtain ⟨same, none⟩ := (outside.resolve_beside program).2 id
    change ((s.resolve program).1.resolveAll rest).addresses[id]? = s.addresses[id]?
    rw [ih (outside.resolve program) later, same, none here, Option.none_or]

/-- Programs whose uses all have numbers of their own are independent of each other. Each of them starts outside of all
scopes and functions, has the same breach as by itself, or none, and records the same addresses, which the programs after it
leave as they are. -/
theorem resolve_independent {programs : List Program} (distinct : ((programs.flatMap Program.uses).map Use.id).Nodup)
    {before behind : List Program} {program : Program} (split : programs = before ++ program :: behind) :
    let s := start.resolveAll before
    let found := s.resolve program
    let alone := start.resolve program
    (s.scopes = [] ∧ s.inFunction = false) ∧ found.2 = alone.2 ∧
      (∀ u ∈ program.uses, s.addresses[u.id]? = none ∧ found.1.addresses[u.id]? = alone.1.addresses[u.id]? ∧
        (start.resolveAll programs).addresses[u.id]? = alone.1.addresses[u.id]?) ∧
      ∀ id : UseId, (∀ u ∈ program.uses, u.id ≠ id) →
        found.1.addresses[id]? = s.addresses[id]? ∧ alone.1.addresses[id]? = none := by
  intro s found alone
  subst split
  have first : start.Outside := ⟨rfl, rfl⟩
  have outside : s.Outside := first.resolveAll before
  obtain ⟨verdict, recorded⟩ := outside.resolve_beside program
  refine ⟨outside, verdict, fun u used => ?_, fun id unused => ?_⟩
  · simp only [List.flatMap_append, List.flatMap_cons, List.map_append, List.nodup_append] at distinct
    obtain ⟨-, ⟨-, -, after⟩, apart⟩ := distinct
    have used := List.mem_map_of_mem (f := Use.id) used
    have unused : s.addresses[u.id]? = none := by
      refine (first.getElem?_resolveAll fun other mem v here same => ?_).trans Std.TreeMap.getElem?_emptyc
      have there := List.mem_map_of_mem (f := Use.id) (List.mem_flatMap.2 ⟨other, mem, here⟩)
      exact apart v.id there u.id (List.mem_append_left _ used) same
    have same : found.1.addresses[u.id]? = alone.1.addresses[u.id]? := by
      rw [(recorded u.id).1, unused, Option.or_none]
    refine ⟨unused, same, ?_⟩
    rw [resolveAll_append]
    refine ((outside.resolve program).getElem?_resolveAll fun other mem v here same => ?_).trans same
    have there := List.mem_map_of_mem (f := Use.id) (List.mem_flatMap.2 ⟨other, mem, here⟩)
    exact after u.id used v.id there same.symm
  · obtain ⟨same, none⟩ := recorded id
    refine ⟨?_, none unused⟩
    rw [same, none unused, Option.none_or]

def unrelated : List Program :=
  [[.function (.ofName "f") [] [.block [.declare (.ofName "a") (some (.read 0 (.ofName "a")))]]],
    [.leave (.ofName "return") none],
    [.block [.declare (.ofName "a") none, .expression (.read 1 (.ofName "a"))]]]

theorem resolve_independent_unrelated :
    ((unrelated.flatMap Program.uses).map Use.id).Nodup ∧
    ((start.resolveAll (unrelated.take 1)).resolve [.leave (.ofName "return") none]).2 =
      some ⟨.ofName "return", .strayReturn⟩ ∧
    (start.resolveAll unrelated).addresses[1]? = some 0 := by
  have distinct : ((unrelated.flatMap Program.uses).map Use.id).Nodup := by decide
  obtain ⟨-, stray, -⟩ := resolve_independent distinct (show unrelated = unrelated.take 1 ++ _ :: _ from rfl)
  obtain ⟨-, -, used, -⟩ := resolve_independent distinct (show unrelated = unrelated.take 2 ++ _ :: _ from rfl)
  refine ⟨distinct, stray, ?_⟩
  exact (used ⟨1, .ofName "a", false⟩ (by simp [Stmt.usesIn, Stmt.uses, Expr.uses])).2.2

end Scoping
end Scriptlet
