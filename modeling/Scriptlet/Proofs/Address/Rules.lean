import Scriptlet.Proofs.Address.Record

namespace Scriptlet

def Use.Settled (initialises : Option String) (uses : List Use) : Prop :=
  ∀ u ∈ uses, u.assigns = false → initialises ≠ some u.name.lexeme

mutual

def Stmt.Obeys (scopes : Scopes) (inFunction : Bool) : Stmt → Prop
  | .expression _ | .print _ => True
  | .declare name initial =>
    name.lexeme ∉ scopes.innermost ∧ Use.Settled (scopes.awaited name.lexeme) ((initial.map Expr.uses).getD [])
  | .block body => ObeysIn ([] :: scopes) inFunction body
  | .ifThen _ yes => yes.Obeys scopes inFunction
  | .ifElse _ yes no => yes.Obeys scopes inFunction ∧ no.Obeys scopes inFunction
  | .loop _ body => body.Obeys scopes inFunction
  | .function name parameters body =>
    name.lexeme ∉ scopes.innermost ∧ (parameters.map Token.lexeme).Nodup ∧
      ObeysIn (Scopes.parameters parameters :: scopes.extend name.lexeme) true body
  | .leave .. => inFunction = true

def Stmt.ObeysIn (scopes : Scopes) (inFunction : Bool) : List Stmt → Prop
  | [] => True
  | stmt :: rest => stmt.Obeys scopes inFunction ∧ ObeysIn (stmt.after scopes) inFunction rest

end

def Program.Obeys (program : Program) : Prop :=
  Stmt.ObeysIn [] false program

theorem Stmt.obeysIn_append (scopes : Scopes) (inFunction : Bool) (stmts more : List Stmt) :
    Stmt.ObeysIn scopes inFunction (stmts ++ more) ↔
      Stmt.ObeysIn scopes inFunction stmts ∧ Stmt.ObeysIn (Scoping.afterAll scopes stmts) inFunction more := by
  induction stmts generalizing scopes with
  | nil => simp [Stmt.ObeysIn, Scoping.afterAll]
  | cons stmt rest ih => simp [Stmt.ObeysIn, Scoping.afterAll, ih, and_assoc]

theorem Scoping.afterAll_nil (stmts : List Stmt) : Scoping.afterAll [] stmts = [] := by
  induction stmts with
  | nil => rfl
  | cons stmt rest ih => cases stmt <;> exact ih

def Use.selfReads (initialises : Option String) (uses : List Use) : List (Located Scope.Fault) :=
  (uses.filter fun u => !u.assigns && initialises == some u.name.lexeme).map fun u => ⟨u.name, .selfInitialised⟩

def Scope.repeats (names : List String) : List Token → List (Located Scope.Fault)
  | [] => []
  | name :: rest =>
    (if name.lexeme ∈ names then [⟨name, .declaredTwice name.lexeme⟩] else []) ++ repeats (name.lexeme :: names) rest

mutual

/-- The breaches of the rules in a statement, in the order in which a walk comes to them: a declaration before its
initial value, the name of a function before its parameters, and these before its body. -/
def Stmt.breaches (scopes : Scopes) (inFunction : Bool) : Stmt → List (Located Scope.Fault)
  | .expression _ | .print _ => []
  | .declare name initial =>
    Scope.repeats scopes.innermost [name] ++
      Use.selfReads (scopes.awaited name.lexeme) ((initial.map Expr.uses).getD [])
  | .block body => breachesIn ([] :: scopes) inFunction body
  | .ifThen _ yes => yes.breaches scopes inFunction
  | .ifElse _ yes no => yes.breaches scopes inFunction ++ no.breaches scopes inFunction
  | .loop _ body => body.breaches scopes inFunction
  | .function name parameters body =>
    Scope.repeats scopes.innermost [name] ++ (Scope.repeats [] parameters ++
      breachesIn (Scopes.parameters parameters :: scopes.extend name.lexeme) true body)
  | .leave keyword _ => if inFunction then [] else [⟨keyword, .strayReturn⟩]

def Stmt.breachesIn (scopes : Scopes) (inFunction : Bool) : List Stmt → List (Located Scope.Fault)
  | [] => []
  | stmt :: rest => stmt.breaches scopes inFunction ++ breachesIn (stmt.after scopes) inFunction rest

end

def Program.breaches (program : Program) : List (Located Scope.Fault) :=
  Stmt.breachesIn [] false program

theorem Use.selfReads_append (initialises : Option String) (us vs : List Use) :
    Use.selfReads initialises (us ++ vs) = Use.selfReads initialises us ++ Use.selfReads initialises vs := by
  simp [Use.selfReads]

@[simp] theorem Use.selfReads_none (uses : List Use) : Use.selfReads none uses = [] := by
  simp [Use.selfReads]

theorem Use.selfReads_eq_nil {initialises : Option String} {uses : List Use} :
    Use.selfReads initialises uses = [] ↔ Use.Settled initialises uses := by
  simp [Use.selfReads, Use.Settled, List.filter_eq_nil_iff]

theorem Scope.repeats_eq_nil {names : List String} {tokens : List Token} :
    Scope.repeats names tokens = [] ↔ (tokens.map Token.lexeme).Nodup ∧ ∀ a ∈ tokens, a.lexeme ∉ names := by
  induction tokens generalizing names with
  | nil => simp [Scope.repeats]
  | cons name rest ih =>
    simp only [Scope.repeats, List.append_eq_nil_iff, ite_eq_right_iff, List.cons_ne_nil, imp_false, ih, List.map_cons,
      List.nodup_cons, List.mem_map, List.mem_cons, not_or, not_exists, not_and, forall_eq_or_imp]
    constructor
    · rintro ⟨fresh, distinct, others⟩
      exact ⟨⟨fun a mem => (others a mem).1, distinct⟩, fresh, fun a mem => (others a mem).2⟩
    · rintro ⟨⟨apart, distinct⟩, fresh, others⟩
      exact ⟨fresh, distinct, fun a mem => ⟨apart a mem, others a mem⟩⟩

mutual

theorem Stmt.breaches_eq_nil (scopes : Scopes) (inFunction : Bool) (stmt : Stmt) :
    stmt.breaches scopes inFunction = [] ↔ stmt.Obeys scopes inFunction := by
  match stmt with
  | .expression _ | .print _ => simp [breaches, Obeys]
  | .declare name initial => simp [breaches, Obeys, Scope.repeats_eq_nil, Use.selfReads_eq_nil]
  | .block body => exact breachesIn_eq_nil ([] :: scopes) inFunction body
  | .ifThen _ yes => exact breaches_eq_nil scopes inFunction yes
  | .ifElse _ yes no =>
    simp [breaches, Obeys, breaches_eq_nil scopes inFunction yes, breaches_eq_nil scopes inFunction no]
  | .loop _ body => exact breaches_eq_nil scopes inFunction body
  | .function name parameters body => simp [breaches, Obeys, Scope.repeats_eq_nil, breachesIn_eq_nil _ true body]
  | .leave _ _ => simp [breaches, Obeys]

theorem Stmt.breachesIn_eq_nil (scopes : Scopes) (inFunction : Bool) (stmts : List Stmt) :
    Stmt.breachesIn scopes inFunction stmts = [] ↔ Stmt.ObeysIn scopes inFunction stmts := by
  match stmts with
  | [] => simp [breachesIn, ObeysIn]
  | stmt :: rest =>
    simp [breachesIn, ObeysIn, breaches_eq_nil scopes inFunction stmt, breachesIn_eq_nil _ inFunction rest]

end

namespace Scoping

/-- The end of a walk that comes to the given breaches: it stops at the first one, if there is one. -/
def Ends (result : EStateM.Result (Located Scope.Fault) Scoping Unit) (after : List Scope) (inFunction : Bool) :
    List (Located Scope.Fault) → Prop
  | [] => ∃ t, result = .ok () t ∧ t.scopes = after ∧ t.inFunction = inFunction
  | breach :: _ => ∃ t, result = .error breach t

def Decides (walk : Walk Unit) (before after : List Scope) (inFunction : Bool)
    (breaches : List (Located Scope.Fault)) : Prop :=
  ∀ s, s.scopes = before → s.inFunction = inFunction → Ends (walk s) after inFunction breaches

namespace Decides

variable {x y : Walk Unit} {a b c : List Scope} {i : Bool} {R S : List (Located Scope.Fault)}

theorem next (hx : Decides x a b i R) (hy : R = [] → Decides y b c i S) : Decides (x >>= fun _ => y) a c i (R ++ S) := by
  intro s hs flag
  cases R with
  | nil =>
    obtain ⟨t, run, mid, flag⟩ := hx s hs flag
    rw [bind_of_ok run]
    exact hy rfl t mid flag
  | cons breach others =>
    obtain ⟨t, run⟩ := hx s hs flag
    exact ⟨t, bind_of_error run⟩

theorem bind (hx : Decides x a b i R) (hy : Decides y b c i S) : Decides (x >>= fun _ => y) a c i (R ++ S) :=
  hx.next fun _ => hy

theorem step (act : Scoping → Scoping) (hx : ∀ s, x s = .ok () (act s))
    (h : ∀ s, s.scopes = a → (act s).scopes = b ∧ (act s).inFunction = s.inFunction) : Decides x a b i [] := by
  intro s hs flag
  obtain ⟨scopes, same⟩ := h s hs
  exact ⟨act s, hx s, scopes, same.trans flag⟩

theorem skip (a : List Scope) : Decides (pure ()) a a i [] :=
  step id (fun _ => rfl) fun _ hs => ⟨hs, rfl⟩

theorem throws (breach : Located Scope.Fault) : Decides (throw breach) a b i [breach] :=
  fun s _ _ => ⟨s, rfl⟩

theorem get {f : Scoping → Walk Unit} (h : ∀ s, s.scopes = a → s.inFunction = i → Decides (f s) a b i R) :
    Decides (MonadState.get >>= f) a b i R :=
  fun s hs flag => h s hs flag s hs flag

end Decides

variable {i : Bool}

section Visit

variable {scopes : Scopes} {initialises : Option String}

theorem record_decides (a : List Scope) (id : UseId) (name : Token) : Decides (record id name) a a i [] := by
  refine .step _ (fun _ => rfl) fun s hs => ?_
  split <;> exact ⟨hs, rfl⟩

mutual

theorem visit_decides (awaits : scopes.Awaits initialises) (e : Expr) :
    Decides (visit e) (present scopes initialises) (present scopes initialises) i
      (Use.selfReads initialises e.uses) := by
  match e with
  | .constant value => exact .skip _
  | .read id name =>
    unfold visit
    refine .get fun s hs _ => ?_
    rw [isPending_present awaits hs]
    split
    · next waits =>
      have found : Use.selfReads initialises (Expr.read id name).uses = [⟨name, .selfInitialised⟩] := by
        simp [Use.selfReads, Expr.uses, waits]
      exact found ▸ .throws _
    · next settled =>
      have none : Use.selfReads initialises (Expr.read id name).uses = [] := by
        simp [Use.selfReads, Expr.uses, settled]
      exact none ▸ record_decides _ id name
  | .assign id name value =>
    unfold visit
    rw [Expr.uses, Use.selfReads_append]
    exact (visit_decides awaits value).bind (record_decides _ id name)
  | .binary _ left right | .logical _ left right =>
    unfold visit
    rw [Expr.uses, Use.selfReads_append]
    exact (visit_decides awaits left).bind (visit_decides awaits right)
  | .unary _ operand =>
    unfold visit
    exact visit_decides awaits operand
  | .group inner =>
    unfold visit
    exact visit_decides awaits inner
  | .call callee _ arguments =>
    unfold visit
    rw [Expr.uses, Use.selfReads_append]
    exact (visit_decides awaits callee).bind (visitAll_decides awaits arguments)
  | .index target _ place =>
    unfold visit
    rw [Expr.uses, Use.selfReads_append]
    exact (visit_decides awaits target).bind (visit_decides awaits place)

theorem visitAll_decides (awaits : scopes.Awaits initialises) (es : List Expr) :
    Decides (visitAll es) (present scopes initialises) (present scopes initialises) i
      (Use.selfReads initialises (Expr.usesIn es)) := by
  match es with
  | [] => exact .skip _
  | e :: rest =>
    unfold visitAll
    rw [Expr.usesIn, Use.selfReads_append]
    exact (visit_decides awaits e).bind (visitAll_decides awaits rest)

end

theorem visit?_decides (awaits : scopes.Awaits initialises) (e? : Option Expr) :
    Decides (visit? e?) (present scopes initialises) (present scopes initialises) i
      (Use.selfReads initialises ((e?.map Expr.uses).getD [])) := by
  cases e? with
  | none => exact .skip _
  | some e => exact visit_decides awaits e

theorem free_decides (scopes : Scopes) (e : Expr) :
    Decides (visit e) (present scopes none) (present scopes none) i [] := by
  simpa using visit_decides (i := i) (awaits_none scopes) e

end Visit

theorem declare_decides (scopes : Scopes) (name : Token) :
    Decides (declare name) (present scopes none) (present scopes (scopes.awaited name.lexeme)) i
      (Scope.repeats scopes.innermost [name]) := by
  unfold declare
  refine .get fun s hs _ => ?_
  rw [hs]
  cases scopes with
  | nil => exact .skip _
  | cons names outer =>
    simp only [present, List.map_cons]
    split
    · next declared =>
      have found : Scope.repeats (Scopes.innermost (names :: outer)) [name] = [⟨name, .declaredTwice name.lexeme⟩] := by
        simpa [Scope.repeats, Scopes.innermost] using declared
      exact found ▸ .throws _
    · next fresh =>
      have none : Scope.repeats (Scopes.innermost (names :: outer)) [name] = [] := by
        simpa [Scope.repeats, Scopes.innermost] using fresh
      exact none ▸ .step _ (fun _ => rfl) fun s hs => ⟨rfl, rfl⟩

theorem settle_decides (scopes : Scopes) (name : Token) :
    Decides settle (present scopes (scopes.awaited name.lexeme)) (present (scopes.extend name.lexeme) none) i [] := by
  refine .step _ (fun _ => rfl) ?_
  rintro ⟨_, inFunction, addresses, failed⟩ rfl
  cases scopes <;> exact ⟨rfl, rfl⟩

theorem declare_settle_decides (scopes : Scopes) (name : Token) :
    Decides (declare name >>= fun _ => settle) (present scopes none) (present (scopes.extend name.lexeme) none) i
      (Scope.repeats scopes.innermost [name]) := by
  simpa using (declare_decides (i := i) scopes name).bind (settle_decides scopes name)

theorem openScope_decides (scopes : Scopes) :
    Decides openScope (present scopes none) (present ([] :: scopes) none) i [] := by
  refine .step _ (fun _ => rfl) fun s hs => ?_
  simp_all [present_none, Scope.empty]

theorem closeScope_decides (names : List String) (scopes : Scopes) :
    Decides closeScope (present (names :: scopes) none) (present scopes none) i [] := by
  refine .step _ (fun _ => rfl) fun s hs => ?_
  simp_all [present_none]

theorem declareParameters_decides (parameters : List Token) (names : List String) (scopes : Scopes) :
    Decides (declareParameters parameters) (present (names :: scopes) none)
      (present ((Scopes.parameters parameters ++ names) :: scopes) none) i (Scope.repeats names parameters) := by
  induction parameters generalizing names with
  | nil => exact .skip _
  | cons name rest ih =>
    have both := (declare_settle_decides (i := i) (names :: scopes) name).bind (ih (name.lexeme :: names))
    simpa [declareParameters, Scopes.parameters, Scopes.innermost, Scope.repeats] using both

theorem inFunction_decides {x : Walk Unit} {a b : List Scope} {R : List (Located Scope.Fault)}
    (inner : Decides x a b true R) :
    Decides (do
      let outside := (← get).inFunction
      modify fun s => { s with inFunction := true }
      x
      modify fun s => { s with inFunction := outside }) a b i R := by
  intro s hs flag
  change Ends ((x >>= fun _ => modify fun t => { t with inFunction := s.inFunction }) { s with inFunction := true }) b i R
  have walked := inner { s with inFunction := true } hs rfl
  cases R with
  | nil =>
    obtain ⟨t, run, scopes, -⟩ := walked
    exact ⟨{ t with inFunction := s.inFunction }, bind_of_ok run, scopes, flag⟩
  | cons breach others =>
    obtain ⟨t, run⟩ := walked
    exact ⟨t, bind_of_error run⟩

mutual

theorem walk_decides (scopes : Scopes) (inFunction : Bool) (stmt : Stmt) (plain : stmt.Plain) :
    Decides (walk stmt) (present scopes none) (present (stmt.after scopes) none) inFunction
      (stmt.breaches scopes inFunction) := by
  match stmt with
  | .expression e | .print e => exact free_decides scopes e
  | .declare name initial =>
    unfold walk
    refine (declare_decides scopes name).next fun fresh => ?_
    have awaits : scopes.Awaits (scopes.awaited name.lexeme) := by
      intro x waits
      cases scopes with
      | nil => cases waits
      | cons names outer =>
        cases waits
        exact ⟨by simp, by simpa using Scope.repeats_eq_nil.1 fresh⟩
    simpa [Stmt.after] using (visit?_decides awaits initial).bind (settle_decides scopes name)
  | .block body =>
    unfold walk
    obtain ⟨names, last⟩ := afterAll_cons [] scopes body
    have inner := walkAll_decides ([] :: scopes) inFunction body plain
    rw [last] at inner
    simpa [Stmt.breaches, Stmt.after] using
      (openScope_decides scopes).bind (inner.bind (closeScope_decides names scopes))
  | .ifThen condition yes =>
    unfold walk
    have branch := walk_decides scopes inFunction yes plain.2
    rw [Stmt.after_of_not_declaration plain.1] at branch
    exact (free_decides scopes condition).bind branch
  | .ifElse condition yes no =>
    unfold walk
    have first := walk_decides scopes inFunction yes plain.1.2
    have second := walk_decides scopes inFunction no plain.2.2
    rw [Stmt.after_of_not_declaration plain.1.1] at first
    rw [Stmt.after_of_not_declaration plain.2.1] at second
    exact (free_decides scopes condition).bind (first.bind second)
  | .loop condition body =>
    unfold walk
    have inner := walk_decides scopes inFunction body plain.2
    rw [Stmt.after_of_not_declaration plain.1] at inner
    exact (free_decides scopes condition).bind inner
  | .function name parameters body =>
    unfold walk
    obtain ⟨names, last⟩ := afterAll_cons (Scopes.parameters parameters) (scopes.extend name.lexeme) body
    have inner := walkAll_decides (Scopes.parameters parameters :: scopes.extend name.lexeme) true body plain
    rw [last] at inner
    have declared := declareParameters_decides (i := true) parameters [] (scopes.extend name.lexeme)
    rw [List.append_nil] at declared
    have scope := (openScope_decides _).bind (declared.bind (inner.bind (closeScope_decides names _)))
    have whole := (declare_settle_decides (i := inFunction) scopes name).bind (inFunction_decides scope)
    simpa [Stmt.breaches, Stmt.after, bind_assoc] using whole
  | .leave keyword value =>
    unfold walk
    refine .get fun s hs flag => ?_
    rw [flag, Stmt.breaches]
    split
    · simpa [Stmt.after] using visit?_decides (i := inFunction) (awaits_none scopes) value
    · exact .throws _

theorem walkAll_decides (scopes : Scopes) (inFunction : Bool) (stmts : List Stmt) (plain : Stmt.PlainIn stmts) :
    Decides (walkAll stmts) (present scopes none) (present (afterAll scopes stmts) none) inFunction
      (Stmt.breachesIn scopes inFunction stmts) := by
  match stmts with
  | [] => exact .skip _
  | stmt :: rest =>
    unfold walkAll
    exact (walk_decides scopes inFunction stmt plain.1).bind (walkAll_decides (stmt.after scopes) inFunction rest plain.2)

end

theorem resolve_reports {program : Program} (plain : Stmt.PlainIn program) :
    (start.resolve program).2 = program.breaches.head? := by
  have decided := walkAll_decides [] false program plain start rfl rfl
  unfold resolve Program.breaches
  cases all : Stmt.breachesIn [] false program with
  | nil =>
    rw [all] at decided
    obtain ⟨t, run, -⟩ := decided
    have run : (walkAll program).run start = .ok () t := run
    rw [run]
    rfl
  | cons breach others =>
    rw [all] at decided
    obtain ⟨t, run⟩ := decided
    have run : (walkAll program).run start = .error breach t := run
    rw [run]
    rfl

theorem resolve_accepts_iff {program : Program} (plain : Stmt.PlainIn program) :
    (start.resolve program).2 = none ↔ program.Obeys := by
  rw [resolve_reports plain, List.head?_eq_none_iff]
  exact Stmt.breachesIn_eq_nil [] false program

end Scoping

structure Program.Proper (program : Program) : Prop where
  plain : Stmt.PlainIn program
  nodup : (program.uses.map Use.id).Nodup

namespace Program.Proper

variable {program : Program} (proper : program.Proper) (accepts : (Scoping.start.resolve program).2 = none)

include proper accepts

theorem obeys : program.Obeys :=
  (Scoping.resolve_accepts_iff proper.plain).1 accepts

theorem lawful : ∀ site ∈ program.sites, site.Lawful :=
  (Scoping.resolve_recorded proper.plain (Prod.ext rfl accepts)).2

theorem found {site : Site} (mem : site ∈ program.sites) :
    (Scoping.start.resolve program).1.addresses[site.use.id]? = site.address? := by
  have nodup := proper.nodup
  rw [← Program.map_use_sites, List.map_map] at nodup
  rw [(Scoping.resolve_recorded proper.plain (Prod.ext rfl accepts)).1]
  exact Addresses.getElem?_recordAll_of_mem mem nodup fun _ _ => Std.TreeMap.getElem?_emptyc

theorem found_of_unused {id : UseId} (unused : ∀ u ∈ program.uses, u.id ≠ id) :
    (Scoping.start.resolve program).1.addresses[id]? = none := by
  rw [(Scoping.resolve_recorded proper.plain (Prod.ext rfl accepts)).1, Addresses.getElem?_recordAll_of_notMem]
  · exact Std.TreeMap.getElem?_emptyc
  · intro site mem
    refine unused site.use ?_
    rw [← program.map_use_sites]
    exact List.mem_map_of_mem mem

end Program.Proper

end Scriptlet
