import Std.Data.TreeMap.Lemmas
import Scriptlet.Address
import Scriptlet.Proofs.Tree.Site

namespace Scriptlet

namespace Addresses

def record (table : Addresses) (site : Site) : Addresses :=
  match site.address? with
  | some distance => table.insert site.use.id distance
  | none => table

def recordAll (table : Addresses) (sites : List Site) : Addresses :=
  sites.foldl record table

@[simp] theorem recordAll_append (table : Addresses) (sites more : List Site) :
    table.recordAll (sites ++ more) = (table.recordAll sites).recordAll more := by
  simp [recordAll]

theorem getElem?_record_self (table : Addresses) (site : Site) (h : table[site.use.id]? = none) :
    (table.record site)[site.use.id]? = site.address? := by
  unfold record
  split
  · next distance found => rw [found, Std.TreeMap.getElem?_insert_self]
  · next found => rw [found, h]

theorem getElem?_record_of_ne (table : Addresses) {site : Site} {id : UseId} (h : site.use.id ≠ id) :
    (table.record site)[id]? = table[id]? := by
  unfold record
  split
  · simp [Std.TreeMap.getElem?_insert, h]
  · rfl

theorem getElem?_recordAll_of_notMem (table : Addresses) {sites : List Site} {id : UseId}
    (h : ∀ site ∈ sites, site.use.id ≠ id) : (table.recordAll sites)[id]? = table[id]? := by
  induction sites generalizing table with
  | nil => rfl
  | cons site rest ih =>
    have later : ∀ site ∈ rest, site.use.id ≠ id := fun site mem => h site (List.mem_cons_of_mem _ mem)
    change ((table.record site).recordAll rest)[id]? = table[id]?
    rw [ih _ later, getElem?_record_of_ne _ (h site List.mem_cons_self)]

theorem getElem?_recordAll_of_mem {table : Addresses} {sites : List Site} {site : Site} (mem : site ∈ sites)
    (nodup : (sites.map (·.use.id)).Nodup) (unused : ∀ site ∈ sites, table[site.use.id]? = none) :
    (table.recordAll sites)[site.use.id]? = site.address? := by
  induction sites generalizing table with
  | nil => cases mem
  | cons first rest ih =>
    obtain ⟨apart, nodup⟩ := List.nodup_cons.1 nodup
    have differs : ∀ other ∈ rest, other.use.id ≠ first.use.id :=
      fun other mem same => apart (List.mem_map.2 ⟨other, mem, same⟩)
    change ((table.record first).recordAll rest)[site.use.id]? = site.address?
    rcases List.mem_cons.1 mem with rfl | mem
    · rw [getElem?_recordAll_of_notMem _ differs, getElem?_record_self _ _ (unused _ List.mem_cons_self)]
    · refine ih mem nodup fun other member => ?_
      rw [getElem?_record_of_ne _ (differs other member).symm]
      exact unused other (List.mem_cons_of_mem _ member)

end Addresses

theorem bind_eq_ok {ε σ α β : Type} {x : EStateM ε σ α} {f : α → EStateM ε σ β} {s u : σ} {b : β} :
    (x >>= f) s = .ok b u ↔ ∃ a t, x s = .ok a t ∧ f a t = .ok b u := by
  change EStateM.bind x f s = _ ↔ _
  unfold EStateM.bind
  cases x s with
  | ok a t =>
    constructor
    · exact fun run => ⟨a, t, rfl, run⟩
    · rintro ⟨_, _, ⟨⟩, run⟩
      exact run
  | error e t => simp

theorem bind_eq_error {ε σ α β : Type} {x : EStateM ε σ α} {f : α → EStateM ε σ β} {s u : σ} {e : ε} :
    (x >>= f) s = .error e u ↔ x s = .error e u ∨ ∃ a t, x s = .ok a t ∧ f a t = .error e u := by
  change EStateM.bind x f s = _ ↔ _
  unfold EStateM.bind
  cases x s with
  | ok a t =>
    constructor
    · exact fun run => .inr ⟨a, t, rfl, run⟩
    · rintro (⟨⟨⟩⟩ | ⟨_, _, ⟨⟩, run⟩)
      exact run
  | error e t => simp

theorem bind_of_ok {ε σ α β : Type} {x : EStateM ε σ α} {f : α → EStateM ε σ β} {s t : σ} {a : α} (run : x s = .ok a t) :
    (x >>= f) s = f a t := by
  change EStateM.bind x f s = _
  rw [EStateM.bind, run]

theorem bind_of_error {ε σ α β : Type} {x : EStateM ε σ α} {f : α → EStateM ε σ β} {s t : σ} {e : ε}
    (run : x s = .error e t) : (x >>= f) s = .error e t := by
  change EStateM.bind x f s = _
  rw [EStateM.bind, run]

namespace Scoping

def present : Scopes → Option String → List Scope
  | names :: outer, some x => ⟨x :: names, some x⟩ :: outer.map (⟨·, none⟩)
  | scopes, _ => scopes.map (⟨·, none⟩)

theorem present_none (scopes : Scopes) : present scopes none = scopes.map (⟨·, none⟩) := by
  cases scopes <;> rfl

theorem map_names_present (site : Site) :
    (present site.scopes site.initialises).map Scope.names = site.visible := by
  obtain ⟨use, scopes, initialises⟩ := site
  cases initialises <;> cases scopes <;>
    simp [present, Site.visible, Scopes.extend, Function.comp_def]

theorem distance?_present (site : Site) :
    distance? (present site.scopes site.initialises) site.use.name.lexeme = site.address? := by
  rw [Site.address?, ← map_names_present, Scopes.address?, List.findIdx?_map]
  rfl

/-- A walk that ends well goes from some scopes to others, records the given sites and shows them lawful. -/
def Records (walk : Walk Unit) (before after : List Scope) (sites : List Site) : Prop :=
  ∀ s t, s.scopes = before → walk s = .ok () t →
    t.scopes = after ∧ t.addresses = s.addresses.recordAll sites ∧ ∀ site ∈ sites, site.Lawful

namespace Records

variable {x y : Walk Unit} {a b c : List Scope} {sites more : List Site}

theorem bind (hx : Records x a b sites) (hy : Records y b c more) :
    Records (x >>= fun _ => y) a c (sites ++ more) := by
  intro s u hs run
  obtain ⟨_, t, first, second⟩ := bind_eq_ok.1 run
  obtain ⟨mid, recorded, lawful⟩ := hx s t hs first
  obtain ⟨last, later, lawful'⟩ := hy t u mid second
  refine ⟨last, ?_, ?_⟩
  · rw [later, recorded, Addresses.recordAll_append]
  · exact List.forall_mem_append.2 ⟨lawful, lawful'⟩

theorem step (h : ∀ s t, s.scopes = a → x s = .ok () t → t.scopes = b ∧ t.addresses = s.addresses) :
    Records x a b [] := by
  intro s t hs run
  obtain ⟨scopes, addresses⟩ := h s t hs run
  exact ⟨scopes, addresses, by simp⟩

theorem skip (a : List Scope) : Records (pure ()) a a [] := by
  apply step
  rintro s t hs ⟨⟩
  exact ⟨hs, rfl⟩

theorem get {f : Scoping → Walk Unit} (h : ∀ s, s.scopes = a → Records (f s) a b sites) :
    Records (MonadState.get >>= f) a b sites :=
  fun s t hs run => h s hs s t hs run

end Records

theorem isPending_present {scopes : Scopes} {initialises : Option String} (awaits : scopes.Awaits initialises)
    {s : Scoping} (h : s.scopes = present scopes initialises) (name : String) :
    s.isPending name = (initialises == some name) := by
  unfold isPending
  rw [h]
  cases initialises with
  | none => cases scopes <;> simp [present]
  | some x =>
    cases scopes with
    | nil => exact absurd rfl (awaits x rfl).1
    | cons names outer => rfl

theorem record_run {site : Site} {s : Scoping} (h : s.scopes = present site.scopes site.initialises) :
    record site.use.id site.use.name s = .ok () { s with addresses := s.addresses.record site } := by
  have found : distance? s.scopes site.use.name.lexeme = site.address? := h ▸ distance?_present site
  change EStateM.Result.ok () (match distance? s.scopes site.use.name.lexeme with | some _ => _ | none => s) = _
  rw [found, Addresses.record]
  cases site.address? <;> rfl

section Visit

variable {scopes : Scopes} {initialises : Option String}

theorem record_records (awaits : scopes.Awaits initialises) (u : Use)
    (settled : u.assigns = false → (initialises == some u.name.lexeme) = false) :
    Records (record u.id u.name) (present scopes initialises) (present scopes initialises)
      (scopes.sites initialises [u]) := by
  intro s t hs run
  cases (@record_run ⟨u, scopes, initialises⟩ s hs).symm.trans run
  refine ⟨hs, rfl, ?_⟩
  simp only [Scopes.sites, List.map_cons, List.map_nil, List.mem_singleton, forall_eq]
  exact ⟨settled, awaits⟩

mutual

theorem visit_records (awaits : scopes.Awaits initialises) (e : Expr) :
    Records (visit e) (present scopes initialises) (present scopes initialises)
      (scopes.sites initialises e.uses) := by
  match e with
  | .constant value => exact .skip _
  | .read id name =>
    unfold visit
    refine .get fun s hs => ?_
    rw [isPending_present awaits hs]
    split
    · rintro _ _ _ ⟨⟩
    · next settled => exact record_records awaits ⟨id, name, false⟩ fun _ => by simpa using settled
  | .assign id name value =>
    unfold visit
    have assigned := record_records awaits ⟨id, name, true⟩ nofun
    simpa [Expr.uses, Scopes.sites] using (visit_records awaits value).bind assigned
  | .binary _ left right | .logical _ left right =>
    unfold visit
    simpa [Expr.uses, Scopes.sites] using (visit_records awaits left).bind (visit_records awaits right)
  | .unary _ operand =>
    unfold visit
    exact visit_records awaits operand
  | .group inner =>
    unfold visit
    exact visit_records awaits inner
  | .call callee _ arguments =>
    unfold visit
    simpa [Expr.uses, Scopes.sites] using (visit_records awaits callee).bind (visitAll_records awaits arguments)
  | .index target _ place =>
    unfold visit
    simpa [Expr.uses, Scopes.sites] using (visit_records awaits target).bind (visit_records awaits place)

theorem visitAll_records (awaits : scopes.Awaits initialises) (es : List Expr) :
    Records (visitAll es) (present scopes initialises) (present scopes initialises)
      (scopes.sites initialises (Expr.usesIn es)) := by
  match es with
  | [] => exact .skip _
  | e :: rest =>
    unfold visitAll
    simpa [Expr.usesIn, Scopes.sites] using (visit_records awaits e).bind (visitAll_records awaits rest)

end

theorem visit?_records (awaits : scopes.Awaits initialises) (e? : Option Expr) :
    Records (visit? e?) (present scopes initialises) (present scopes initialises)
      (scopes.sites initialises ((e?.map Expr.uses).getD [])) := by
  cases e? with
  | none => exact .skip _
  | some e => exact visit_records awaits e

end Visit

theorem awaits_none (scopes : Scopes) : scopes.Awaits none := nofun

theorem declare_run {scopes : Scopes} {name : Token} {s t : Scoping} (h : s.scopes = present scopes none)
    (run : declare name s = .ok () t) :
    t.scopes = present scopes (scopes.awaited name.lexeme) ∧ t.addresses = s.addresses ∧
      scopes.Awaits (scopes.awaited name.lexeme) := by
  obtain ⟨_, _, ⟨⟩, run⟩ := bind_eq_ok.1 run
  cases scopes with
  | nil =>
    rw [h] at run
    cases run
    exact ⟨h, rfl, nofun⟩
  | cons names outer =>
    rw [h] at run
    simp only [present, List.map_cons] at run
    split at run
    · cases run
    · next fresh =>
      cases run
      refine ⟨rfl, rfl, ?_⟩
      rintro _ ⟨⟩
      exact ⟨by simp, by simpa [Scopes.innermost] using fresh⟩

theorem settle_records (scopes : Scopes) (name : Token) :
    Records settle (present scopes (scopes.awaited name.lexeme)) (present (scopes.extend name.lexeme) none) [] := by
  apply Records.step
  rintro ⟨_, inFunction, addresses, failed⟩ t rfl ⟨⟩
  cases scopes <;> exact ⟨rfl, rfl⟩

theorem declare_settle_records (scopes : Scopes) (name : Token) :
    Records (declare name >>= fun _ => settle) (present scopes none) (present (scopes.extend name.lexeme) none)
      [] := by
  intro s u hs run
  obtain ⟨_, t, begun, settled⟩ := bind_eq_ok.1 run
  obtain ⟨scope, addresses, _⟩ := declare_run hs begun
  exact addresses ▸ settle_records scopes name t u scope settled

theorem inFunction_records (scopes : List Scope) (inFunction : Bool) :
    Records (modify fun s => { s with inFunction }) scopes scopes [] := by
  apply Records.step
  rintro s t hs ⟨⟩
  exact ⟨hs, rfl⟩

theorem openScope_records (scopes : Scopes) :
    Records openScope (present scopes none) (present ([] :: scopes) none) [] := by
  apply Records.step
  rintro s t hs ⟨⟩
  simp_all [present_none, Scope.empty]

theorem closeScope_records (names : List String) (scopes : Scopes) :
    Records closeScope (present (names :: scopes) none) (present scopes none) [] := by
  apply Records.step
  rintro s t hs ⟨⟩
  simp_all [present_none]

theorem declareParameters_records (parameters : List Token) (names : List String) (scopes : Scopes) :
    Records (declareParameters parameters) (present (names :: scopes) none)
      (present ((Scopes.parameters parameters ++ names) :: scopes) none) [] := by
  induction parameters generalizing names with
  | nil => exact .skip _
  | cons name rest ih =>
    have tail := ih (name.lexeme :: names)
    simpa [Scopes.parameters, declareParameters] using
      (declare_settle_records (names :: scopes) name).bind tail

def afterAll (scopes : Scopes) (stmts : List Stmt) : Scopes :=
  stmts.foldl Stmt.after scopes

theorem afterAll_cons (names : List String) (scopes : Scopes) (stmts : List Stmt) :
    ∃ names', afterAll (names :: scopes) stmts = names' :: scopes := by
  induction stmts generalizing names with
  | nil => exact ⟨names, rfl⟩
  | cons stmt rest ih => cases stmt <;> exact ih _

mutual

theorem walk_records (scopes : Scopes) (stmt : Stmt) (plain : stmt.Plain) :
    Records (walk stmt) (present scopes none) (present (stmt.after scopes) none) (stmt.sites scopes) := by
  match stmt with
  | .expression e | .print e => exact visit_records (awaits_none scopes) e
  | .declare name initial =>
    unfold walk
    intro s u hs run
    obtain ⟨_, t, begun, rest⟩ := bind_eq_ok.1 run
    obtain ⟨scope, addresses, awaits⟩ := declare_run hs begun
    have both := (visit?_records awaits initial).bind (settle_records scopes name)
    simpa [← addresses, Stmt.sites, Stmt.after] using both t u scope rest
  | .block body =>
    unfold walk
    obtain ⟨names, last⟩ := afterAll_cons [] scopes body
    have inner := walkAll_records ([] :: scopes) body plain
    rw [last] at inner
    simpa [Stmt.sites, Stmt.after] using (openScope_records scopes).bind (inner.bind (closeScope_records names scopes))
  | .ifThen condition yes =>
    unfold walk
    have branch := walk_records scopes yes plain.2
    rw [Stmt.after_of_not_declaration plain.1] at branch
    simpa [Stmt.sites, Stmt.after] using (visit_records (awaits_none scopes) condition).bind branch
  | .ifElse condition yes no =>
    unfold walk
    have first := walk_records scopes yes plain.1.2
    have second := walk_records scopes no plain.2.2
    rw [Stmt.after_of_not_declaration plain.1.1] at first
    rw [Stmt.after_of_not_declaration plain.2.1] at second
    simpa [Stmt.sites, Stmt.after] using (visit_records (awaits_none scopes) condition).bind (first.bind second)
  | .loop condition body =>
    unfold walk
    have inner := walk_records scopes body plain.2
    rw [Stmt.after_of_not_declaration plain.1] at inner
    simpa [Stmt.sites, Stmt.after] using (visit_records (awaits_none scopes) condition).bind inner
  | .function name parameters body =>
    unfold walk
    obtain ⟨names, last⟩ := afterAll_cons (Scopes.parameters parameters) (scopes.extend name.lexeme) body
    have inner := walkAll_records (Scopes.parameters parameters :: scopes.extend name.lexeme) body plain
    rw [last] at inner
    have declared := declareParameters_records parameters [] (scopes.extend name.lexeme)
    rw [List.append_nil] at declared
    have scope := (openScope_records _).bind (declared.bind (inner.bind (closeScope_records names _)))
    have rest : Records _ _ _ _ := .get fun s _ =>
      (inFunction_records _ true).bind (scope.bind (inFunction_records _ s.inFunction))
    simpa [Stmt.sites, Stmt.after, bind_assoc] using (declare_settle_records scopes name).bind rest
  | .leave keyword value =>
    unfold walk
    refine .get fun s hs => ?_
    split
    · exact visit?_records (awaits_none scopes) value
    · rintro _ _ _ ⟨⟩

theorem walkAll_records (scopes : Scopes) (stmts : List Stmt) (plain : Stmt.PlainIn stmts) :
    Records (walkAll stmts) (present scopes none) (present (afterAll scopes stmts) none)
      (Stmt.sitesIn scopes stmts) := by
  match stmts with
  | [] => exact .skip _
  | stmt :: rest =>
    unfold walkAll
    exact (walk_records scopes stmt plain.1).bind (walkAll_records (stmt.after scopes) rest plain.2)

end

theorem resolve_recorded {program : Program} (plain : Stmt.PlainIn program) {t : Scoping}
    (h : start.resolve program = (t, none)) :
    t.addresses = (∅ : Addresses).recordAll program.sites ∧ ∀ site ∈ program.sites, site.Lawful := by
  unfold resolve at h
  split at h
  · next u run =>
    cases h
    exact (walkAll_records [] program plain start _ rfl run).2
  · cases h

end Scoping
end Scriptlet
