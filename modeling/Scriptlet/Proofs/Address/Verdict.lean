import Mathlib.Tactic.Tauto
import Scriptlet.Proofs.Address.Rules
import Scriptlet.Proofs.Grammar.Numbering

namespace Scriptlet

mutual

def Stmt.scopeNames : Stmt → List (List String)
  | .block body => declaredIn body :: scopeNamesIn body
  | .function _ parameters body => (parameters.map Token.lexeme ++ declaredIn body) :: scopeNamesIn body
  | .ifThen _ yes => yes.scopeNames
  | .ifElse _ yes no => yes.scopeNames ++ no.scopeNames
  | .loop _ body => body.scopeNames
  | .expression _ | .print _ | .declare .. | .leave .. => []

def Stmt.scopeNamesIn : List Stmt → List (List String)
  | [] => []
  | stmt :: rest => stmt.scopeNames ++ scopeNamesIn rest

end

mutual

def Stmt.localValues (isLocal : Bool) : Stmt → List (Token × Option Expr)
  | .declare name initial => if isLocal then [(name, initial)] else []
  | .block body | .function _ _ body => localValuesIn true body
  | .ifThen _ yes => yes.localValues isLocal
  | .ifElse _ yes no => yes.localValues isLocal ++ no.localValues isLocal
  | .loop _ body => body.localValues isLocal
  | .expression _ | .print _ | .leave .. => []

def Stmt.localValuesIn (isLocal : Bool) : List Stmt → List (Token × Option Expr)
  | [] => []
  | stmt :: rest => stmt.localValues isLocal ++ localValuesIn isLocal rest

end

mutual

def Stmt.strayReturns : Stmt → List Token
  | .leave keyword _ => [keyword]
  | .block body => strayReturnsIn body
  | .ifThen _ yes => yes.strayReturns
  | .ifElse _ yes no => yes.strayReturns ++ no.strayReturns
  | .loop _ body => body.strayReturns
  | .function .. | .expression _ | .print _ | .declare .. => []

def Stmt.strayReturnsIn : List Stmt → List Token
  | [] => []
  | stmt :: rest => stmt.strayReturns ++ strayReturnsIn rest

end

def Expr.IsSettled (name : Token) (initial : Option Expr) : Prop :=
  ∀ u ∈ (initial.map Expr.uses).getD [], u.assigns = false → name.lexeme ≠ u.name.lexeme

structure Program.WellScoped (program : Program) : Prop where
  once : ∀ names ∈ Stmt.scopeNamesIn program, names.Nodup
  settled : ∀ v ∈ Stmt.localValuesIn false program, Expr.IsSettled v.1 v.2
  inside : Stmt.strayReturnsIn program = []

def Scopes.Admits : Scopes → List String → Prop
  | [], _ => True
  | inner :: _, names => names.Nodup ∧ ∀ x ∈ names, x ∉ inner

@[simp] theorem Scopes.admits_nil (scopes : Scopes) : scopes.Admits [] := by
  cases scopes <;> simp [Admits]

theorem Scopes.admits_open (scopes : Scopes) (names : List String) : Admits ([] :: scopes) names ↔ names.Nodup := by
  simp [Admits]

theorem Scopes.admits_singleton (scopes : Scopes) (x : String) : scopes.Admits [x] ↔ x ∉ scopes.innermost := by
  cases scopes <;> simp [Admits, innermost]

theorem Scopes.admits_append (scopes : Scopes) (stmt : Stmt) (names : List String) :
    scopes.Admits (stmt.declared ++ names) ↔ scopes.Admits stmt.declared ∧ (stmt.after scopes).Admits names := by
  cases scopes with
  | nil => cases stmt <;> simp [Admits, Stmt.after, extend]
  | cons inner outer =>
    cases stmt <;> simp [Admits, Stmt.after, Stmt.declared, extend] <;> grind

theorem Scopes.isEmpty_after (stmt : Stmt) (scopes : Scopes) : (stmt.after scopes).isEmpty = scopes.isEmpty := by
  cases scopes <;> cases stmt <;> rfl

theorem Use.settled_awaited (scopes : Scopes) (name : Token) (initial : Option Expr) :
    Use.Settled (scopes.awaited name.lexeme) ((initial.map Expr.uses).getD []) ↔
      ∀ v ∈ (Stmt.declare name initial).localValues (!scopes.isEmpty), Expr.IsSettled v.1 v.2 := by
  cases scopes with
  | nil => simp [Use.Settled, Scopes.awaited, Stmt.localValues]
  | cons inner outer =>
    simp [Use.Settled, Scopes.awaited, Stmt.localValues, Expr.IsSettled]

mutual

theorem Stmt.obeys_iff (scopes : Scopes) (inFunction : Bool) (stmt : Stmt) (plain : stmt.Plain) :
    stmt.Obeys scopes inFunction ↔ scopes.Admits stmt.declared ∧ (∀ names ∈ stmt.scopeNames, names.Nodup) ∧
      (∀ v ∈ stmt.localValues (!scopes.isEmpty), Expr.IsSettled v.1 v.2) ∧
      (inFunction = false → stmt.strayReturns = []) := by
  match stmt with
  | .expression _ | .print _ => simp [Obeys, declared, scopeNames, localValues, strayReturns]
  | .declare name initial =>
    rw [Obeys, Use.settled_awaited, declared, Scopes.admits_singleton]
    simp [scopeNames, strayReturns]
  | .block body =>
    rw [Obeys, obeysIn_iff _ inFunction body plain]
    simp [declared, scopeNames, localValues, strayReturns, Scopes.admits_open, and_assoc]
  | .ifThen condition yes =>
    have branch := obeys_iff scopes inFunction yes plain.2
    rw [declared_of_not_declaration plain.1] at branch
    exact branch
  | .ifElse condition yes no =>
    have first := obeys_iff scopes inFunction yes plain.1.2
    have second := obeys_iff scopes inFunction no plain.2.2
    rw [declared_of_not_declaration plain.1.1] at first
    rw [declared_of_not_declaration plain.2.1] at second
    rw [Obeys, first, second]
    simp only [declared, scopeNames, localValues, strayReturns, List.forall_mem_append, List.append_eq_nil_iff]
    tauto
  | .loop condition body =>
    have inner := obeys_iff scopes inFunction body plain.2
    rw [declared_of_not_declaration plain.1] at inner
    exact inner
  | .function name parameters body =>
    have inner := obeysIn_iff (Scopes.parameters parameters :: scopes.extend name.lexeme) true body plain
    rw [Obeys, inner, declared, Scopes.admits_singleton]
    simp only [Scopes.Admits, Scopes.parameters, List.mem_reverse, scopeNames, List.forall_mem_cons, List.nodup_append,
      localValues, List.isEmpty_cons, Bool.not_false, strayReturns, reduceCtorEq, false_imp_iff, and_true, implies_true]
    have apart : (∀ a ∈ parameters.map Token.lexeme, ∀ b ∈ declaredIn body, a ≠ b) ↔
        ∀ x ∈ declaredIn body, x ∉ parameters.map Token.lexeme :=
      ⟨fun h x declared mem => h x mem x declared rfl, fun h a mem b declared same => h b declared (same ▸ mem)⟩
    rw [apart]
    tauto
  | .leave keyword value => simp [Obeys, declared, scopeNames, localValues, strayReturns]

theorem Stmt.obeysIn_iff (scopes : Scopes) (inFunction : Bool) (stmts : List Stmt) (plain : Stmt.PlainIn stmts) :
    Stmt.ObeysIn scopes inFunction stmts ↔
      scopes.Admits (Stmt.declaredIn stmts) ∧ (∀ names ∈ Stmt.scopeNamesIn stmts, names.Nodup) ∧
      (∀ v ∈ Stmt.localValuesIn (!scopes.isEmpty) stmts, Expr.IsSettled v.1 v.2) ∧
      (inFunction = false → Stmt.strayReturnsIn stmts = []) := by
  match stmts with
  | [] => simp [ObeysIn, declaredIn, scopeNamesIn, localValuesIn, strayReturnsIn]
  | stmt :: rest =>
    rw [ObeysIn, obeys_iff scopes inFunction stmt plain.1, obeysIn_iff _ inFunction rest plain.2,
      Scopes.isEmpty_after]
    simp only [declaredIn, List.flatMap_cons, Scopes.admits_append, scopeNamesIn, localValuesIn, strayReturnsIn,
      List.forall_mem_append, List.append_eq_nil_iff]
    tauto

end

theorem Program.obeys_iff {program : Program} (plain : Stmt.PlainIn program) :
    program.Obeys ↔ program.WellScoped := by
  rw [Obeys, Stmt.obeysIn_iff [] false program plain]
  constructor
  · rintro ⟨-, once, settled, inside⟩
    exact ⟨once, settled, inside rfl⟩
  · rintro ⟨once, settled, inside⟩
    exact ⟨trivial, once, settled, fun _ => inside⟩

/-- A use reaches a scope that declared its name before, past others that did not. -/
def Site.Reaches (site : Site) (distance : Nat) : Prop :=
  (∃ names, site.visible[distance]? = some names ∧ site.use.name.lexeme ∈ names) ∧
    ∀ nearer < distance, ∀ names, site.visible[nearer]? = some names → site.use.name.lexeme ∉ names

theorem Site.address?_eq_some {site : Site} {distance : Nat} : site.address? = some distance ↔ site.Reaches distance := by
  rw [Site.address?, Scopes.address?, List.findIdx?_eq_some_iff_getElem]
  constructor
  · rintro ⟨bound, declares, nearest⟩
    refine ⟨⟨_, List.getElem?_eq_getElem bound, by simpa using declares⟩, fun nearer before names found => ?_⟩
    obtain ⟨_, rfl⟩ := List.getElem?_eq_some_iff.1 found
    simpa using nearest nearer before
  · rintro ⟨⟨names, found, declares⟩, nearest⟩
    obtain ⟨bound, rfl⟩ := List.getElem?_eq_some_iff.1 found
    refine ⟨bound, by simpa using declares, fun nearer before => ?_⟩
    simpa using nearest nearer before _ (List.getElem?_eq_getElem (Nat.lt_trans before bound))

theorem Site.address?_eq_none {site : Site} :
    site.address? = none ↔ ∀ names ∈ site.visible, site.use.name.lexeme ∉ names := by
  simp [Site.address?, Scopes.address?, List.findIdx?_eq_none_iff]

theorem Grammar.proper_read (tokens : List Token) (nextId : UseId) : (Grammar.read tokens nextId).program.Proper :=
  ⟨(Grammar.read_numbered tokens nextId).2, (Grammar.read_numbered tokens nextId).1.nodup⟩

/-- Finding the addresses of a program that was read accepts it exactly if it is well scoped, reports the first breach
otherwise, and records for each use how far the nearest scope is that declared the name before. -/
theorem Scoping.resolve_lexical (tokens : List Token) (nextId : UseId) :
    let program := (Grammar.read tokens nextId).program
    let found := start.resolve program
    (found.2 = none ↔ program.WellScoped) ∧ found.2 = program.breaches.head? ∧
      (found.2 = none → program.sites.map Site.use = program.uses ∧
        (∀ site ∈ program.sites,
          (∀ distance, found.1.addresses[site.use.id]? = some distance ↔ site.Reaches distance) ∧
          (found.1.addresses[site.use.id]? = none ↔ ∀ names ∈ site.visible, site.use.name.lexeme ∉ names)) ∧
        ∀ id, (∀ u ∈ program.uses, u.id ≠ id) → found.1.addresses[id]? = none) := by
  intro program found
  have proper : program.Proper := Grammar.proper_read tokens nextId
  refine ⟨?_, resolve_reports proper.plain, fun accepts =>
    ⟨program.map_use_sites, fun site mem => ?_, fun _ => proper.found_of_unused accepts⟩⟩
  · exact (resolve_accepts_iff proper.plain).trans (Program.obeys_iff proper.plain)
  · rw [proper.found accepts mem]
    exact ⟨fun _ => Site.address?_eq_some, Site.address?_eq_none⟩

end Scriptlet
