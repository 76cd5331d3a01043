import Scriptlet.Proofs.Address.Rules
import Scriptlet.Proofs.Tree.Part

namespace Scriptlet

def Site.map (f : Token → Token) (g : UseId → UseId) (site : Site) : Site :=
  { site with use := site.use.map f g }

section Map

variable {f : Token → Token} (lexeme : ∀ a, (f a).lexeme = a.lexeme) (g : UseId → UseId)

theorem Scopes.sites_map (scopes : Scopes) (initialises : Option String) (uses : List Use) :
    scopes.sites initialises (uses.map (Use.map f g)) = (scopes.sites initialises uses).map (Site.map f g) := by
  simp [sites, Site.map]

include lexeme

theorem Site.address?_map (site : Site) : (site.map f g).address? = site.address? := by
  simp only [address?, map, Use.map, lexeme]
  rfl

theorem Scopes.parameters_map (parameters : List Token) :
    Scopes.parameters (parameters.map f) = Scopes.parameters parameters := by
  simp [Scopes.parameters, Function.comp_def, lexeme]

theorem Stmt.after_map (scopes : Scopes) (stmt : Stmt) : (stmt.map f g).after scopes = stmt.after scopes := by
  cases stmt <;> simp [Stmt.map, after, lexeme]

mutual

theorem Stmt.sites_map (scopes : Scopes) (stmt : Stmt) :
    (stmt.map f g).sites scopes = (stmt.sites scopes).map (Site.map f g) := by
  match stmt with
  | .expression e | .print e => simp [Stmt.map, sites, Expr.uses_map, Scopes.sites_map]
  | .declare name value => simp [Stmt.map, sites, lexeme, Expr.uses?_map, Scopes.sites_map, -Option.map_map]
  | .leave _ value => simp [Stmt.map, sites, Expr.uses?_map, Scopes.sites_map, -Option.map_map]
  | .block body => simpa [Stmt.map, sites] using sitesIn_map _ body
  | .ifThen condition yes => simp [Stmt.map, sites, Expr.uses_map, Scopes.sites_map, sites_map scopes yes]
  | .ifElse condition yes no =>
    simp [Stmt.map, sites, Expr.uses_map, Scopes.sites_map, sites_map scopes yes, sites_map scopes no]
  | .loop condition body => simp [Stmt.map, sites, Expr.uses_map, Scopes.sites_map, sites_map scopes body]
  | .function name parameters body =>
    simpa [Stmt.map, sites, lexeme, Scopes.parameters_map lexeme] using sitesIn_map _ body

theorem Stmt.sitesIn_map (scopes : Scopes) (stmts : List Stmt) :
    Stmt.sitesIn scopes (stmts.map (Stmt.map f g)) = (Stmt.sitesIn scopes stmts).map (Site.map f g) := by
  match stmts with
  | [] => rfl
  | stmt :: rest => simp [sitesIn, sites_map scopes stmt, after_map lexeme, sitesIn_map _ rest]

end

theorem Use.selfReads_map (initialises : Option String) (uses : List Use) :
    Use.selfReads initialises (uses.map (Use.map f g)) = (Use.selfReads initialises uses).map (Located.map f) := by
  simp [selfReads, List.filter_map, Function.comp_def, Use.map, Located.map, lexeme]

theorem Scope.repeats_map (names : List String) (tokens : List Token) :
    Scope.repeats names (tokens.map f) = (Scope.repeats names tokens).map (Located.map f) := by
  induction tokens generalizing names with
  | nil => rfl
  | cons name rest ih =>
    simp only [List.map_cons, repeats, lexeme, ih, List.map_append]
    split <;> simp [Located.map]

mutual

theorem Stmt.breaches_map (scopes : Scopes) (inFunction : Bool) (stmt : Stmt) :
    (stmt.map f g).breaches scopes inFunction = (stmt.breaches scopes inFunction).map (Located.map f) := by
  match stmt with
  | .expression _ | .print _ => rfl
  | .declare name value =>
    have here := Scope.repeats_map lexeme scopes.innermost [name]
    rw [List.map_singleton] at here
    simp only [Stmt.map, breaches, here, lexeme, Expr.uses?_map, Use.selfReads_map lexeme, List.map_append]
  | .block body => simpa [Stmt.map, breaches] using breachesIn_map _ inFunction body
  | .ifThen _ yes => exact breaches_map scopes inFunction yes
  | .ifElse _ yes no =>
    simp only [Stmt.map, breaches, breaches_map scopes inFunction yes, breaches_map scopes inFunction no, List.map_append]
  | .loop _ body => exact breaches_map scopes inFunction body
  | .function name parameters body =>
    have here := Scope.repeats_map lexeme scopes.innermost [name]
    rw [List.map_singleton] at here
    simp only [Stmt.map, breaches, here, lexeme, Scope.repeats_map lexeme, Scopes.parameters_map lexeme,
      Stmt.mapIn_eq_map, breachesIn_map _ true body, List.map_append]
  | .leave _ _ => cases inFunction <;> rfl

theorem Stmt.breachesIn_map (scopes : Scopes) (inFunction : Bool) (stmts : List Stmt) :
    Stmt.breachesIn scopes inFunction (stmts.map (Stmt.map f g)) =
      (Stmt.breachesIn scopes inFunction stmts).map (Located.map f) := by
  match stmts with
  | [] => rfl
  | stmt :: rest =>
    simp only [List.map_cons, breachesIn, breaches_map scopes inFunction stmt, after_map lexeme,
      breachesIn_map _ inFunction rest, List.map_append]

end

end Map

theorem Use.exists_of_mem_selfReads {initialises : Option String} {uses : List Use} {breach : Located Scope.Fault}
    (mem : breach ∈ Use.selfReads initialises uses) : ∃ u ∈ uses, breach.token = u.name := by
  obtain ⟨u, used, rfl⟩ := List.mem_map.1 mem
  exact ⟨u, List.mem_of_mem_filter used, rfl⟩

theorem Scope.token_mem_of_mem_repeats {names : List String} {tokens : List Token} {breach : Located Scope.Fault}
    (mem : breach ∈ Scope.repeats names tokens) : breach.token ∈ tokens := by
  induction tokens generalizing names with
  | nil => cases mem
  | cons name rest ih =>
    rcases List.mem_append.1 mem with here | later
    · split at here
      · cases List.mem_singleton.1 here
        exact .head _
      · cases here
    · exact .tail _ (ih later)

mutual

theorem Stmt.token_mem_of_mem_breaches {scopes : Scopes} {inFunction : Bool} {breach : Located Scope.Fault} (stmt : Stmt)
    (mem : breach ∈ stmt.breaches scopes inFunction) : breach.token ∈ stmt.tokens := by
  match stmt with
  | .expression _ | .print _ => cases mem
  | .declare name initial =>
    rcases List.mem_append.1 mem with mem | mem
    · exact List.mem_cons.2 (.inl (List.mem_singleton.1 (Scope.token_mem_of_mem_repeats mem)))
    · obtain ⟨u, used, place⟩ := Use.exists_of_mem_selfReads mem
      exact .tail _ (place ▸ Expr.name?_mem_tokens initial used)
  | .block body => exact token_mem_of_mem_breachesIn body mem
  | .ifThen condition yes => exact List.mem_append_right _ (token_mem_of_mem_breaches yes mem)
  | .ifElse condition yes no =>
    rcases List.mem_append.1 mem with mem | mem
    · exact List.mem_append_left _ (List.mem_append_right _ (token_mem_of_mem_breaches yes mem))
    · exact List.mem_append_right _ (token_mem_of_mem_breaches no mem)
  | .loop condition body => exact List.mem_append_right _ (token_mem_of_mem_breaches body mem)
  | .function name parameters body =>
    rcases List.mem_append.1 mem with mem | mem
    · exact List.mem_cons.2 (.inl (List.mem_singleton.1 (Scope.token_mem_of_mem_repeats mem)))
    · rcases List.mem_append.1 mem with mem | mem
      · exact .tail _ (List.mem_append_left _ (Scope.token_mem_of_mem_repeats mem))
      · exact .tail _ (List.mem_append_right _ (token_mem_of_mem_breachesIn body mem))
  | .leave keyword value =>
    cases inFunction with
    | true => cases mem
    | false =>
      cases List.mem_singleton.1 mem
      exact .head _

theorem Stmt.token_mem_of_mem_breachesIn {scopes : Scopes} {inFunction : Bool} {breach : Located Scope.Fault}
    (stmts : List Stmt) (mem : breach ∈ Stmt.breachesIn scopes inFunction stmts) : breach.token ∈ Stmt.tokensIn stmts := by
  match stmts with
  | [] => cases mem
  | stmt :: rest =>
    rcases List.mem_append.1 mem with mem | mem
    · exact List.mem_append_left _ (token_mem_of_mem_breaches stmt mem)
    · exact List.mem_append_right _ (token_mem_of_mem_breachesIn rest mem)

end

theorem Stmt.sitesIn_append (scopes : Scopes) (stmts more : List Stmt) :
    Stmt.sitesIn scopes (stmts ++ more) = Stmt.sitesIn scopes stmts ++ Stmt.sitesIn (Scoping.afterAll scopes stmts) more := by
  induction stmts generalizing scopes with
  | nil => rfl
  | cons stmt rest ih => simp [Stmt.sitesIn, Scoping.afterAll, ih]

namespace Program

theorem sites_append (program more : Program) : Program.sites (program ++ more) = program.sites ++ more.sites := by
  rw [sites, Stmt.sitesIn_append, Scoping.afterAll_nil]
  rfl

theorem obeys_append (program more : Program) : Program.Obeys (program ++ more) ↔ program.Obeys ∧ more.Obeys := by
  rw [Obeys, Stmt.obeysIn_append, Scoping.afterAll_nil]
  rfl

variable {f : Token → Token} (lexeme : ∀ a, (f a).lexeme = a.lexeme) {program program' : Program}
  (same : program'.map Stmt.unnumbered = program.map (Stmt.view f))

include lexeme same

theorem addresses_of_view : program'.sites.map Site.address? = program.sites.map Site.address? := by
  have plain : ∀ a : Token, (id a).lexeme = a.lexeme := fun _ => rfl
  have addresses {f : Token → Token} (lexeme : ∀ a, (f a).lexeme = a.lexeme) :
      Site.address? ∘ Site.map f (fun _ => 0) = Site.address? := funext (Site.address?_map lexeme _)
  calc program'.sites.map Site.address?
      = (Stmt.sitesIn [] (program'.map Stmt.unnumbered)).map Site.address? := by
        rw [Stmt.sitesIn_map plain, List.map_map, addresses plain]
        rfl
    _ = (Stmt.sitesIn [] (program.map (Stmt.view f))).map Site.address? := by rw [same]
    _ = program.sites.map Site.address? := by
        rw [Stmt.sitesIn_map lexeme, List.map_map, addresses lexeme]
        rfl

theorem breaches_of_view : program'.breaches = program.breaches.map (Located.map f) := by
  have plain : ∀ a : Token, (id a).lexeme = a.lexeme := fun _ => rfl
  have unmoved : Located.map id = (id : Located Scope.Fault → _) := rfl
  calc program'.breaches = Stmt.breachesIn [] false (program'.map Stmt.unnumbered) := by
        rw [Stmt.breachesIn_map plain, unmoved, List.map_id]
        rfl
    _ = Stmt.breachesIn [] false (program.map (Stmt.view f)) := by rw [same]
    _ = program.breaches.map (Located.map f) := Stmt.breachesIn_map lexeme _ _ _ _

theorem obeys_of_view : program'.Obeys ↔ program.Obeys := by
  rw [Obeys, Obeys, ← Stmt.breachesIn_eq_nil, ← Stmt.breachesIn_eq_nil]
  change program'.breaches = [] ↔ program.breaches = []
  rw [breaches_of_view lexeme same, List.map_eq_nil_iff]

end Program

end Scriptlet
