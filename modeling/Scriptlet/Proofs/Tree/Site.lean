import Scriptlet.Tree.Use

namespace Scriptlet

/-- The names declared in each scope around a place, innermost first. -/
abbrev Scopes := List (List String)

namespace Scopes

def address? (scopes : Scopes) (name : String) : Option Nat :=
  scopes.findIdx? (·.contains name)

def extend (name : String) : Scopes → Scopes
  | [] => []
  | names :: outer => (name :: names) :: outer

def awaited (scopes : Scopes) (name : String) : Option String :=
  scopes.head?.map fun _ => name

def innermost (scopes : Scopes) : List String :=
  scopes.headD []

/-- A local variable waits for its initial value only in a scope that did not have its name before. -/
def Awaits (scopes : Scopes) (initialises : Option String) : Prop :=
  ∀ x, initialises = some x → scopes ≠ [] ∧ x ∉ scopes.innermost

theorem address?_cons (names : List String) (outer : Scopes) (name : String) :
    address? (names :: outer) name = if name ∈ names then some 0 else (address? outer name).map (· + 1) := by
  simp [address?, List.findIdx?_cons]

theorem address?_extend_of_ne {x name : String} (h : name ≠ x) (scopes : Scopes) :
    (scopes.extend x).address? name = scopes.address? name := by
  cases scopes with
  | nil => rfl
  | cons names outer => simp [extend, address?_cons, h]

theorem address?_extend_self (x : String) (names : List String) (outer : Scopes) :
    (extend x (names :: outer)).address? x = some 0 := by
  simp [extend, address?_cons]

end Scopes

structure Site where
  use : Use
  scopes : Scopes
  initialises : Option String

namespace Site

/-- The scopes with the name that waits for its initial value. -/
def visible (site : Site) : Scopes :=
  match site.initialises with
  | none => site.scopes
  | some x => site.scopes.extend x

def address? (site : Site) : Option Nat :=
  site.visible.address? site.use.name.lexeme

def isReflexive (site : Site) : Bool :=
  site.initialises == some site.use.name.lexeme

/-- An assignment to a local variable in its own initial value comes before there is a variable to assign to. -/
def isPremature (site : Site) : Bool :=
  site.use.assigns && site.isReflexive

structure Lawful (site : Site) : Prop where
  settled : site.use.assigns = false → site.isReflexive = false
  awaits : site.scopes.Awaits site.initialises

end Site

def Scopes.sites (scopes : Scopes) (initialises : Option String) (uses : List Use) : List Site :=
  uses.map (⟨·, scopes, initialises⟩)

def Stmt.after (scopes : Scopes) : Stmt → Scopes
  | .declare name _ | .function name _ _ => scopes.extend name.lexeme
  | _ => scopes

def Scopes.parameters (parameters : List Token) : List String :=
  (parameters.map Token.lexeme).reverse

mutual

def Stmt.sites (scopes : Scopes) : Stmt → List Site
  | .expression e | .print e => scopes.sites none e.uses
  | .declare name initial =>
    scopes.sites (scopes.awaited name.lexeme) ((initial.map Expr.uses).getD [])
  | .block body => sitesIn ([] :: scopes) body
  | .ifThen condition yes => scopes.sites none condition.uses ++ yes.sites scopes
  | .ifElse condition yes no =>
    scopes.sites none condition.uses ++ yes.sites scopes ++ no.sites scopes
  | .loop condition body => scopes.sites none condition.uses ++ body.sites scopes
  | .function name parameters body =>
    sitesIn (Scopes.parameters parameters :: scopes.extend name.lexeme) body
  | .leave _ value => scopes.sites none ((value.map Expr.uses).getD [])

def Stmt.sitesIn (scopes : Scopes) : List Stmt → List Site
  | [] => []
  | stmt :: rest => stmt.sites scopes ++ sitesIn (stmt.after scopes) rest

end

def Program.sites (program : Program) : List Site :=
  Stmt.sitesIn [] program

def Program.Premature (program : Program) (id : UseId) : Prop :=
  ∃ site ∈ program.sites, site.isPremature = true ∧ site.use.id = id

@[simp] theorem Scopes.map_use_sites (scopes : Scopes) (initialises : Option String) (uses : List Use) :
    (scopes.sites initialises uses).map Site.use = uses := by
  simp [Scopes.sites, Function.comp_def]

mutual

@[simp] theorem Stmt.map_use_sites (scopes : Scopes) (stmt : Stmt) :
    (stmt.sites scopes).map Site.use = stmt.uses := by
  match stmt with
  | .expression e | .print e => simp [Stmt.sites, Stmt.uses]
  | .declare name initial => simp [Stmt.sites, Stmt.uses]
  | .block body => simp [Stmt.sites, Stmt.uses, Stmt.map_use_sitesIn]
  | .ifThen condition yes => simp [Stmt.sites, Stmt.uses, yes.map_use_sites]
  | .ifElse condition yes no => simp [Stmt.sites, Stmt.uses, yes.map_use_sites, no.map_use_sites]
  | .loop condition body => simp [Stmt.sites, Stmt.uses, body.map_use_sites]
  | .function name parameters body => simp [Stmt.sites, Stmt.uses, Stmt.map_use_sitesIn]
  | .leave keyword value => simp [Stmt.sites, Stmt.uses]

@[simp] theorem Stmt.map_use_sitesIn (scopes : Scopes) (stmts : List Stmt) :
    (Stmt.sitesIn scopes stmts).map Site.use = Stmt.usesIn stmts := by
  match stmts with
  | [] => rfl
  | stmt :: rest => simp [Stmt.sitesIn, Stmt.usesIn, stmt.map_use_sites, Stmt.map_use_sitesIn]

end

theorem Program.map_use_sites (program : Program) : program.sites.map Site.use = program.uses :=
  Stmt.map_use_sitesIn [] program

def Stmt.ownUses : Stmt → List Use
  | .expression e | .print e => e.uses
  | .declare _ value | .leave _ value => (value.map Expr.uses).getD []
  | .ifThen condition _ | .ifElse condition _ _ | .loop condition _ => condition.uses
  | .block _ | .function .. => []

theorem Stmt.sites_ownUses_subset (scopes : Scopes) (stmt : Stmt) :
    ∃ initialises, scopes.sites initialises stmt.ownUses ⊆ stmt.sites scopes := by
  cases stmt with
  | declare name initial => exact ⟨scopes.awaited name.lexeme, by simp [ownUses, sites]⟩
  | _ => exact ⟨none, by simp [ownUses, sites, Scopes.sites]⟩

def Stmt.isDeclaration : Stmt → Bool
  | .declare .. | .function .. => true
  | _ => false

def Stmt.declared : Stmt → List String
  | .declare name _ | .function name _ _ => [name.lexeme]
  | _ => []

def Stmt.declaredIn (stmts : List Stmt) : List String :=
  stmts.flatMap Stmt.declared

theorem Stmt.declared_of_not_declaration {stmt : Stmt} (h : stmt.isDeclaration = false) : stmt.declared = [] := by
  cases stmt <;> simp_all [isDeclaration, declared]

mutual

/-- A branch or the body of a loop is never a declaration, so what is declared behind it does not depend on which way
the program takes. -/
def Stmt.Plain : Stmt → Prop
  | .ifThen _ yes => yes.isDeclaration = false ∧ yes.Plain
  | .ifElse _ yes no => (yes.isDeclaration = false ∧ yes.Plain) ∧ no.isDeclaration = false ∧ no.Plain
  | .loop _ body => body.isDeclaration = false ∧ body.Plain
  | .block body | .function _ _ body => PlainIn body
  | .expression _ | .print _ | .declare .. | .leave .. => True

def Stmt.PlainIn : List Stmt → Prop
  | [] => True
  | stmt :: rest => stmt.Plain ∧ PlainIn rest

end

theorem Stmt.after_of_not_declaration {stmt : Stmt} (h : stmt.isDeclaration = false) (scopes : Scopes) :
    stmt.after scopes = scopes := by
  cases stmt <;> simp_all [isDeclaration, after]

theorem Stmt.uses_forLoop_perm (initial : Option Stmt) (condition increment : Option Expr) (body : Stmt) :
    ((initial.map Stmt.uses).getD [] ++ (condition.map Expr.uses).getD [] ++ (increment.map Expr.uses).getD [] ++
      body.uses).Perm (Stmt.forLoop initial condition increment body).uses := by
  cases increment with
  | none => cases initial <;> cases condition <;> simp [Stmt.forLoop, Stmt.uses, Stmt.usesIn, Expr.uses]
  | some e =>
    -- the increment is read before the body and evaluated after it
    have turned : (e.uses ++ body.uses).Perm (body.uses ++ e.uses) := List.perm_append_comm
    have moved := turned.append_left ((initial.map Stmt.uses).getD [] ++ (condition.map Expr.uses).getD [])
    cases initial <;> cases condition <;>
      simpa [Stmt.forLoop, Stmt.uses, Stmt.usesIn, Expr.uses] using moved

theorem Stmt.plain_forLoop {initial : Option Stmt} {body : Stmt} (condition increment : Option Expr)
    (first : ∀ stmt ∈ initial, stmt.Plain) (branch : body.isDeclaration = false) (plain : body.Plain) :
    (Stmt.forLoop initial condition increment body).Plain := by
  cases initial <;> cases increment <;>
    simp_all [Stmt.forLoop, Stmt.Plain, Stmt.PlainIn, Stmt.isDeclaration]

theorem Stmt.isDeclaration_forLoop (initial : Option Stmt) (condition increment : Option Expr) (body : Stmt) :
    (Stmt.forLoop initial condition increment body).isDeclaration = false := by
  cases initial <;> cases increment <;> rfl

end Scriptlet
