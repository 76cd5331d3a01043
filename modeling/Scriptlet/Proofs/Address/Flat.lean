import Scriptlet.Proofs.Address.Rules

namespace Scriptlet

def Stmt.isStep : List Stmt → Bool
  | [body, .expression _] => !body.isDeclaration
  | _ => false

def Stmt.isFlat (flat : List Stmt → Bool) (repeated : Bool) (stmts : List Stmt) : Bool :=
  repeated && Stmt.isStep stmts && flat stmts

theorem Stmt.not_declaration_of_isFlat {flat : List Stmt → Bool} {repeated : Bool} {stmts : List Stmt}
    (h : Stmt.isFlat flat repeated stmts = true) : ∀ stmt ∈ stmts, stmt.isDeclaration = false := by
  rw [isFlat, Bool.and_eq_true, Bool.and_eq_true] at h
  obtain ⟨⟨-, step⟩, -⟩ := h
  unfold isStep at step
  split at step
  · rw [Bool.not_eq_true'] at step
    exact List.forall_mem_cons.2 ⟨step, List.forall_mem_singleton.2 rfl⟩
  · cases step

/-- A layer of code: a scope, or padding where a block would open a scope but is taken to be flat. -/
inductive Layer
  | scope
  | padding
  deriving DecidableEq

namespace Layer

def ofBlock (flat : List Stmt → Bool) (repeated : Bool) (stmts : List Stmt) : Layer :=
  if Stmt.isFlat flat repeated stmts then .padding else .scope

def shrink : List Layer → Nat → Option Nat
  | [], d => some d
  | .scope :: _, 0 => some 0
  | .padding :: _, 0 => none
  | .scope :: outer, d + 1 => (shrink outer d).map (· + 1)
  | .padding :: outer, d + 1 => shrink outer d

def Open (layers : List Layer) : Prop :=
  layers.head? ≠ some .padding

theorem open_nil : Open [] := nofun

theorem open_scope (layers : List Layer) : Open (.scope :: layers) := nofun

inductive Fits : List Layer → Scopes → Scopes → Prop
  | nil : Fits [] [] []
  | scope (names : List String) {layers : List Layer} {scopes scopes' : Scopes} (outer : Fits layers scopes scopes') :
      Fits (.scope :: layers) (names :: scopes) (names :: scopes')
  | padding {layers : List Layer} {scopes scopes' : Scopes} (outer : Fits layers scopes scopes') :
      Fits (.padding :: layers) ([] :: scopes) scopes'

namespace Fits

variable {layers : List Layer} {scopes scopes' : Scopes}

theorem address? (fits : Fits layers scopes scopes') (x : String) :
    (scopes'.address? x).map some = (scopes.address? x).map (shrink layers) := by
  induction fits with
  | nil => rfl
  | @scope names layers scopes scopes' outer ih =>
    rw [Scopes.address?_cons, Scopes.address?_cons]
    split
    · rfl
    · cases there : Scopes.address? scopes x with
      | none =>
        rw [there, Option.map_none, Option.map_eq_none_iff] at ih
        simp [ih]
      | some d =>
        rw [there, Option.map_some] at ih
        obtain ⟨d', there', same⟩ := Option.map_eq_some_iff.1 ih
        simp [there', shrink, ← same]
  | @padding layers scopes scopes' outer ih =>
    rw [Scopes.address?_cons, if_neg List.not_mem_nil, ih, Option.map_map]
    rfl

theorem extend (fits : Fits layers scopes scopes') (opened : Open layers) (x : String) :
    Fits layers (scopes.extend x) (scopes'.extend x) := by
  cases fits with
  | nil => exact .nil
  | scope names outer => exact .scope (x :: names) outer
  | padding outer => exact absurd rfl opened

theorem after (fits : Fits layers scopes scopes') (stmt : Stmt) (opened : stmt.isDeclaration = true → Open layers) :
    Fits layers (stmt.after scopes) (stmt.after scopes') := by
  cases stmt with
  | declare name initial => exact fits.extend (opened rfl) _
  | function name parameters body => exact fits.extend (opened rfl) _
  | _ => exact fits

theorem visible (fits : Fits layers scopes scopes') (opened : Open layers) (x : String) (u : Use) :
    Fits layers (Site.visible ⟨u, scopes, scopes.awaited x⟩) (Site.visible ⟨u, scopes', scopes'.awaited x⟩) := by
  cases fits with
  | nil => exact .nil
  | scope names outer => exact .scope (x :: names) outer
  | padding outer => exact absurd rfl opened

theorem block (fits : Fits layers scopes scopes') (flat : List Stmt → Bool) (repeated : Bool) (stmts : List Stmt) :
    Fits (ofBlock flat repeated stmts :: layers) ([] :: scopes)
      (if Stmt.isFlat flat repeated stmts then scopes' else [] :: scopes') := by
  unfold ofBlock
  split
  · exact .padding fits
  · exact .scope [] fits

end Fits

end Layer

mutual

def Stmt.flatSites (flat : List Stmt → Bool) (repeated : Bool) (scopes : Scopes) : Stmt → List Site
  | .expression e | .print e => scopes.sites none e.uses
  | .declare name initial => scopes.sites (scopes.awaited name.lexeme) ((initial.map Expr.uses).getD [])
  | .block body => flatSitesIn flat (if Stmt.isFlat flat repeated body then scopes else [] :: scopes) body
  | .ifThen condition yes => scopes.sites none condition.uses ++ yes.flatSites flat false scopes
  | .ifElse condition yes no =>
    scopes.sites none condition.uses ++ yes.flatSites flat false scopes ++ no.flatSites flat false scopes
  | .loop condition body => scopes.sites none condition.uses ++ body.flatSites flat true scopes
  | .function name parameters body =>
    flatSitesIn flat (Scopes.parameters parameters :: scopes.extend name.lexeme) body
  | .leave _ value => scopes.sites none ((value.map Expr.uses).getD [])

def Stmt.flatSitesIn (flat : List Stmt → Bool) (scopes : Scopes) : List Stmt → List Site
  | [] => []
  | stmt :: rest => stmt.flatSites flat false scopes ++ flatSitesIn flat (stmt.after scopes) rest

end

def Program.flatSites (flat : List Stmt → Bool) (program : Program) : List Site :=
  Stmt.flatSitesIn flat [] program

mutual

theorem Stmt.map_use_flatSites (flat : List Stmt → Bool) (repeated : Bool) (scopes : Scopes) (stmt : Stmt) :
    (stmt.flatSites flat repeated scopes).map Site.use = stmt.uses := by
  match stmt with
  | .expression e | .print e => simp [flatSites, uses]
  | .declare name initial => simp [flatSites, uses]
  | .block body => simp [flatSites, uses, map_use_flatSitesIn]
  | .ifThen condition yes => simp [flatSites, uses, yes.map_use_flatSites]
  | .ifElse condition yes no => simp [flatSites, uses, yes.map_use_flatSites, no.map_use_flatSites]
  | .loop condition body => simp [flatSites, uses, body.map_use_flatSites]
  | .function name parameters body => simp [flatSites, uses, map_use_flatSitesIn]
  | .leave keyword value => simp [flatSites, uses]

theorem Stmt.map_use_flatSitesIn (flat : List Stmt → Bool) (scopes : Scopes) (stmts : List Stmt) :
    (Stmt.flatSitesIn flat scopes stmts).map Site.use = Stmt.usesIn stmts := by
  match stmts with
  | [] => rfl
  | stmt :: rest => simp [flatSitesIn, usesIn, stmt.map_use_flatSites, map_use_flatSitesIn]

end

theorem Program.map_use_flatSites (flat : List Stmt → Bool) (program : Program) :
    (program.flatSites flat).map Site.use = program.uses :=
  Stmt.map_use_flatSitesIn flat [] program

mutual

theorem Stmt.flatSites_never (repeated : Bool) (scopes : Scopes) (stmt : Stmt) :
    stmt.flatSites (fun _ => false) repeated scopes = stmt.sites scopes := by
  match stmt with
  | .expression e | .print e | .declare name initial | .leave keyword value => rfl
  | .block body => simp [flatSites, sites, isFlat, flatSitesIn_never]
  | .ifThen condition yes => simp [flatSites, sites, yes.flatSites_never]
  | .ifElse condition yes no => simp [flatSites, sites, yes.flatSites_never, no.flatSites_never]
  | .loop condition body => simp [flatSites, sites, body.flatSites_never]
  | .function name parameters body => simp [flatSites, sites, flatSitesIn_never]

theorem Stmt.flatSitesIn_never (scopes : Scopes) (stmts : List Stmt) :
    Stmt.flatSitesIn (fun _ => false) scopes stmts = Stmt.sitesIn scopes stmts := by
  match stmts with
  | [] => rfl
  | stmt :: rest => simp [flatSitesIn, sitesIn, stmt.flatSites_never, flatSitesIn_never]

end

def Program.flatAddresses (flat : List Stmt → Bool) (program : Program) : Addresses :=
  (∅ : Addresses).recordAll (program.flatSites flat)

section FlatAddresses

variable {flat : List Stmt → Bool} {program : Program}

theorem Program.getElem?_flatAddresses {site : Site} (proper : program.Proper) (mem : site ∈ program.flatSites flat) :
    (program.flatAddresses flat)[site.use.id]? = site.address? := by
  have nodup := proper.nodup
  rw [← program.map_use_flatSites flat, List.map_map] at nodup
  exact Addresses.getElem?_recordAll_of_mem mem nodup fun _ _ => Std.TreeMap.getElem?_emptyc

theorem Program.getElem?_flatAddresses_of_unused {id : UseId} (unused : ∀ u ∈ program.uses, u.id ≠ id) :
    (program.flatAddresses flat)[id]? = none := by
  rw [flatAddresses, Addresses.getElem?_recordAll_of_notMem]
  · exact Std.TreeMap.getElem?_emptyc
  · intro site mem
    refine unused site.use ?_
    rw [← program.map_use_flatSites flat]
    exact List.mem_map_of_mem mem

theorem Program.flatAddresses_never (proper : program.Proper) (accepts : (Scoping.start.resolve program).2 = none) :
    program.flatAddresses (fun _ => false) = (Scoping.start.resolve program).1.addresses := by
  rw [flatAddresses, flatSites, Stmt.flatSitesIn_never]
  exact (Scoping.resolve_recorded proper.plain (Prod.ext rfl accepts)).1.symm

end FlatAddresses

structure Part where
  layers : List Layer
  repeated : Bool
  stmt : Stmt

mutual

def Stmt.parts (flat : List Stmt → Bool) (layers : List Layer) (repeated : Bool) (stmt : Stmt) : List Part :=
  ⟨layers, repeated, stmt⟩ ::
    match stmt with
    | .block body => partsIn flat (.ofBlock flat repeated body :: layers) body
    | .ifThen _ yes => yes.parts flat layers false
    | .ifElse _ yes no => yes.parts flat layers false ++ no.parts flat layers false
    | .loop _ body => body.parts flat layers true
    | .function _ _ body => partsIn flat (.scope :: layers) body
    | .expression _ | .print _ | .declare .. | .leave .. => []

def Stmt.partsIn (flat : List Stmt → Bool) (layers : List Layer) : List Stmt → List Part
  | [] => []
  | stmt :: rest => stmt.parts flat layers false ++ partsIn flat layers rest

end

def Program.parts (flat : List Stmt → Bool) (program : Program) : List Part :=
  Stmt.partsIn flat [] program

/-- Some steps that open no scope, and the addresses of uses with and without the scopes of these. -/
structure Flattening where
  flat : List Stmt → Bool
  addresses : Addresses
  addresses' : Addresses

namespace Flattening

variable (F : Flattening)

def Aligns (layers : List Layer) (u : Use) : Prop :=
  F.addresses'[u.id]?.map some = F.addresses[u.id]?.map (Layer.shrink layers)

mutual

/-- A statement within layers whose uses all have the same addresses on both sides, but for padding. Nothing is declared
where the innermost layer is padding. -/
def Aligned (layers : List Layer) (repeated : Bool) : Stmt → Prop
  | .expression e | .print e => ∀ u ∈ e.uses, F.Aligns layers u
  | .declare _ initial => Layer.Open layers ∧ ∀ u ∈ (initial.map Expr.uses).getD [], F.Aligns layers u
  | .block body => AlignedIn (.ofBlock F.flat repeated body :: layers) body
  | .ifThen condition yes => (∀ u ∈ condition.uses, F.Aligns layers u) ∧ Aligned layers false yes
  | .ifElse condition yes no =>
    (∀ u ∈ condition.uses, F.Aligns layers u) ∧ Aligned layers false yes ∧ Aligned layers false no
  | .loop condition body => (∀ u ∈ condition.uses, F.Aligns layers u) ∧ Aligned layers true body
  | .function _ _ body => Layer.Open layers ∧ AlignedIn (.scope :: layers) body
  | .leave _ value => ∀ u ∈ (value.map Expr.uses).getD [], F.Aligns layers u

def AlignedIn (layers : List Layer) : List Stmt → Prop
  | [] => True
  | stmt :: rest => Aligned layers false stmt ∧ AlignedIn layers rest

end

section Parts

variable {F}

mutual

theorem aligned_of_mem_parts {layers : List Layer} {repeated : Bool} {part : Part} (stmt : Stmt)
    (aligned : F.Aligned layers repeated stmt) (mem : part ∈ stmt.parts F.flat layers repeated) :
    F.Aligned part.layers part.repeated part.stmt := by
  match stmt with
  | .expression e | .print e | .declare name initial | .leave keyword value =>
    cases List.mem_singleton.1 mem
    exact aligned
  | .block body =>
    rcases List.mem_cons.1 mem with rfl | mem
    · exact aligned
    · exact aligned_of_mem_partsIn body aligned mem
  | .ifThen condition yes =>
    rcases List.mem_cons.1 mem with rfl | mem
    · exact aligned
    · exact aligned_of_mem_parts yes aligned.2 mem
  | .ifElse condition yes no =>
    rcases List.mem_cons.1 mem with rfl | mem
    · exact aligned
    rcases List.mem_append.1 mem with mem | mem
    · exact aligned_of_mem_parts yes aligned.2.1 mem
    · exact aligned_of_mem_parts no aligned.2.2 mem
  | .loop condition body =>
    rcases List.mem_cons.1 mem with rfl | mem
    · exact aligned
    · exact aligned_of_mem_parts body aligned.2 mem
  | .function name parameters body =>
    rcases List.mem_cons.1 mem with rfl | mem
    · exact aligned
    · exact aligned_of_mem_partsIn body aligned.2 mem

theorem aligned_of_mem_partsIn {layers : List Layer} {part : Part} (stmts : List Stmt) (aligned : F.AlignedIn layers stmts)
    (mem : part ∈ Stmt.partsIn F.flat layers stmts) : F.Aligned part.layers part.repeated part.stmt := by
  match stmts with
  | [] => cases mem
  | stmt :: rest =>
    rcases List.mem_append.1 mem with mem | mem
    · exact aligned_of_mem_parts stmt aligned.1 mem
    · exact aligned_of_mem_partsIn rest aligned.2 mem

end

theorem aligned_forLoop {layers : List Layer} {repeated : Bool} {initial : Option Stmt} {condition increment : Option Expr}
    {body : Stmt} (aligned : F.Aligned layers repeated (.forLoop initial condition increment body)) :
    F.Aligned layers false (.forLoop initial condition increment body) := by
  cases initial with
  | none => exact aligned
  | some first =>
    have opens (repeated : Bool) (condition : Expr) (step : Stmt) :
        Layer.ofBlock F.flat repeated [first, .loop condition step] = .scope := by
      simp [Layer.ofBlock, Stmt.isFlat, Stmt.isStep]
    simp only [Stmt.forLoop, Aligned, opens] at aligned ⊢
    exact aligned

end Parts

section Tables

variable {F} {G : Flattening}

structure Agrees (F G : Flattening) (uses : List Use) : Prop where
  left : ∀ u ∈ uses, G.addresses[u.id]? = F.addresses[u.id]?
  right : ∀ u ∈ uses, G.addresses'[u.id]? = F.addresses'[u.id]?

theorem Agrees.mono {uses more : List Use} (h : Agrees F G more) (sub : uses ⊆ more) : Agrees F G uses :=
  ⟨fun u mem => h.left u (sub mem), fun u mem => h.right u (sub mem)⟩

theorem Agrees.aligns {layers : List Layer} {uses : List Use} (h : Agrees F G uses)
    (aligned : ∀ u ∈ uses, F.Aligns layers u) : ∀ u ∈ uses, G.Aligns layers u := by
  intro u mem
  rw [Aligns, h.left u mem, h.right u mem]
  exact aligned u mem

mutual

theorem Agrees.aligned {layers : List Layer} {repeated : Bool} (stmt : Stmt) (h : Agrees F G stmt.uses)
    (flat : G.flat = F.flat) (aligned : F.Aligned layers repeated stmt) : G.Aligned layers repeated stmt := by
  match stmt with
  | .expression e | .print e | .leave keyword value => exact h.aligns aligned
  | .declare name initial => exact ⟨aligned.1, h.aligns aligned.2⟩
  | .block body =>
    rw [Aligned, flat]
    exact Agrees.alignedIn body h flat aligned
  | .ifThen condition yes =>
    exact ⟨(h.mono (by simp [Stmt.uses])).aligns aligned.1,
      Agrees.aligned yes (h.mono (by simp [Stmt.uses])) flat aligned.2⟩
  | .ifElse condition yes no =>
    exact ⟨(h.mono (by simp [Stmt.uses])).aligns aligned.1,
      Agrees.aligned yes (h.mono (by simp [Stmt.uses])) flat aligned.2.1,
      Agrees.aligned no (h.mono (by simp [Stmt.uses])) flat aligned.2.2⟩
  | .loop condition body =>
    exact ⟨(h.mono (by simp [Stmt.uses])).aligns aligned.1,
      Agrees.aligned body (h.mono (by simp [Stmt.uses])) flat aligned.2⟩
  | .function name parameters body => exact ⟨aligned.1, Agrees.alignedIn body h flat aligned.2⟩

theorem Agrees.alignedIn {layers : List Layer} (stmts : List Stmt) (h : Agrees F G (Stmt.usesIn stmts))
    (flat : G.flat = F.flat) (aligned : F.AlignedIn layers stmts) : G.AlignedIn layers stmts := by
  match stmts with
  | [] => trivial
  | stmt :: rest =>
    exact ⟨Agrees.aligned stmt (h.mono (by simp [Stmt.usesIn])) flat aligned.1,
      Agrees.alignedIn rest (h.mono (by simp [Stmt.usesIn])) flat aligned.2⟩

end

end Tables

section Sites

variable {F}

theorem aligns_of_sites {layers : List Layer} {scopes scopes' : Scopes} {initialises initialises' : Option String}
    {uses : List Use}
    (fits : ∀ u, Layer.Fits layers (Site.visible ⟨u, scopes, initialises⟩) (Site.visible ⟨u, scopes', initialises'⟩))
    (left : ∀ site ∈ scopes.sites initialises uses, F.addresses[site.use.id]? = site.address?)
    (right : ∀ site ∈ scopes'.sites initialises' uses, F.addresses'[site.use.id]? = site.address?) :
    ∀ u ∈ uses, F.Aligns layers u := by
  intro u used
  rw [Aligns, left ⟨u, scopes, initialises⟩ (List.mem_map_of_mem used),
    right ⟨u, scopes', initialises'⟩ (List.mem_map_of_mem used)]
  exact (fits u).address? _

theorem aligns_of_fits {layers : List Layer} {scopes scopes' : Scopes} {uses : List Use}
    (fits : Layer.Fits layers scopes scopes')
    (left : ∀ site ∈ scopes.sites none uses, F.addresses[site.use.id]? = site.address?)
    (right : ∀ site ∈ scopes'.sites none uses, F.addresses'[site.use.id]? = site.address?) :
    ∀ u ∈ uses, F.Aligns layers u := by
  refine aligns_of_sites (fun u => ?_) left right
  exact fits

mutual

theorem aligned_of_sites {layers : List Layer} {scopes scopes' : Scopes} (repeated : Bool) (stmt : Stmt)
    (fits : Layer.Fits layers scopes scopes') (plain : stmt.Plain)
    (opened : stmt.isDeclaration = true → Layer.Open layers)
    (left : ∀ site ∈ stmt.sites scopes, F.addresses[site.use.id]? = site.address?)
    (right : ∀ site ∈ stmt.flatSites F.flat repeated scopes', F.addresses'[site.use.id]? = site.address?) :
    F.Aligned layers repeated stmt := by
  match stmt with
  | .expression e | .print e => exact aligns_of_fits fits left right
  | .declare name initial =>
    exact ⟨opened rfl, aligns_of_sites (fits.visible (opened rfl) _) left right⟩
  | .block body =>
    refine alignedIn_of_sites body (fits.block F.flat repeated body) plain (fun stmt mem declares padded => ?_) left right
    unfold Layer.ofBlock at padded
    split at padded
    · next flat => exact absurd declares (by simp [Stmt.not_declaration_of_isFlat flat stmt mem])
    · cases padded
  | .ifThen condition yes =>
    rw [Stmt.sites, List.forall_mem_append] at left
    rw [Stmt.flatSites, List.forall_mem_append] at right
    refine ⟨aligns_of_fits fits left.1 right.1, ?_⟩
    exact aligned_of_sites false yes fits plain.2 (by simp [plain.1]) left.2 right.2
  | .ifElse condition yes no =>
    rw [Stmt.sites, List.forall_mem_append, List.forall_mem_append] at left
    rw [Stmt.flatSites, List.forall_mem_append, List.forall_mem_append] at right
    obtain ⟨⟨yesBranch, yesPlain⟩, noBranch, noPlain⟩ := plain
    refine ⟨aligns_of_fits fits left.1.1 right.1.1, ?_, ?_⟩
    · exact aligned_of_sites false yes fits yesPlain (by simp [yesBranch]) left.1.2 right.1.2
    · exact aligned_of_sites false no fits noPlain (by simp [noBranch]) left.2 right.2
  | .loop condition body =>
    rw [Stmt.sites, List.forall_mem_append] at left
    rw [Stmt.flatSites, List.forall_mem_append] at right
    refine ⟨aligns_of_fits fits left.1 right.1, ?_⟩
    exact aligned_of_sites true body fits plain.2 (by simp [plain.1]) left.2 right.2
  | .function name parameters body =>
    have inner := Layer.Fits.scope (Scopes.parameters parameters) (fits.extend (opened rfl) name.lexeme)
    exact ⟨opened rfl, alignedIn_of_sites body inner plain (fun _ _ _ => Layer.open_scope layers) left right⟩
  | .leave _ value => exact aligns_of_fits fits left right

theorem alignedIn_of_sites {layers : List Layer} {scopes scopes' : Scopes} (stmts : List Stmt)
    (fits : Layer.Fits layers scopes scopes') (plain : Stmt.PlainIn stmts)
    (opened : ∀ stmt ∈ stmts, stmt.isDeclaration = true → Layer.Open layers)
    (left : ∀ site ∈ Stmt.sitesIn scopes stmts, F.addresses[site.use.id]? = site.address?)
    (right : ∀ site ∈ Stmt.flatSitesIn F.flat scopes' stmts, F.addresses'[site.use.id]? = site.address?) :
    F.AlignedIn layers stmts := by
  match stmts with
  | [] => trivial
  | stmt :: rest =>
    obtain ⟨here, later⟩ := List.forall_mem_cons.1 opened
    rw [Stmt.sitesIn, List.forall_mem_append] at left
    rw [Stmt.flatSitesIn, List.forall_mem_append] at right
    refine ⟨aligned_of_sites false stmt fits plain.1 here left.1 right.1, ?_⟩
    exact alignedIn_of_sites rest (fits.after stmt here) plain.2 later left.2 right.2

end

end Sites

end Flattening

end Scriptlet
