import Scriptlet.Machine
import Scriptlet.Proofs.Address.Rules
import Scriptlet.Proofs.Store.Growth

/-!
What a run relies on. A directory lists the uses of all code that can run: their addresses, and which of them are
premature. A machine is valid when every function value in its store has a body that the directory lists, in a frame
whose chain covers the scopes around the body. Then each use agrees with the frames it is evaluated in. All this code obeys
the rules of scoping, so a declaration in it finds its name free in the frame of its scope.
-/

namespace Scriptlet

/-- What is known of the uses that can be evaluated. -/
structure Directory where
  addresses : Addresses
  premature : UseId → Prop
  limit : Nat

namespace Directory

variable (directory : Directory)

def setting (clock : Nat → Float) : Machine.Setting :=
  ⟨directory.addresses, .lexical, clock⟩

structure Lists (site : Site) : Prop where
  lawful : site.Lawful
  address : directory.addresses[site.use.id]? = site.address?
  premature : directory.premature site.use.id ↔ site.isPremature = true

/-- Statements that can run behind the declarations of some scopes. -/
structure Knows (scopes : Scopes) (stmts : List Stmt) : Prop where
  plain : Stmt.PlainIn stmts
  obeys : ∃ inFunction, Stmt.ObeysIn scopes inFunction stmts
  lists : ∀ site ∈ Stmt.sitesIn scopes stmts, directory.Lists site
  lasts : Stmt.declaresFunctionIn stmts = true → ∀ i : Nat, i ∈ (Stmt.usesIn stmts).map Use.id → i < directory.limit

/-- A function may be called if its parameters differ and its frame covers the scopes around its body, and of those that
are built in only the clock may be. -/
def Admits (store : Store) : Callable → Prop
  | .closure _ parameters body frame =>
    (∃ scopes, store.Covers frame scopes ∧ directory.Knows (Scopes.parameters parameters :: scopes) body) ∧
      (parameters.map Token.lexeme).Nodup ∧ ∀ i : Nat, i ∈ (Stmt.usesIn body).map Use.id → i < directory.limit
  | .builtin builtin => builtin.action = .clock

def AdmitsValue (store : Store) (value : Value) : Prop :=
  ∀ serial callable, value = .function serial callable → directory.Admits store callable

structure Valid (m : Machine) : Prop where
  current : m.current < m.store.frames.size
  values : ∀ f x v, m.store.find? f x = some v → directory.AdmitsValue m.store v

/-- A use agrees with a machine that evaluates it: the frame at its address binds the name, or the use is premature and
no frame at its address does. -/
inductive Agrees (m : Machine) (u : Use) : Prop
  | bound (mature : ¬directory.premature u.id)
      (binds : ∀ d, directory.addresses[u.id]? = some d → m.store.BindsAt m.current d u.name.lexeme)
  | unborn (assigns : u.assigns = true) (premature : directory.premature u.id)
      (address : directory.addresses[u.id]? = some 0) (unbound : m.store.binds m.current u.name.lexeme = false)

structure Steps (spot : Option FrameId) (m m' : Machine) : Prop where
  valid : directory.Valid m'
  grows : m.store.Grows spot m'.store
  current : m'.current = m.current

variable {directory} {s t : Store} {m m' m'' : Machine} {spot : Option FrameId} {callable : Callable} {v : Value}

theorem Admits.grow (h : directory.Admits s callable) (grows : s.Grows spot t) : directory.Admits t callable := by
  cases callable with
  | closure name parameters body frame =>
    obtain ⟨⟨scopes, covers, knows⟩, rest⟩ := h
    exact ⟨⟨scopes, covers.grow grows, knows⟩, rest⟩
  | builtin builtin => exact h

theorem AdmitsValue.grow (h : directory.AdmitsValue s v) (grows : s.Grows spot t) : directory.AdmitsValue t v :=
  fun serial callable same => (h serial callable same).grow grows

@[simp] theorem admitsValue_nil : directory.AdmitsValue s .nil := by
  rintro _ _ ⟨⟩

@[simp] theorem admitsValue_boolean (value : Bool) : directory.AdmitsValue s (.boolean value) := by
  rintro _ _ ⟨⟩

@[simp] theorem admitsValue_number (value : Float) : directory.AdmitsValue s (.number value) := by
  rintro _ _ ⟨⟩

@[simp] theorem admitsValue_text (content : String) : directory.AdmitsValue s (.text content) := by
  rintro _ _ ⟨⟩

theorem Agrees.step {u : Use} (h : directory.Agrees m u) (valid : directory.Valid m)
    (steps : directory.Steps none m m') : directory.Agrees m' u := by
  cases h with
  | bound mature binds =>
    refine .bound mature fun d address => ?_
    rw [steps.current]
    exact steps.grows.bindsAt (binds d address)
  | unborn assigns premature address unbound =>
    refine .unborn assigns premature address ?_
    rw [steps.current, steps.grows.fixed _ _ valid.current nofun, unbound]

namespace Steps

theorem refl (spot : Option FrameId) (valid : directory.Valid m) : directory.Steps spot m m :=
  ⟨valid, .refl spot _, rfl⟩

theorem trans (h : directory.Steps spot m m') (k : directory.Steps spot m' m'') : directory.Steps spot m m'' :=
  ⟨k.valid, h.grows.trans k.grows, k.current.trans h.current⟩

theorem anywhere (h : directory.Steps none m m') (spot : Option FrameId) : directory.Steps spot m m' :=
  ⟨h.valid, h.grows.anywhere spot, h.current⟩

theorem outside {f : FrameId} (h : directory.Steps (some f) m m') (new : m.store.frames.size ≤ f) :
    directory.Steps none m m' :=
  ⟨h.valid, h.grows.outside new, h.current⟩

end Steps

theorem Lists.agrees {site : Site} (lists : directory.Lists site)
    (renders : m.store.Renders m.current site.scopes) : directory.Agrees m site.use := by
  obtain ⟨use, scopes, initialises⟩ := site
  by_cases reflexive : initialises = some use.name.lexeme
  · -- the name is declared but not bound yet, since the innermost frame binds only what was declared before
    subst reflexive
    obtain ⟨inside, fresh⟩ := lists.lawful.awaits _ rfl
    have assigns : use.assigns = true := by
      cases reads : use.assigns with
      | true => rfl
      | false => simpa [Site.isReflexive] using lists.lawful.settled reads
    refine .unborn assigns (lists.premature.2 (by simp [Site.isPremature, Site.isReflexive, assigns])) ?_ ?_
    · rw [lists.address]
      cases scopes with
      | nil => exact absurd rfl inside
      | cons names outer => exact Scopes.address?_extend_self ..
    · exact Bool.eq_false_iff.2 fun bound => fresh (renders.exact inside _ bound)
  · -- the waiting name, if there is one, is another and does not change the address
    refine .bound ?_ fun d address => renders.covers.bindsAt ?_
    · rw [lists.premature]
      simp [Site.isPremature, Site.isReflexive, reflexive]
    · rw [lists.address] at address
      rw [← address]
      cases initialises with
      | none => rfl
      | some x => exact (Scopes.address?_extend_of_ne (fun same => reflexive (congrArg some same.symm)) scopes).symm

namespace Knows

variable {scopes inner : Scopes} {stmts parts rest body : List Stmt} {stmt yes no : Stmt} {condition : Expr}

theorem part (h : directory.Knows scopes stmts) (plain : Stmt.PlainIn parts)
    (obeys : ∃ inFunction, Stmt.ObeysIn inner inFunction parts)
    (sites : Stmt.sitesIn inner parts ⊆ Stmt.sitesIn scopes stmts)
    (functions : Stmt.declaresFunctionIn parts = true → Stmt.declaresFunctionIn stmts = true) :
    directory.Knows inner parts where
  plain := plain
  obeys := obeys
  lists site mem := h.lists site (sites mem)
  lasts declares i mem := by
    refine h.lasts (functions declares) i ?_
    rw [← Stmt.map_use_sitesIn inner] at mem
    rw [← Stmt.map_use_sitesIn scopes]
    exact List.map_subset _ (List.map_subset _ sites) mem

theorem head (h : directory.Knows scopes (stmt :: rest)) : directory.Knows scopes [stmt] := by
  obtain ⟨inFunction, first, _⟩ := h.obeys
  refine h.part ⟨h.plain.1, trivial⟩ ⟨inFunction, first, trivial⟩ ?_ ?_
  · simp [Stmt.sitesIn]
  · simp +contextual [Stmt.declaresFunctionIn]

theorem tail (h : directory.Knows scopes (stmt :: rest)) : directory.Knows (stmt.after scopes) rest := by
  obtain ⟨inFunction, _, rest⟩ := h.obeys
  refine h.part h.plain.2 ⟨inFunction, rest⟩ ?_ ?_
  · simp [Stmt.sitesIn]
  · simp +contextual [Stmt.declaresFunctionIn]

theorem block (h : directory.Knows scopes [.block body]) : directory.Knows ([] :: scopes) body := by
  obtain ⟨inFunction, inner, _⟩ := h.obeys
  refine h.part h.plain.1 ⟨inFunction, inner⟩ ?_ ?_
  · simp [Stmt.sitesIn, Stmt.sites]
  · simp +contextual [Stmt.declaresFunctionIn, Stmt.declaresFunction]

theorem ifThen (h : directory.Knows scopes [.ifThen condition yes]) : directory.Knows scopes [yes] := by
  obtain ⟨inFunction, inner, _⟩ := h.obeys
  refine h.part ⟨h.plain.1.2, trivial⟩ ⟨inFunction, inner, trivial⟩ ?_ ?_
  · simp [Stmt.sitesIn, Stmt.sites]
  · simp +contextual [Stmt.declaresFunctionIn, Stmt.declaresFunction]

theorem ifElse (h : directory.Knows scopes [.ifElse condition yes no]) :
    directory.Knows scopes [yes] ∧ directory.Knows scopes [no] := by
  obtain ⟨inFunction, ⟨first, second⟩, _⟩ := h.obeys
  refine ⟨h.part ⟨h.plain.1.1.2, trivial⟩ ⟨inFunction, first, trivial⟩ ?_ ?_,
    h.part ⟨h.plain.1.2.2, trivial⟩ ⟨inFunction, second, trivial⟩ ?_ ?_⟩
  · intro site mem
    simp_all [Stmt.sitesIn, Stmt.sites]
  · simp +contextual [Stmt.declaresFunctionIn, Stmt.declaresFunction]
  · intro site mem
    simp_all [Stmt.sitesIn, Stmt.sites]
  · simp +contextual [Stmt.declaresFunctionIn, Stmt.declaresFunction]

theorem loop (h : directory.Knows scopes [.loop condition stmt]) : directory.Knows scopes [stmt] := by
  obtain ⟨inFunction, inner, _⟩ := h.obeys
  refine h.part ⟨h.plain.1.2, trivial⟩ ⟨inFunction, inner, trivial⟩ ?_ ?_
  · simp [Stmt.sitesIn, Stmt.sites]
  · simp +contextual [Stmt.declaresFunctionIn, Stmt.declaresFunction]

theorem admits {name : Token} {parameters : List Token} {frame : FrameId}
    (h : directory.Knows scopes [.function name parameters body])
    (covers : s.Covers frame (scopes.extend name.lexeme)) :
    directory.Admits s (.closure name parameters body frame) := by
  obtain ⟨_, ⟨_, distinct, inner⟩, _⟩ := h.obeys
  refine ⟨⟨scopes.extend name.lexeme, covers, h.part h.plain.1 ⟨true, inner⟩ ?_ ?_⟩, distinct, ?_⟩
  · simp [Stmt.sitesIn, Stmt.sites]
  · simp +contextual [Stmt.declaresFunctionIn, Stmt.declaresFunction]
  · simpa [Stmt.usesIn, Stmt.uses] using h.lasts rfl

theorem fresh_declare {name : Token} {initial : Option Expr} (h : directory.Knows scopes [.declare name initial]) :
    name.lexeme ∉ scopes.innermost := by
  obtain ⟨_, ⟨fresh, _⟩, _⟩ := h.obeys
  exact fresh

theorem fresh_function {name : Token} {parameters : List Token}
    (h : directory.Knows scopes [.function name parameters body]) : name.lexeme ∉ scopes.innermost := by
  obtain ⟨_, ⟨fresh, _⟩, _⟩ := h.obeys
  exact fresh

theorem agrees (h : directory.Knows scopes [stmt]) (renders : m.store.Renders m.current scopes) :
    ∀ u ∈ stmt.ownUses, directory.Agrees m u := by
  obtain ⟨initialises, sites⟩ := stmt.sites_ownUses_subset scopes
  intro u mem
  have own : ⟨u, scopes, initialises⟩ ∈ stmt.sites scopes := sites (List.mem_map.2 ⟨u, mem, rfl⟩)
  have listed := h.lists ⟨u, scopes, initialises⟩ (List.mem_append_left _ own)
  exact listed.agrees renders

end Knows

variable {directory' : Directory}

structure Extends (directory directory' : Directory) : Prop where
  limit : directory.limit ≤ directory'.limit
  addresses : ∀ i : Nat, i < directory.limit → directory'.addresses[i]? = directory.addresses[i]?
  premature : ∀ i : Nat, i < directory.limit → (directory'.premature i ↔ directory.premature i)

theorem Knows.extend {scopes : Scopes} {stmts : List Stmt} (h : directory.Knows scopes stmts)
    (below : ∀ i : Nat, i ∈ (Stmt.usesIn stmts).map Use.id → i < directory.limit)
    (ext : directory.Extends directory') : directory'.Knows scopes stmts where
  plain := h.plain
  obeys := h.obeys
  lists site mem := by
    have lists := h.lists site mem
    have used : site.use ∈ Stmt.usesIn stmts := Stmt.map_use_sitesIn scopes stmts ▸ List.mem_map.2 ⟨site, mem, rfl⟩
    have low := below site.use.id (List.mem_map.2 ⟨site.use, used, rfl⟩)
    refine ⟨lists.lawful, ?_, ?_⟩
    · rw [ext.addresses _ low, lists.address]
    · rw [ext.premature _ low, lists.premature]
  lasts _ i mem := Nat.lt_of_lt_of_le (below i mem) ext.limit

theorem Admits.extend (h : directory.Admits s callable) (ext : directory.Extends directory') :
    directory'.Admits s callable := by
  cases callable with
  | closure name parameters body frame =>
    obtain ⟨⟨scopes, covers, knows⟩, distinct, below⟩ := h
    refine ⟨⟨scopes, covers, knows.extend below ext⟩, distinct, ?_⟩
    exact fun i mem => Nat.lt_of_lt_of_le (below i mem) ext.limit
  | builtin builtin => exact h

theorem Valid.extend (h : directory.Valid m) (ext : directory.Extends directory') : directory'.Valid m :=
  ⟨h.current, fun f x v found serial callable same => (h.values f x v found serial callable same).extend ext⟩

end Directory
end Scriptlet
