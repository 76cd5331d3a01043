import Scriptlet.Proofs.Machine.Search
import Scriptlet.Proofs.Session.Outcome

namespace Scriptlet

def Stmt.InOrder (stmts : List Stmt) : Prop :=
  stmts.Pairwise fun earlier later => ∀ u ∈ earlier.uses, u.name.lexeme ∉ later.declared

mutual

def Stmt.Orderly : Stmt → Prop
  | .block body | .function _ _ body => InOrder body ∧ OrderlyIn body
  | .ifThen _ yes => yes.Orderly
  | .ifElse _ yes no => yes.Orderly ∧ no.Orderly
  | .loop _ body => body.Orderly
  | .expression _ | .print _ | .declare .. | .leave .. => True

def Stmt.OrderlyIn : List Stmt → Prop
  | [] => True
  | stmt :: rest => stmt.Orderly ∧ OrderlyIn rest

end

instance (stmts : List Stmt) : Decidable (Stmt.InOrder stmts) :=
  inferInstanceAs (Decidable (stmts.Pairwise _))

mutual

def Stmt.decidableOrderly : (stmt : Stmt) → Decidable stmt.Orderly
  | .block body | .function _ _ body => @instDecidableAnd _ _ inferInstance (decidableOrderlyIn body)
  | .ifThen _ yes => yes.decidableOrderly
  | .ifElse _ yes no => @instDecidableAnd _ _ yes.decidableOrderly no.decidableOrderly
  | .loop _ body => body.decidableOrderly
  | .expression _ | .print _ | .declare .. | .leave .. => .isTrue trivial

def Stmt.decidableOrderlyIn : (stmts : List Stmt) → Decidable (Stmt.OrderlyIn stmts)
  | [] => .isTrue trivial
  | stmt :: rest => @instDecidableAnd _ _ stmt.decidableOrderly (decidableOrderlyIn rest)

end

instance (stmts : List Stmt) : Decidable (Stmt.OrderlyIn stmts) :=
  Stmt.decidableOrderlyIn stmts

/-- Of each scope around a place the names that it has declared, and all that it ever declares. -/
abbrev Layers := List (List String × List String)

namespace Layers

def scopes (layers : Layers) : Scopes :=
  layers.map Prod.fst

def place : Layers → Place
  | [] => .global
  | (declared, ever) :: outer =>
    .scope (declared.map fun x => (x, x)) (fun x x' => x = x' ∧ x ∈ ever) (place outer)

def extend (name : String) : Layers → Layers
  | [] => []
  | (declared, ever) :: outer => (name :: declared, ever) :: outer

def after (layers : Layers) : Stmt → Layers
  | .declare name _ | .function name _ _ => layers.extend name.lexeme
  | _ => layers

def Settled (layers : Layers) (x : String) : Prop :=
  ∀ layer ∈ layers, x ∈ layer.2 → x ∈ layer.1

theorem scopes_extend (name : String) (layers : Layers) : (layers.extend name).scopes = layers.scopes.extend name := by
  cases layers <;> rfl

theorem scopes_after (layers : Layers) (stmt : Stmt) : (layers.after stmt).scopes = stmt.after layers.scopes := by
  cases stmt <;> first | rfl | exact scopes_extend ..

@[simp] theorem after_nil (stmt : Stmt) : after [] stmt = [] := by
  cases stmt <;> rfl

theorem after_cons (declared ever : List String) (outer : Layers) (stmt : Stmt) :
    after ((declared, ever) :: outer) stmt = (stmt.declared ++ declared, ever) :: outer := by
  cases stmt <;> rfl

theorem after_of_not_declaration {stmt : Stmt} (h : stmt.isDeclaration = false) (layers : Layers) :
    layers.after stmt = layers := by
  cases stmt <;> simp_all [Stmt.isDeclaration, after]

theorem Settled.of_extend {layers : Layers} {x name : String} (h : (layers.extend name).Settled x) (other : x ≠ name) :
    layers.Settled x := by
  cases layers with
  | nil => exact h
  | cons layer outer =>
    obtain ⟨here, rest⟩ := List.forall_mem_cons.1 h
    exact List.forall_mem_cons.2 ⟨fun ever => (List.mem_cons.1 (here ever)).resolve_left other, rest⟩

theorem leads {layers : Layers} {x : String} (settled : layers.Settled x) :
    match layers.scopes.address? x with
    | none => layers.place.Passes x
    | some d => layers.place.Finds d x := by
  induction layers with
  | nil => trivial
  | cons layer outer ih =>
    obtain ⟨declared, ever⟩ := layer
    obtain ⟨here, rest⟩ := List.forall_mem_cons.1 settled
    have further := ih rest
    change match Scopes.address? (declared :: scopes outer) x with | none => _ | some d => _
    rw [Scopes.address?_cons]
    by_cases mem : x ∈ declared
    · rw [if_pos mem]
      exact List.mem_map.2 ⟨x, mem, rfl⟩
    · have never (y : String) : ¬(y = x ∧ y ∈ ever) := by
        rintro ⟨rfl, mem'⟩
        exact mem (here mem')
      rw [if_neg mem]
      cases found : (scopes outer).address? x with
      | none =>
        rw [found] at further
        exact ⟨never, further⟩
      | some d =>
        rw [found] at further
        exact ⟨never, further⟩

end Layers

open Likeness (search)

def Site.Known (addresses : Addresses) (site : Site) : Prop :=
  addresses[site.use.id]? = site.address? ∧ site.isReflexive = false

section Paired

variable {addresses : Addresses} {layers : Layers}

theorem Site.Known.use {u : Use} {initialises : Option String}
    (known : Site.Known addresses ⟨u, layers.scopes, initialises⟩) (settled : layers.Settled u.name.lexeme) :
    (search addresses).use layers.place u u := by
  obtain ⟨address, apart⟩ := known
  refine ⟨rfl, ?_⟩
  have plain : Site.address? ⟨u, layers.scopes, initialises⟩ = layers.scopes.address? u.name.lexeme := by
    cases initialises with
    | none => rfl
    | some x =>
      have other : u.name.lexeme ≠ x := by
        rintro rfl
        simp [Site.isReflexive] at apart
      exact Scopes.address?_extend_of_ne other _
  rw [show addresses[u.id]? = _ from address.trans plain]
  exact Layers.leads settled

theorem Expr.paired_search {e : Expr} {initialises : Option String}
    (known : ∀ site ∈ layers.scopes.sites initialises e.uses, site.Known addresses)
    (settled : ∀ u ∈ e.uses, layers.Settled u.name.lexeme) :
    e.Paired (search addresses).token ((search addresses).use layers.place) e := by
  refine Expr.paired_of_view (f := id) e e rfl (fun _ _ => rfl) (List.forall₂_same.2 fun u mem => ?_)
  exact (known _ (List.mem_map.2 ⟨u, mem, rfl⟩)).use (settled u mem)

theorem Expr.paired?_search {e : Option Expr} {initialises : Option String}
    (known : ∀ site ∈ layers.scopes.sites initialises ((e.map Expr.uses).getD []), site.Known addresses)
    (settled : ∀ u ∈ (e.map Expr.uses).getD [], layers.Settled u.name.lexeme) :
    Expr.Paired? (search addresses).token ((search addresses).use layers.place) e e := by
  cases e with
  | none => exact .none
  | some e => exact .some (Expr.paired_search known settled)

theorem Layers.declares {name : Token} (fresh : name.lexeme ∉ layers.scopes.innermost)
    (may : ∀ layer ∈ layers.head?, name.lexeme ∈ layer.2) :
    layers.place.Declares (search addresses).token name name (layers.extend name.lexeme).place := by
  cases layers with
  | nil => exact .global rfl
  | cons layer outer =>
    have new : name.lexeme ∉ layer.1 := fresh
    exact .scope (by simpa using new) (by simpa using new) ⟨rfl, may layer rfl⟩

theorem Layers.declaresAll {names ever : List String} {outer : Layers} {parameters : List Token}
    (distinct : (parameters.map Token.lexeme).Nodup) (fresh : ∀ a ∈ parameters, a.lexeme ∉ names)
    (may : ∀ a ∈ parameters, a.lexeme ∈ ever) :
    (place ((names, ever) :: outer)).DeclaresAll (search addresses).token parameters parameters
      (place ((Scopes.parameters parameters ++ names, ever) :: outer)) := by
  induction parameters generalizing names with
  | nil => exact .nil _
  | cons name rest ih =>
    obtain ⟨apart, distinct⟩ := List.nodup_cons.1 distinct
    obtain ⟨new, fresh⟩ := List.forall_mem_cons.1 fresh
    obtain ⟨here, may⟩ := List.forall_mem_cons.1 may
    have first : (place ((names, ever) :: outer)).Declares (search addresses).token name name
        (place ((name.lexeme :: names, ever) :: outer)) :=
      .scope (by simpa using new) (by simpa using new) ⟨rfl, here⟩
    have fresh' (a : Token) (mem : a ∈ rest) : a.lexeme ∉ name.lexeme :: names := by
      rw [List.mem_cons, not_or]
      exact ⟨fun same => apart (List.mem_map.2 ⟨a, mem, same⟩), fresh a mem⟩
    have later := ih distinct fresh' may
    simp only [Scopes.parameters, List.map_cons, List.reverse_cons, List.append_assoc, List.singleton_append] at later ⊢
    exact .cons first later

structure Layers.Fits (layers : Layers) (stmts : List Stmt) : Prop where
  order : layers ≠ [] → Stmt.InOrder stmts
  outer : ∀ u ∈ Stmt.usesIn stmts, Layers.Settled layers.tail u.name.lexeme
  pending : ∀ layer ∈ layers.head?, ∀ x ∈ layer.2, x ∈ layer.1 ∨ x ∈ Stmt.declaredIn stmts
  may : ∀ layer ∈ layers.head?, ∀ x ∈ Stmt.declaredIn stmts, x ∈ layer.2

namespace Layers.Fits

variable {stmt : Stmt} {rest : List Stmt}

theorem settled (fits : layers.Fits (stmt :: rest)) :
    ∀ u ∈ stmt.uses, (layers.after stmt).Settled u.name.lexeme := by
  intro u mem
  cases layers with
  | nil =>
    rw [Layers.after_nil]
    exact nofun
  | cons layer outer =>
    obtain ⟨declared, ever⟩ := layer
    rw [Layers.after_cons]
    refine List.forall_mem_cons.2 ⟨fun remains => ?_, fits.outer u (List.mem_append_left _ mem)⟩
    rcases fits.pending _ rfl _ remains with before | later
    · exact List.mem_append_right _ before
    · rcases List.mem_append.1 (show _ ∈ stmt.declared ++ Stmt.declaredIn rest from later) with now | later
      · exact List.mem_append_left _ now
      · obtain ⟨other, there, declares⟩ := List.mem_flatMap.1 later
        have apart := (List.pairwise_cons.1 (fits.order (by simp))).1 other there
        exact absurd declares (apart u mem)

theorem head_may (fits : layers.Fits (stmt :: rest)) :
    ∀ layer ∈ layers.head?, ∀ x ∈ stmt.declared, x ∈ layer.2 :=
  fun layer head x mem => fits.may layer head x (List.mem_append_left _ mem)

theorem tail (fits : layers.Fits (stmt :: rest)) : (layers.after stmt).Fits rest := by
  cases layers with
  | nil =>
    rw [Layers.after_nil]
    exact ⟨fun inside => absurd rfl inside, fun _ _ => nofun, nofun, nofun⟩
  | cons layer outer =>
    obtain ⟨declared, ever⟩ := layer
    rw [Layers.after_cons]
    refine ⟨fun _ => (List.pairwise_cons.1 (fits.order (by simp))).2,
      fun u mem => fits.outer u (List.mem_append_right _ mem), ?_, ?_⟩
    · rintro _ ⟨⟩ x remains
      rcases fits.pending _ rfl x remains with before | later
      · exact .inl (List.mem_append_right _ before)
      · exact (List.mem_append.1 (show _ ∈ stmt.declared ++ Stmt.declaredIn rest from later)).imp_left
          (List.mem_append_left _)
    · rintro _ ⟨⟩ x mem
      exact fits.may _ rfl x (List.mem_append_right _ mem)

theorem opening {names : List String} {body : List Stmt} (order : Stmt.InOrder body)
    (settled : ∀ u ∈ Stmt.usesIn body, layers.Settled u.name.lexeme) :
    Layers.Fits ((names, names ++ Stmt.declaredIn body) :: layers) body where
  order _ := order
  outer := settled
  pending := by
    rintro _ ⟨⟩ x ever
    exact List.mem_append.1 ever
  may := by
    rintro _ ⟨⟩ x mem
    exact List.mem_append_right _ mem

end Layers.Fits

theorem Stmt.branch {layers : Layers} {stmt : Stmt} (still : stmt.isDeclaration = false)
    (paired : (∀ u ∈ stmt.uses, (layers.after stmt).Settled u.name.lexeme) →
      (∀ layer ∈ layers.head?, ∀ x ∈ stmt.declared, x ∈ layer.2) →
      Stmt.Paired (search addresses) layers.place stmt stmt (layers.after stmt).place)
    (settled : ∀ u ∈ stmt.uses, layers.Settled u.name.lexeme) :
    Stmt.Paired (search addresses) layers.place stmt stmt layers.place := by
  rw [Layers.after_of_not_declaration still] at paired
  refine paired settled ?_
  rw [Stmt.declared_of_not_declaration still]
  exact fun _ _ => nofun

mutual

theorem Stmt.paired_search (layers : Layers) (inFunction : Bool) (stmt : Stmt)
    (known : ∀ site ∈ stmt.sites layers.scopes, site.Known addresses) (plain : stmt.Plain)
    (obeys : stmt.Obeys layers.scopes inFunction) (orderly : stmt.Orderly)
    (settled : ∀ u ∈ stmt.uses, (layers.after stmt).Settled u.name.lexeme)
    (may : ∀ layer ∈ layers.head?, ∀ x ∈ stmt.declared, x ∈ layer.2) :
    Stmt.Paired (search addresses) layers.place stmt stmt (layers.after stmt).place := by
  match stmt with
  | .expression e => exact .expression (Expr.paired_search known settled)
  | .print e => exact .print (Expr.paired_search known settled)
  | .leave keyword value => exact .leave (Expr.paired?_search known settled)
  | .declare name initial =>
    refine .declare (Expr.paired?_search known fun u mem => ?_) (Layers.declares obeys.1 fun layer head => ?_)
    · cases layers with
      | nil => exact nofun
      | cons layer outer =>
        -- a use of the variable itself in its initial value is not known
        have apart := (known _ (List.mem_map.2 ⟨u, mem, rfl⟩)).2
        refine Layers.Settled.of_extend (settled u mem) fun same => ?_
        simp [Site.isReflexive, Scopes.awaited, Layers.scopes, same] at apart
    · exact may layer head _ (List.mem_singleton_self _)
  | .block body =>
    obtain ⟨order, orderly⟩ := orderly
    have bounded (x x' : String) (both : x = x' ∧ x ∈ Stmt.declaredIn body) : x = x' := both.1
    refine .block (.scope bounded layers.place) ?_
    exact pairedIn_search (([], Stmt.declaredIn body) :: layers) inFunction body known plain obeys orderly
      (.opening order settled)
  | .ifThen condition yes =>
    obtain ⟨known, known'⟩ := List.forall_mem_append.1 known
    obtain ⟨settled, settled'⟩ := List.forall_mem_append.1 settled
    exact .ifThen (Expr.paired_search known settled)
      (branch plain.1 (paired_search layers inFunction yes known' plain.2 obeys orderly) settled')
  | .ifElse condition yes no =>
    obtain ⟨both, known₃⟩ := List.forall_mem_append.1 known
    obtain ⟨known₁, known₂⟩ := List.forall_mem_append.1 both
    obtain ⟨both, settled₃⟩ := List.forall_mem_append.1 settled
    obtain ⟨settled₁, settled₂⟩ := List.forall_mem_append.1 both
    exact .ifElse (Expr.paired_search known₁ settled₁)
      (branch plain.1.1 (paired_search layers inFunction yes known₂ plain.1.2 obeys.1 orderly.1) settled₂)
      (branch plain.2.1 (paired_search layers inFunction no known₃ plain.2.2 obeys.2 orderly.2) settled₃)
  | .loop condition body =>
    obtain ⟨known, known'⟩ := List.forall_mem_append.1 known
    obtain ⟨settled, settled'⟩ := List.forall_mem_append.1 settled
    exact .loop (Expr.paired_search known settled)
      (branch plain.1 (paired_search layers inFunction body known' plain.2 obeys orderly) settled')
  | .function name parameters body =>
    obtain ⟨order, orderly⟩ := orderly
    obtain ⟨fresh, distinct, obeys⟩ := obeys
    let ever := Scopes.parameters parameters ++ Stmt.declaredIn body
    have bounded (x x' : String) (both : x = x' ∧ x ∈ ever) : x = x' := both.1
    have listed (a : Token) (mem : a ∈ parameters) : a.lexeme ∈ ever :=
      List.mem_append_left _ (List.mem_reverse.2 (List.mem_map.2 ⟨a, mem, rfl⟩))
    have binds : (Layers.place (([], ever) :: layers.extend name.lexeme)).DeclaresAll (search addresses).token parameters
        parameters (Layers.place ((Scopes.parameters parameters ++ [], ever) :: layers.extend name.lexeme)) :=
      Layers.declaresAll distinct (fun _ _ => List.not_mem_nil) listed
    rw [List.append_nil] at binds
    have scopes := layers.scopes_extend name.lexeme
    refine .function (Layers.declares fresh fun layer head => may layer head _ (List.mem_singleton_self _)) rfl
      (.scope bounded _) binds ?_ rfl
    refine pairedIn_search ((Scopes.parameters parameters, ever) :: layers.extend name.lexeme) true body ?_ plain ?_
      orderly (.opening order settled)
    · rw [show Layers.scopes (_ :: _) = Scopes.parameters parameters :: (layers.extend name.lexeme).scopes from rfl, scopes]
      exact known
    · rw [show Layers.scopes (_ :: _) = Scopes.parameters parameters :: (layers.extend name.lexeme).scopes from rfl, scopes]
      exact obeys

theorem Stmt.pairedIn_search (layers : Layers) (inFunction : Bool) (stmts : List Stmt)
    (known : ∀ site ∈ Stmt.sitesIn layers.scopes stmts, site.Known addresses) (plain : Stmt.PlainIn stmts)
    (obeys : Stmt.ObeysIn layers.scopes inFunction stmts) (orderly : Stmt.OrderlyIn stmts) (fits : layers.Fits stmts) :
    Stmt.PairedIn (search addresses) layers.place stmts stmts := by
  match stmts with
  | [] => exact .nil _
  | stmt :: rest =>
    obtain ⟨known, known'⟩ := List.forall_mem_append.1 known
    have later := layers.scopes_after stmt
    refine .cons (paired_search layers inFunction stmt known plain.1 obeys.1 orderly.1 fits.settled fits.head_may) ?_
    exact pairedIn_search (layers.after stmt) inFunction rest (later ▸ known') plain.2 (later ▸ obeys.2) orderly.2
      fits.tail

end

end Paired

/-- The standard policy, but for the budget and for how variables are found: by a search from the current frame. -/
def Policy.searching (budget : Nat) : Policy :=
  { keeping .withFunctions budget with addressing := .dynamic }

namespace Session

section Perform

variable {program : Program} (proper : program.Proper) (accepts : (Scoping.start.resolve program).2 = none)
  (timely : ∀ id, ¬program.Premature id)

include proper accepts timely

theorem known_start (clock : Nat → Float) :
    let table := addAll (Scoping.start.resolve program).1.addresses (start clock).addresses
    ∀ site ∈ program.sites, site.Known table := by
  intro table site mem
  have found := proper.found accepts mem
  constructor
  · cases address : site.address? with
    | some d => exact getElem?_addAll_of_some (found.trans address) _
    | none => exact (getElem?_addAll_of_none (found.trans address) _).trans Std.TreeMap.getElem?_emptyc
  · cases assigns : site.use.assigns with
    | false => exact (proper.lawful accepts site mem).settled assigns
    | true =>
      refine Bool.eq_false_iff.2 fun reflexive => timely site.use.id ⟨site, mem, ?_, rfl⟩
      rw [Site.isPremature, assigns, reflexive, Bool.and_self]

/-- If every scope declares its names before they are used, and no local variable is assigned to in its own initial
value, then a program runs in the same way whether variables are found by address or by search. -/
theorem perform_searching (orderly : Stmt.OrderlyIn program) (clock : Nat → Float) (n : Nat) :
    perform (.searching n) (start clock) program = perform (.keeping .withFunctions n) (start clock) program := by
  let table := addAll (Scoping.start.resolve program).1.addresses (start clock).addresses
  have alike : Stmt.PairedIn (Likeness.search table) .global program program :=
    Stmt.pairedIn_search [] false program (known_start proper accepts timely clock) proper.plain (proper.obeys accepts)
      orderly ⟨fun inside => absurd rfl inside, fun _ _ => nofun, nofun, nofun⟩
  have valid : (Likeness.search table).Valid (start clock).machine.twin :=
    Likeness.valid_self (holds_start (fun _ => False) clock) (fun _ => rfl) fun _ => False.elim
  have renders : (start clock).machine.twin.Renders (start clock).machine.current .global := ⟨rfl, nofun⟩
  have ends := (Likeness.lockstep (Likeness.search_sound table table clock) 0 n).executeAll valid renders alike
  have same : Machine.executeAll ⟨table, .dynamic, clock⟩ n program (start clock).machine =
      Machine.executeAll ⟨table, .lexical, clock⟩ n program (start clock).machine :=
    (Likeness.search_exact table).result_eq rfl ends
  rw [perform_resolving rfl accepts, perform_resolving rfl accepts]
  simp only [Policy.searching, Policy.keeping, Policy.standard]
  rw [show (start clock).clock = clock from rfl, same]

end Perform

def capturing : String := "{ var a; fun f() { return a; } a = true; print f(); }"

theorem perform_searching_capturing :
    let program := programOf (start fun _ => 0) capturing
    let report := (perform (.keeping .withFunctions 30) (start fun _ => 0) program).2
    perform (.searching 30) (start fun _ => 0) program = perform (.keeping .withFunctions 30) (start fun _ => 0) program ∧
      report.events.map (fun | .printed (.boolean b) => some b | _ => none) = [some true] ∧ report.ending = .regular := by
  have early : (programOf (start fun _ => 0) capturing).sites.all (!·.isPremature) = true := by decide +kernel
  have accepts : (Scoping.start.resolve (programOf (start fun _ => 0) capturing)).2 = none := by decide +kernel
  refine ⟨perform_searching (proper_programOf _ _) accepts ?_ (by decide +kernel) _ _, by decide +kernel, by decide +kernel⟩
  rintro id ⟨site, mem, premature, -⟩
  simpa [premature] using List.all_eq_true.1 early site mem

end Session
end Scriptlet
