import Scriptlet.Proofs.Session.Retention
import Scriptlet.Proofs.Tree.Anonymous

namespace Scriptlet

/-- The declaration that a name means: how many scopes out it stands, and how many came behind it in that scope. -/
def Scopes.declaration? : Scopes → String → Option (Nat × Nat)
  | [], _ => none
  | names :: outer, x =>
    if x ∈ names then some (0, names.idxOf x) else (declaration? outer x).map fun (d, i) => (d + 1, i)

theorem Scopes.map_declaration? (scopes : Scopes) (x : String) :
    (scopes.declaration? x).map Prod.fst = scopes.address? x := by
  induction scopes with
  | nil => rfl
  | cons names outer ih =>
    rw [declaration?, address?_cons, ← ih]
    split
    · rfl
    · rw [Option.map_map, Option.map_map]
      rfl

def Site.declaration? (site : Site) : Option (Nat × Nat) :=
  site.visible.declaration? site.use.name.lexeme

theorem Site.address?_eq_of_declaration? {site site' : Site} (same : site'.declaration? = site.declaration?) :
    site'.address? = site.address? := by
  rw [address?, ← Scopes.map_declaration?, address?, ← Scopes.map_declaration?]
  exact congrArg (Option.map Prod.fst) same

def Program.isLocal (program : Program) (id : UseId) : Bool :=
  (Scoping.start.resolve program).1.addresses[id]?.isSome

/-- A program with other names for local variables, where all uses mean the same declarations. -/
structure Program.Renames (program program' : Program) : Prop where
  shape : program'.anonymous program'.isLocal = program.anonymous program.isLocal
  declarations : program'.sites.map Site.declaration? = program.sites.map Site.declaration?

/-- The names that are declared in each scope around a place of two programs, in pairs. -/
abbrev Links := List (List (String × String))

namespace Links

variable (links : Links)

def left : Scopes :=
  links.map (List.map Prod.fst)

def right : Scopes :=
  links.map (List.map Prod.snd)

def place : Links → Place
  | [] => .verbatim
  | pairs :: outer => .scope pairs (fun _ _ => True) (place outer)

def extend (x x' : String) : Links → Links
  | [] => []
  | pairs :: outer => ((x, x') :: pairs) :: outer

def after (links : Links) : Stmt → Stmt → Links
  | .declare name _, .declare name' _ | .function name _ _, .function name' _ _ => links.extend name.lexeme name'.lexeme
  | _, _ => links

theorem left_extend (x x' : String) : (links.extend x x').left = links.left.extend x := by
  cases links <;> rfl

theorem right_extend (x x' : String) : (links.extend x x').right = links.right.extend x' := by
  cases links <;> rfl

theorem after_of_not_declaration {stmt : Stmt} (h : stmt.isDeclaration = false) (stmt' : Stmt) :
    links.after stmt stmt' = links := by
  cases stmt <;> simp_all [Stmt.isDeclaration, after]

variable {links}

theorem mem_of_idxOf {pairs : List (String × String)} {x x' : String} (mem : x ∈ pairs.map Prod.fst)
    (mem' : x' ∈ pairs.map Prod.snd) (same : (pairs.map Prod.snd).idxOf x' = (pairs.map Prod.fst).idxOf x) :
    (x, x') ∈ pairs := by
  have inside := List.idxOf_lt_length_of_mem mem
  have inside' := List.idxOf_lt_length_of_mem mem'
  have first := List.getElem_idxOf inside
  have second := List.getElem_idxOf inside'
  simp only [same, List.getElem_map] at first second
  rw [← first, ← second]
  exact List.getElem_mem _

theorem sees {x x' : String} {d i : Nat} (found : links.left.declaration? x = some (d, i))
    (found' : links.right.declaration? x' = some (d, i)) : links.place.Sees d x x' := by
  induction links generalizing d with
  | nil => cases found
  | cons pairs outer ih =>
    change Scopes.declaration? (pairs.map Prod.fst :: left outer) x = _ at found
    change Scopes.declaration? (pairs.map Prod.snd :: right outer) x' = _ at found'
    rw [Scopes.declaration?] at found found'
    split at found
    · next mem =>
      split at found'
      · next mem' =>
        cases found
        obtain ⟨-, same⟩ := Prod.mk.inj (Option.some.inj found')
        exact mem_of_idxOf mem mem' same
      · obtain ⟨⟨e, j⟩, -, eq⟩ := Option.map_eq_some_iff.1 found'
        cases found
        cases eq
    · split at found'
      · obtain ⟨⟨e, j⟩, -, eq⟩ := Option.map_eq_some_iff.1 found
        cases found'
        cases eq
      · obtain ⟨⟨e, j⟩, later, eq⟩ := Option.map_eq_some_iff.1 found
        obtain ⟨⟨e', j'⟩, later', eq'⟩ := Option.map_eq_some_iff.1 found'
        cases eq
        cases eq'
        exact ih later later'

end Links

structure Site.Alike (isLocal : UseId → Bool) (addresses : Addresses) (site site' : Site) : Prop where
  use : site'.use.anonymous isLocal = site.use.anonymous isLocal
  isLocal : isLocal site.use.id = site.address?.isSome
  declaration : site'.declaration? = site.declaration?
  address : addresses[site.use.id]? = site.address?
  awaits : site.scopes.Awaits site.initialises
  awaits' : site'.scopes.Awaits site'.initialises

def renamingLike (isLocal : UseId → Bool) (addresses : Addresses) : Likeness :=
  .lexical Eq (fun g g' => g'.anonymous isLocal true = g.anonymous isLocal true) (fun _ _ => True) addresses addresses

theorem renamingLike_sound {isLocal : UseId → Bool} {addresses : Addresses} (clock : Nat → Float) :
    (renamingLike isLocal addresses).Sound ⟨addresses, .lexical, clock⟩ ⟨addresses, .lexical, clock⟩ :=
  Likeness.lexical_sound (congrArg Token.kind ∘ Eq.symm) (congrArg Token.lexeme ∘ Eq.symm) (fun _ => trivial) clock

section Paired

variable {isLocal : UseId → Bool} {addresses : Addresses} {links : Links}

theorem Site.Alike.use_alike {u u' : Use} {initialises initialises' : Option String}
    (alike : Site.Alike isLocal addresses ⟨u, links.left, initialises⟩ ⟨u', links.right, initialises'⟩)
    (both : initialises'.isSome = initialises.isSome) :
    (renamingLike isLocal addresses).use links.place u u' := by
  obtain ⟨use, known, declaration, address, awaits, awaits'⟩ := alike
  obtain ⟨id, name, -⟩ := Use.mk.inj use
  refine ⟨trivial, id ▸ rfl, fun none => ?_, fun d found => ?_⟩
  · rw [show addresses[u.id]? = _ from address] at none
    rw [none] at known
    rw [Token.anonymous, Token.anonymous, id, if_neg (by simpa using known), if_neg (by simpa using known)] at name
    exact name.symm
  · rw [show addresses[u.id]? = _ from address, Site.address?, ← Scopes.map_declaration?] at found
    obtain ⟨⟨e, i⟩, means, eq⟩ := Option.map_eq_some_iff.1 found
    obtain rfl : d = e := eq.symm
    have means' : Site.declaration? ⟨u', links.right, initialises'⟩ = some (d, i) := declaration.trans means
    cases initialises with
    | none =>
      cases initialises' with
      | some => cases both
      | none => exact .inl (Links.sees means means')
    | some x =>
      cases initialises' with
      | none => cases both
      | some x' =>
        cases links with
        | nil => exact absurd rfl (awaits x rfl).1
        | cons pairs outer =>
          -- the scopes that are visible are those with the name that waits
          have seen : (Links.extend x x' (pairs :: outer)).place.Sees d u.name.lexeme u'.name.lexeme :=
            Links.sees means means'
          cases d with
          | succ d => exact .inl seen
          | zero =>
            rcases List.mem_cons.1 seen with eq | mem
            · obtain ⟨rfl, rfl⟩ := Prod.mk.inj eq
              exact .inr ⟨rfl, (awaits _ rfl).2, (awaits' _ rfl).2⟩
            · exact .inl mem

theorem Site.Alike.uses_alike {us us' : List Use} {initialises initialises' : Option String}
    (alike : List.Forall₂ (Site.Alike isLocal addresses) (links.left.sites initialises us)
      (links.right.sites initialises' us')) (both : initialises'.isSome = initialises.isSome) :
    List.Forall₂ ((renamingLike isLocal addresses).use links.place) us us' := by
  rw [Scopes.sites, Scopes.sites, List.forall₂_map_left_iff, List.forall₂_map_right_iff] at alike
  exact alike.imp fun u u' h => h.use_alike both

theorem Expr.length_sites (scopes : Scopes) (initialises : Option String) (us : List Use) :
    (scopes.sites initialises us).length = us.length :=
  List.length_map _

theorem Stmt.length_sites (scopes : Scopes) (stmt : Stmt) : (stmt.sites scopes).length = stmt.uses.length := by
  rw [← stmt.map_use_sites scopes, List.length_map]

theorem Links.opens (links : Links) : links.place.Opens (fun _ _ => True) (place ([] :: links)) :=
  .scope (fun _ _ _ => trivial) _

theorem Links.declares {name name' : Token} (same : links = [] → name' = name)
    (fresh : name.lexeme ∉ links.left.innermost) (fresh' : name'.lexeme ∉ links.right.innermost) :
    links.place.Declares Eq name name' (links.extend name.lexeme name'.lexeme).place := by
  cases links with
  | nil => exact .verbatim (same rfl).symm
  | cons pairs outer => exact .scope fresh fresh' trivial

theorem Links.declares_parameters {pairs : List (String × String)} {outer : Links} {parameters parameters' : List Token}
    (length : parameters'.length = parameters.length)
    (distinct : (parameters.map Token.lexeme).Nodup) (distinct' : (parameters'.map Token.lexeme).Nodup)
    (fresh : ∀ a ∈ parameters, a.lexeme ∉ pairs.map Prod.fst)
    (fresh' : ∀ a ∈ parameters', a.lexeme ∉ pairs.map Prod.snd) :
    ∃ more, Scopes.parameters parameters = more.map Prod.fst ∧ Scopes.parameters parameters' = more.map Prod.snd ∧
      (place (pairs :: outer)).DeclaresAll Eq parameters parameters' (place ((more ++ pairs) :: outer)) := by
  induction parameters generalizing pairs parameters' with
  | nil =>
    obtain rfl := List.eq_nil_of_length_eq_zero length
    exact ⟨[], rfl, rfl, .nil _⟩
  | cons name rest ih =>
    cases parameters' with
    | nil => cases length
    | cons name' rest' =>
      obtain ⟨apart, distinct⟩ := List.nodup_cons.1 distinct
      obtain ⟨apart', distinct'⟩ := List.nodup_cons.1 distinct'
      obtain ⟨new, fresh⟩ := List.forall_mem_cons.1 fresh
      obtain ⟨new', fresh'⟩ := List.forall_mem_cons.1 fresh'
      have later (a : Token) (mem : a ∈ rest) : a.lexeme ∉ ((name.lexeme, name'.lexeme) :: pairs).map Prod.fst := by
        rw [List.map_cons, List.mem_cons, not_or]
        exact ⟨fun same => apart (List.mem_map.2 ⟨a, mem, same⟩), fresh a mem⟩
      have later' (a : Token) (mem : a ∈ rest') : a.lexeme ∉ ((name.lexeme, name'.lexeme) :: pairs).map Prod.snd := by
        rw [List.map_cons, List.mem_cons, not_or]
        exact ⟨fun same => apart' (List.mem_map.2 ⟨a, mem, same⟩), fresh' a mem⟩
      obtain ⟨more, left, right, declares⟩ := ih (Nat.succ.inj length) distinct distinct' later later'
      have order : more ++ (name.lexeme, name'.lexeme) :: pairs = more ++ [(name.lexeme, name'.lexeme)] ++ pairs := by
        simp
      refine ⟨more ++ [(name.lexeme, name'.lexeme)], ?_, ?_, .cons (.scope new new' trivial) (order ▸ declares)⟩
      · simpa [Scopes.parameters] using left
      · simpa [Scopes.parameters] using right

theorem Links.declaresAll (links : Links) {parameters parameters' : List Token}
    (length : parameters'.length = parameters.length) (distinct : (parameters.map Token.lexeme).Nodup)
    (distinct' : (parameters'.map Token.lexeme).Nodup) :
    ∃ pairs, Scopes.parameters parameters = pairs.map Prod.fst ∧ Scopes.parameters parameters' = pairs.map Prod.snd ∧
      (place ([] :: links)).DeclaresAll Eq parameters parameters' (place (pairs :: links)) := by
  have fresh (a : Token) (_ : a ∈ parameters) : a.lexeme ∉ ([] : List (String × String)).map Prod.fst := List.not_mem_nil
  obtain ⟨pairs, left, right, declares⟩ := declares_parameters length distinct distinct' fresh fun _ _ => List.not_mem_nil
  rw [List.append_nil] at declares
  exact ⟨pairs, left, right, declares⟩

theorem Stmt.branch_renaming {links : Links} {stmt stmt' : Stmt} (still : stmt.isDeclaration = false)
    (paired : Stmt.Paired (renamingLike isLocal addresses) links.place stmt stmt' (links.after stmt stmt').place) :
    Stmt.Paired (renamingLike isLocal addresses) links.place stmt stmt' links.place := by
  rwa [Links.after_of_not_declaration links still] at paired

mutual

theorem Stmt.paired_renaming (links : Links) (inFunction : Bool) (stmt stmt' : Stmt)
    (same : stmt'.anonymous isLocal (!links.isEmpty) = stmt.anonymous isLocal (!links.isEmpty))
    (alike : List.Forall₂ (Site.Alike isLocal addresses) (stmt.sites links.left) (stmt'.sites links.right))
    (plain : stmt.Plain) (obeys : stmt.Obeys links.left inFunction) (obeys' : stmt'.Obeys links.right inFunction) :
    Stmt.Paired (renamingLike isLocal addresses) links.place stmt stmt' (links.after stmt stmt').place ∧
      (links.after stmt stmt').left = stmt.after links.left ∧ (links.after stmt stmt').right = stmt'.after links.right := by
  match stmt with
  | .expression e =>
    cases stmt' with
    | expression e' =>
      exact ⟨.expression (Expr.paired_of_anonymous e e' (Stmt.expression.inj same) (Site.Alike.uses_alike alike rfl)),
        rfl, rfl⟩
    | _ => cases same
  | .print e =>
    cases stmt' with
    | print e' =>
      exact ⟨.print (Expr.paired_of_anonymous e e' (Stmt.print.inj same) (Site.Alike.uses_alike alike rfl)), rfl, rfl⟩
    | _ => cases same
  | .declare name initial =>
    cases stmt' with
    | declare name' initial' =>
      obtain ⟨names, value⟩ := Stmt.declare.inj same
      have both : (links.right.awaited name'.lexeme).isSome = (links.left.awaited name.lexeme).isSome := by
        cases links <;> rfl
      refine ⟨.declare (Expr.paired?_of_anonymous initial initial' value (Site.Alike.uses_alike alike both))
        (Links.declares ?_ obeys.1 obeys'.1), links.left_extend .., links.right_extend ..⟩
      rintro rfl
      exact names
    | _ => cases same
  | .block body =>
    cases stmt' with
    | block body' =>
      refine ⟨.block links.opens ?_, rfl, rfl⟩
      exact pairedIn_renaming ([] :: links) inFunction body body' (Stmt.block.inj same) alike plain obeys obeys'
    | _ => cases same
  | .ifThen condition yes =>
    cases stmt' with
    | ifThen condition' yes' =>
      obtain ⟨test, holds⟩ := Stmt.ifThen.inj same
      obtain ⟨alike, alike'⟩ := forall₂_append_inv alike (by
        rw [Expr.length_sites, Expr.length_sites, Expr.length_uses_of_anonymous test])
      exact ⟨.ifThen (Expr.paired_of_anonymous condition condition' test (Site.Alike.uses_alike alike rfl))
        (branch_renaming plain.1 (paired_renaming links inFunction yes yes' holds alike' plain.2 obeys obeys').1), rfl, rfl⟩
    | _ => cases same
  | .ifElse condition yes no =>
    cases stmt' with
    | ifElse condition' yes' no' =>
      obtain ⟨test, holds, fails⟩ := Stmt.ifElse.inj same
      obtain ⟨both, alike₃⟩ := forall₂_append_inv alike (by
        rw [List.length_append, List.length_append, Expr.length_sites, Expr.length_sites, Stmt.length_sites,
          Stmt.length_sites, Expr.length_uses_of_anonymous test, Stmt.length_uses_of_anonymous holds])
      obtain ⟨alike₁, alike₂⟩ := forall₂_append_inv both (by
        rw [Expr.length_sites, Expr.length_sites, Expr.length_uses_of_anonymous test])
      exact ⟨.ifElse (Expr.paired_of_anonymous condition condition' test (Site.Alike.uses_alike alike₁ rfl))
        (branch_renaming plain.1.1 (paired_renaming links inFunction yes yes' holds alike₂ plain.1.2 obeys.1 obeys'.1).1)
        (branch_renaming plain.2.1 (paired_renaming links inFunction no no' fails alike₃ plain.2.2 obeys.2 obeys'.2).1),
        rfl, rfl⟩
    | _ => cases same
  | .loop condition body =>
    cases stmt' with
    | loop condition' body' =>
      obtain ⟨test, again⟩ := Stmt.loop.inj same
      obtain ⟨alike, alike'⟩ := forall₂_append_inv alike (by
        rw [Expr.length_sites, Expr.length_sites, Expr.length_uses_of_anonymous test])
      exact ⟨.loop (Expr.paired_of_anonymous condition condition' test (Site.Alike.uses_alike alike rfl))
        (branch_renaming plain.1 (paired_renaming links inFunction body body' again alike' plain.2 obeys obeys').1),
        rfl, rfl⟩
    | _ => cases same
  | .function name parameters body =>
    cases stmt' with
    | function name' parameters' body' =>
      obtain ⟨rfl, blanks, inside⟩ := Stmt.function.inj same
      obtain ⟨fresh, distinct, obeys⟩ := obeys
      obtain ⟨fresh', distinct', obeys'⟩ := obeys'
      obtain ⟨more, left, right, binds⟩ := (links.extend name'.lexeme name'.lexeme).declaresAll
        (by simpa using congrArg List.length blanks) distinct distinct'
      refine ⟨.function (Links.declares (fun _ => rfl) fresh fresh') rfl (Links.opens _) binds ?_ same,
        links.left_extend .., links.right_extend ..⟩
      have scopes : Links.left (more :: links.extend name'.lexeme name'.lexeme) =
          Scopes.parameters parameters :: links.left.extend name'.lexeme := by
        rw [left, ← links.left_extend]
        rfl
      have scopes' : Links.right (more :: links.extend name'.lexeme name'.lexeme) =
          Scopes.parameters parameters' :: links.right.extend name'.lexeme := by
        rw [right, ← links.right_extend]
        rfl
      refine pairedIn_renaming (more :: links.extend name'.lexeme name'.lexeme) true body body' inside ?_ plain ?_ ?_
      · rw [scopes, scopes']
        exact alike
      · rw [scopes]
        exact obeys
      · rw [scopes']
        exact obeys'
    | _ => cases same
  | .leave keyword value =>
    cases stmt' with
    | leave keyword' value' =>
      obtain ⟨-, result⟩ := Stmt.leave.inj same
      exact ⟨.leave (Expr.paired?_of_anonymous value value' result (Site.Alike.uses_alike alike rfl)), rfl, rfl⟩
    | _ => cases same

theorem Stmt.pairedIn_renaming (links : Links) (inFunction : Bool) (stmts stmts' : List Stmt)
    (same : Stmt.anonymousIn isLocal (!links.isEmpty) stmts' = Stmt.anonymousIn isLocal (!links.isEmpty) stmts)
    (alike : List.Forall₂ (Site.Alike isLocal addresses) (Stmt.sitesIn links.left stmts)
      (Stmt.sitesIn links.right stmts'))
    (plain : Stmt.PlainIn stmts) (obeys : Stmt.ObeysIn links.left inFunction stmts)
    (obeys' : Stmt.ObeysIn links.right inFunction stmts') :
    Stmt.PairedIn (renamingLike isLocal addresses) links.place stmts stmts' := by
  match stmts with
  | [] =>
    cases stmts' with
    | nil => exact .nil _
    | cons => cases same
  | stmt :: rest =>
    cases stmts' with
    | nil => cases same
    | cons stmt' rest' =>
      obtain ⟨first, others⟩ := List.cons.inj same
      obtain ⟨alike, alike'⟩ := forall₂_append_inv alike (by
        rw [Stmt.length_sites, Stmt.length_sites, Stmt.length_uses_of_anonymous first])
      obtain ⟨paired, left, right⟩ := paired_renaming links inFunction stmt stmt' first alike plain.1 obeys.1 obeys'.1
      have inner : (links.after stmt stmt').isEmpty = links.isEmpty := by
        cases links with
        | nil => cases stmt <;> cases stmt' <;> rfl
        | cons => cases stmt <;> cases stmt' <;> rfl
      refine .cons paired (pairedIn_renaming (links.after stmt stmt') inFunction rest rest' (inner ▸ others) ?_ plain.2 ?_ ?_)
      · rw [left, right]
        exact alike'
      · rw [left]
        exact obeys.2
      · rw [right]
        exact obeys'.2

end

end Paired

theorem Addresses.recordAll_congr {sites sites' : List Site}
    (same : List.Forall₂ (fun site site' => site'.use.id = site.use.id ∧ site'.address? = site.address?) sites sites')
    (table : Addresses) : table.recordAll sites' = table.recordAll sites := by
  induction same generalizing table with
  | nil => rfl
  | @cons site site' rest rest' first _ ih =>
    have here : table.record site' = table.record site := by rw [record, record, first.1, first.2]
    calc (table.record site').recordAll rest' = (table.record site).recordAll rest' := by rw [here]
      _ = (table.record site).recordAll rest := ih _

namespace Program.Renames

variable {program program' : Program} (renames : program.Renames program')

include renames

theorem sites :
    List.Forall₂ (fun site site' => site'.use.anonymous program'.isLocal = site.use.anonymous program.isLocal ∧
      site'.declaration? = site.declaration?) program.sites program'.sites := by
  have uses := congrArg Stmt.usesIn renames.shape
  rw [anonymous, anonymous, Stmt.usesIn_anonymous, Stmt.usesIn_anonymous, ← Stmt.map_use_sitesIn [] program,
    ← Stmt.map_use_sitesIn [] program', List.map_map, List.map_map] at uses
  obtain ⟨length, named⟩ := List.forall₂_iff_zip.1 (forall₂_map_eq_iff.2 uses)
  obtain ⟨-, meant⟩ := List.forall₂_iff_zip.1 (forall₂_map_eq_iff.2 renames.declarations)
  exact List.forall₂_iff_zip.2 ⟨length, fun mem => ⟨named mem, meant mem⟩⟩

variable (proper : program.Proper) (proper' : program'.Proper) (accepts : (Scoping.start.resolve program).2 = none)
  (accepts' : (Scoping.start.resolve program').2 = none)

include proper proper' accepts accepts'

theorem addresses_eq :
    (Scoping.start.resolve program').1.addresses = (Scoping.start.resolve program).1.addresses := by
  rw [(Scoping.resolve_recorded proper.plain (Prod.ext rfl accepts)).1,
    (Scoping.resolve_recorded proper'.plain (Prod.ext rfl accepts')).1]
  refine Addresses.recordAll_congr (renames.sites.imp fun site site' both => ?_) ∅
  exact ⟨(Use.mk.inj both.1).1, Site.address?_eq_of_declaration? both.2⟩

theorem isLocal_eq : program'.isLocal = program.isLocal := by
  funext id
  rw [isLocal, isLocal, renames.addresses_eq proper proper' accepts accepts']

theorem paired {addresses : Addresses}
    (table : ∀ site ∈ program.sites, addresses[site.use.id]? = (Scoping.start.resolve program).1.addresses[site.use.id]?) :
    Stmt.PairedIn (renamingLike program.isLocal addresses) .verbatim program program' := by
  have isLocal := renames.isLocal_eq proper proper' accepts accepts'
  have shape := renames.shape
  rw [isLocal] at shape
  refine Stmt.pairedIn_renaming [] false program program' shape ?_ proper.plain (proper.obeys accepts)
    (proper'.obeys accepts')
  obtain ⟨length, both⟩ := List.forall₂_iff_zip.1 renames.sites
  refine List.forall₂_iff_zip.2 ⟨length, fun {site site'} mem => ?_⟩
  obtain ⟨here, there⟩ := List.of_mem_zip mem
  obtain ⟨use, declaration⟩ := both mem
  have found := proper.found accepts here
  rw [isLocal] at use
  exact ⟨use, congrArg Option.isSome found, declaration, (table site here).trans found,
    (proper.lawful accepts site here).awaits, (proper'.lawful accepts' site' there).awaits⟩

end Program.Renames

section Ends

variable {isLocal : UseId → Bool} {addresses : Addresses} {t : Twin} {v v' : Value}

theorem renamingLike_values (h : (renamingLike isLocal addresses).Values t v v') :
    v'.anonymous isLocal = v.anonymous isLocal := by
  cases h with
  | function serial same =>
    cases same with
    | closure lexeme covers opens binds inside keeps =>
      obtain ⟨rfl, parameters, body⟩ := Stmt.function.inj keeps
      rw [Value.anonymous, Value.anonymous, Callable.anonymous, Callable.anonymous, parameters, body]
    | builtin clock => rfl
  | _ => rfl

theorem renamingLike_printed (valid : (renamingLike isLocal addresses).Valid t) (fresh : t.before = []) :
    (t.right.printed.reverse.map Event.printed).map (Event.anonymous isLocal) =
      (t.left.printed.reverse.map Event.printed).map (Event.anonymous isLocal) := by
  rw [List.map_map, List.map_map]
  refine forall₂_map_eq_iff.1 (List.forall₂_reverse_iff.2 ((valid.printed_alike fresh).imp fun v v' same => ?_))
  exact congrArg Event.printed (renamingLike_values same)

theorem renamingLike_report {spot : Option FrameId} {α : Type} {P : α → α → Twin → Prop}
    {r r' : EStateM.Result Machine.Stop Machine α} (fresh : t.before = [])
    (ends : Likeness.Ends (renamingLike isLocal addresses) 0 spot t P r r') :
    (Report.ofResult r').anonymous isLocal = (Report.ofResult r).anonymous isLocal := by
  obtain ⟨u, steps, left, right⟩ := ends.left
  have printed := renamingLike_printed steps.valid (steps.before.trans fresh)
  rw [left, right] at printed
  cases ends with
  | ok => exact congrArg (Report.mk · .regular) printed
  | error _ same =>
    cases same with
    | failed place cause =>
      cases place
      cases cause.eq (Eq.symm ·)
      simpa [Report.anonymous, Report.ofResult] using printed
    | unbound names distance => exact congrArg (Report.mk · (.defective (.unbound "" distance))) printed
    | tooShallow => exact congrArg (Report.mk · (.defective .tooShallow)) printed
    | exhausted => exact congrArg (Report.mk · .exhausted) printed
  | spent more => exact absurd rfl more

theorem renamingLike_globals (valid : (renamingLike isLocal addresses).Valid t) :
    (t.right.store.bindings Store.global).map (Prod.map id (Value.anonymous isLocal)) =
      (t.left.store.bindings Store.global).map (Prod.map id (Value.anonymous isLocal)) := by
  have paired := valid.bindings Store.global
  rw [valid.global] at paired
  refine forall₂_map_eq_iff.1 (List.Forall₂.imp (fun b b' both => ?_) paired)
  exact Prod.ext both.1.symm (renamingLike_values both.2)

end Ends

namespace Session

open Command (Transcript)

def globals (s : Session) : Bindings :=
  s.machine.store.bindings Store.global

/-- Two programs that differ in the names of local variables report the same, up to those names in the functions that
they print and in a defect, show the same, and leave the same values in the global variables, up to those names again. -/
theorem perform_renamed {program program' : Program} (renames : program.Renames program') (proper : program.Proper)
    (proper' : program'.Proper) (accepts : (Scoping.start.resolve program).2 = none)
    (accepts' : (Scoping.start.resolve program').2 = none) {clock : Nat → Float} {s : Session}
    (reachable : Reachable clock s) (unused : ∀ u ∈ program.uses, s.addresses[u.id]? = none) (retention : Retention)
    (n : Nat) :
    let (t, report) := perform (.keeping retention n) s program
    let (t', report') := perform (.keeping retention n) s program'
    report'.anonymous program.isLocal = report.anonymous program.isLocal ∧
      Transcript.ofEvents report'.events = Transcript.ofEvents report.events ∧
      t'.globals.map (Prod.map id (Value.anonymous program.isLocal)) =
        t.globals.map (Prod.map id (Value.anonymous program.isLocal)) := by
  have holds := reachable.matches_self.holds
  have found := renames.addresses_eq proper proper' accepts accepts'
  rw [perform_keeping accepts, perform_keeping accepts', found]
  let table := addAll (Scoping.start.resolve program).1.addresses s.addresses
  have alike : Stmt.PairedIn (renamingLike program.isLocal table) .verbatim program program' := by
    refine renames.paired proper proper' accepts accepts' fun site mem => ?_
    cases address : (Scoping.start.resolve program).1.addresses[site.use.id]? with
    | some d => exact getElem?_addAll_of_some address _
    | none =>
      have used : site.use ∈ program.uses := program.map_use_sites ▸ List.mem_map.2 ⟨site, mem, rfl⟩
      exact (getElem?_addAll_of_none address _).trans (unused _ used)
  have valid : (renamingLike program.isLocal table).Valid s.machine.twin :=
    Likeness.valid_self holds (fun _ => trivial) fun g _ =>
      Stmt.paired_of_view (fun _ => rfl) g g rfl (fun _ _ => rfl)
        (List.forall₂_same.2 fun _ _ => ⟨trivial, rfl, fun _ => rfl, fun _ _ => .inl rfl⟩)
        (List.forall₂_same.2 fun _ _ => rfl)
  have inside : s.machine.current < s.machine.store.frames.size := holds.current ▸ holds.present
  have ends := (Likeness.lockstep (renamingLike_sound s.clock) 0 n).executeAll valid (Machine.renders_twin inside) alike
  have report := renamingLike_report rfl ends
  obtain ⟨u, steps, left, right⟩ := ends.left
  have globals := renamingLike_globals steps.valid
  rw [left, right] at globals
  refine ⟨report, ?_, globals⟩
  rw [← Transcript.ofEvents_anonymous program.isLocal, ← Transcript.ofEvents_anonymous program.isLocal (Report.events _)]
  exact congrArg (fun report => Transcript.ofEvents report.events) report

def assigning : String := "{ var a; fun f(b) { a = b; } f(true); print a; }"

def exchanged : String := "{ var b; fun f(a) { b = a; } f(true); print b; }"

/-- What both texts are scanned to, in terms of their two variables. -/
def tokensOver (a b : String) : List Token :=
  [⟨.leftBrace, "\x7b", none, ⟨0, 1, 1⟩⟩, ⟨.varWord, "var", none, ⟨2, 1, 3⟩⟩, ⟨.identifier, a, none, ⟨6, 1, 7⟩⟩,
    ⟨.semicolon, ";", none, ⟨7, 1, 8⟩⟩, ⟨.funWord, "fun", none, ⟨9, 1, 10⟩⟩, ⟨.identifier, "f", none, ⟨13, 1, 14⟩⟩,
    ⟨.leftParen, "(", none, ⟨14, 1, 15⟩⟩, ⟨.identifier, b, none, ⟨15, 1, 16⟩⟩, ⟨.rightParen, ")", none, ⟨16, 1, 17⟩⟩,
    ⟨.leftBrace, "\x7b", none, ⟨18, 1, 19⟩⟩, ⟨.identifier, a, none, ⟨20, 1, 21⟩⟩, ⟨.assign, "=", none, ⟨22, 1, 23⟩⟩,
    ⟨.identifier, b, none, ⟨24, 1, 25⟩⟩, ⟨.semicolon, ";", none, ⟨25, 1, 26⟩⟩, ⟨.rightBrace, "\x7d", none, ⟨27, 1, 28⟩⟩,
    ⟨.identifier, "f", none, ⟨29, 1, 30⟩⟩, ⟨.leftParen, "(", none, ⟨30, 1, 31⟩⟩, ⟨.trueWord, "true", none, ⟨31, 1, 32⟩⟩,
    ⟨.rightParen, ")", none, ⟨35, 1, 36⟩⟩, ⟨.semicolon, ";", none, ⟨36, 1, 37⟩⟩, ⟨.printWord, "print", none, ⟨38, 1, 39⟩⟩,
    ⟨.identifier, a, none, ⟨44, 1, 45⟩⟩, ⟨.semicolon, ";", none, ⟨45, 1, 46⟩⟩, ⟨.rightBrace, "\x7d", none, ⟨47, 1, 48⟩⟩,
    ⟨.endMark, "", none, ⟨48, 1, 49⟩⟩]

def programOver (a b : String) : Program :=
  [.block [.declare ⟨.identifier, a, none, ⟨6, 1, 7⟩⟩ none,
    .function ⟨.identifier, "f", none, ⟨13, 1, 14⟩⟩ [⟨.identifier, b, none, ⟨15, 1, 16⟩⟩]
      [.expression (.assign 2 ⟨.identifier, a, none, ⟨20, 1, 21⟩⟩ (.read 1 ⟨.identifier, b, none, ⟨24, 1, 25⟩⟩))],
    .expression (.call (.read 3 ⟨.identifier, "f", none, ⟨29, 1, 30⟩⟩) ⟨.rightParen, ")", none, ⟨35, 1, 36⟩⟩
      [.constant (.boolean true)]),
    .print (.read 4 ⟨.identifier, a, none, ⟨44, 1, 45⟩⟩)]]

set_option maxRecDepth 20000 in
theorem perform_renamed_exchanged :
    let (_, report) := perform (.keeping .withFunctions 30) (start fun _ => 0) (programOf (start fun _ => 0) assigning)
    let (_, report') := perform (.keeping .withFunctions 30) (start fun _ => 0) (programOf (start fun _ => 0) exchanged)
    Transcript.ofEvents report'.events = Transcript.ofEvents report.events ∧
      (Transcript.ofEvents report'.events).output = "true\n" ∧ report'.ending = .regular := by
  have scanned : (Source.ofString assigning).items.filterMap Token.Item.token? = tokensOver "a" "b" := by decide +kernel
  have scanned' : (Source.ofString exchanged).items.filterMap Token.Item.token? = tokensOver "b" "a" := by decide +kernel
  have renames : (programOf (start fun _ => 0) assigning).Renames (programOf (start fun _ => 0) exchanged) := by
    have read : programOf (start fun _ => 0) assigning = programOver "a" "b" := by
      rw [programOf_of_tokens scanned (show _ = 0 from rfl)]
      rfl
    have read' : programOf (start fun _ => 0) exchanged = programOver "b" "a" := by
      rw [programOf_of_tokens scanned' (show _ = 0 from rfl)]
      rfl
    rw [read, read']
    exact ⟨rfl, rfl⟩
  have unused (u : Use) (_ : u ∈ (programOf (start fun _ => 0) assigning).uses) :
      (start fun _ => 0).addresses[u.id]? = none := Std.TreeMap.getElem?_emptyc
  have same := perform_renamed renames (proper_programOf _ _) (proper_programOf _ _) (by decide +kernel)
    (by decide +kernel) .start unused .withFunctions 30
  exact ⟨same.2.1, by decide +kernel, by decide +kernel⟩

end Session

end Scriptlet
