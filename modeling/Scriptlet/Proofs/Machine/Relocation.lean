import Scriptlet.Proofs.Machine.Inventory
import Scriptlet.Proofs.Machine.Lexical
import Scriptlet.Proofs.Token.Join

namespace Scriptlet

open Machine (Stop Flow)

def Use.Found (addresses addresses' : Addresses) (u u' : Use) : Prop :=
  addresses'[u'.id]? = addresses[u.id]?

namespace Position

def mark (n : Nat) (p : Position) : Position :=
  { p with offset := p.offset + n }

/-- Takes marked positions to other places; those before the mark stay. -/
def carry (n : Nat) (place : Position → Position) (p : Position) : Position :=
  if n ≤ p.offset then place { p with offset := p.offset - n } else p

@[simp] theorem carry_mark (n : Nat) (place : Position → Position) (p : Position) :
    (p.mark n).carry n place = place p := by
  simp [carry, mark]

theorem carry_of_lt {n : Nat} {p : Position} (before : p.offset < n) (place : Position → Position) :
    p.carry n place = p :=
  if_neg (Nat.not_le_of_lt before)

end Position

def Stmt.Moved (f : Position → Position) (g g' : Stmt) : Prop :=
  g'.unnumbered = g.view (Token.move f)

abbrev Stmt.Renumbered : Stmt → Stmt → Prop :=
  Stmt.Moved id

section Views

variable {f h : Token → Token}

mutual

theorem Stmt.functions_of_view {R : Use → Use → Prop} (stmt stmt' : Stmt) (same : stmt'.view h = stmt.view f)
    (uses : List.Forall₂ R stmt.uses stmt'.uses) :
    List.Forall₂ (fun g g' => g'.view h = g.view f ∧ List.Forall₂ R g.uses g'.uses) stmt.functions stmt'.functions := by
  match stmt with
  | .expression _ | .print _ | .declare .. | .leave .. =>
    cases stmt' <;> first | exact .nil | cases same
  | .block body =>
    cases stmt' with
    | block body' =>
      have inside := Stmt.block.inj same
      rw [Stmt.mapIn_eq_map, Stmt.mapIn_eq_map] at inside
      exact functionsIn_of_view body body' inside uses
    | _ => cases same
  | .ifThen condition yes =>
    cases stmt' with
    | ifThen condition' yes' =>
      obtain ⟨test, holds⟩ := Stmt.ifThen.inj same
      obtain ⟨-, uses⟩ := forall₂_append_inv uses (Expr.length_uses_eq test)
      exact functions_of_view yes yes' holds uses
    | _ => cases same
  | .ifElse condition yes no =>
    cases stmt' with
    | ifElse condition' yes' no' =>
      obtain ⟨test, holds, fails⟩ := Stmt.ifElse.inj same
      have length : (condition'.uses ++ yes'.uses).length = (condition.uses ++ yes.uses).length := by
        rw [List.length_append, List.length_append, Expr.length_uses_eq test, Stmt.length_uses_eq holds]
      obtain ⟨both, third⟩ := forall₂_append_inv uses length
      obtain ⟨-, second⟩ := forall₂_append_inv both (Expr.length_uses_eq test)
      exact List.rel_append (functions_of_view yes yes' holds second) (functions_of_view no no' fails third)
    | _ => cases same
  | .loop condition body =>
    cases stmt' with
    | loop condition' body' =>
      obtain ⟨test, again⟩ := Stmt.loop.inj same
      obtain ⟨-, uses⟩ := forall₂_append_inv uses (Expr.length_uses_eq test)
      exact functions_of_view body body' again uses
    | _ => cases same
  | .function name parameters body =>
    cases stmt' with
    | function name' parameters' body' =>
      obtain ⟨-, -, inside⟩ := Stmt.function.inj same
      rw [Stmt.mapIn_eq_map, Stmt.mapIn_eq_map] at inside
      exact .cons ⟨same, uses⟩ (functionsIn_of_view body body' inside uses)
    | _ => cases same

theorem Stmt.functionsIn_of_view {R : Use → Use → Prop} (stmts stmts' : List Stmt)
    (same : stmts'.map (Stmt.view h) = stmts.map (Stmt.view f))
    (uses : List.Forall₂ R (Stmt.usesIn stmts) (Stmt.usesIn stmts')) :
    List.Forall₂ (fun g g' => g'.view h = g.view f ∧ List.Forall₂ R g.uses g'.uses) (Stmt.functionsIn stmts)
      (Stmt.functionsIn stmts') := by
  match stmts with
  | [] =>
    obtain rfl := List.map_eq_nil_iff.1 same
    exact .nil
  | stmt :: rest =>
    cases stmts' with
    | nil => cases same
    | cons stmt' rest' =>
      obtain ⟨first, others⟩ := List.cons.inj same
      obtain ⟨uses, uses'⟩ := forall₂_append_inv uses (Stmt.length_uses_eq first)
      exact List.rel_append (functions_of_view stmt stmt' first uses) (functionsIn_of_view rest rest' others uses')

end

variable {token : Token → Token → Prop} {addresses addresses' : Addresses} {uses uses' : List Use}

theorem Likeness.uses_of_views (lexeme : ∀ {a a'}, h a' = f a → a'.lexeme = a.lexeme)
    (same : uses'.map (Use.map h fun _ => 0) = uses.map (Use.map f fun _ => 0))
    (found : List.Forall₂ (Use.Found addresses addresses') uses uses')
    (tokens : List.Forall₂ (fun u u' => token u.name u'.name) uses uses') :
    List.Forall₂ (Use.Alike token Eq addresses addresses' .verbatim) uses uses' := by
  obtain ⟨length, named⟩ := List.forall₂_iff_zip.1 (forall₂_map_eq_iff.2 same)
  obtain ⟨-, found⟩ := List.forall₂_iff_zip.1 found
  obtain ⟨-, tokens⟩ := List.forall₂_iff_zip.1 tokens
  refine List.forall₂_iff_zip.2 ⟨length, fun {u u'} mem => ?_⟩
  have lexemes : u.name.lexeme = u'.name.lexeme := (lexeme (Use.mk.inj (named mem)).2.1).symm
  exact ⟨lexemes, found mem, fun _ => tokens mem, fun _ _ => .inl lexemes⟩

theorem Likeness.uses_of_view (lexeme : ∀ a, (f a).lexeme = a.lexeme)
    (same : uses'.map (Use.map id fun _ => 0) = uses.map (Use.map f fun _ => 0))
    (found : List.Forall₂ (Use.Found addresses addresses') uses uses') (tokens : ∀ u ∈ uses, token u.name (f u.name)) :
    List.Forall₂ (Use.Alike token Eq addresses addresses' .verbatim) uses uses' := by
  refine uses_of_views (f := f) (h := id) (fun {a _} shown => (congrArg Token.lexeme shown).trans (lexeme a)) same found ?_
  refine forall₂_of_map_eq same fun u u' used same => ?_
  rw [show u'.name = f u.name from (Use.mk.inj same).2.1]
  exact tokens u used

end Views

/-- The same two machines, when from here on something else is known of them. -/
def Twin.restart (t : Twin) : Twin :=
  ⟨{ t.left with printed := [] }, t.right, fun _ => Eq, t.right.printed⟩

namespace Value

def declaration? : Value → Option Stmt
  | .function _ (.closure name parameters body _) => some (.function name parameters body)
  | _ => none

theorem mem_functions {v : Value} {g : Stmt} (h : v.declaration? = some g) : g ∈ g.functions := by
  unfold declaration? at h
  split at h
  · cases h
    exact .head _
  · cases h

inductive Alike (functions : Stmt → Stmt → Prop) : Value → Value → Prop
  | nil : Alike functions .nil .nil
  | boolean (value : Bool) : Alike functions (.boolean value) (.boolean value)
  | number (value : Float) : Alike functions (.number value) (.number value)
  | text (content : String) : Alike functions (.text content) (.text content)
  | closure (serial : Nat) (frame : FrameId) {name name' : Token} {parameters parameters' : List Token}
      {body body' : Program} (same : functions (.function name parameters body) (.function name' parameters' body')) :
      Alike functions (.function serial (.closure name parameters body frame))
        (.function serial (.closure name' parameters' body' frame))
  | builtin (serial : Nat) (builtin : Builtin) :
      Alike functions (.function serial (.builtin builtin)) (.function serial (.builtin builtin))

end Value

structure Store.Alike (functions : Stmt → Stmt → Prop) (s s' : Store) : Prop where
  size : s'.frames.size = s.frames.size
  parent : ∀ f, s'.parent? f = s.parent? f
  bindings : ∀ f, Bindings.Paired Eq (Value.Alike functions) (s.bindings f) (s'.bindings f)

/-- Whether a function is bound in some frame or declared inside of one that is. -/
def Machine.Has (m : Machine) (g : Stmt) : Prop :=
  ∃ f, ∃ b ∈ m.store.bindings f, ∃ h, b.2.declaration? = some h ∧ g ∈ h.functions

theorem Machine.Holds.has {known : Stmt → Prop} {m : Machine} (h : m.Holds known) :
    m.Holds fun g => m.Has g ∧ ∀ inner ∈ g.functions, m.Has inner :=
  { h with
    values := fun f b mem => by
      have value := h.values f b mem
      obtain ⟨x, v⟩ := b
      cases value with
      | nil => exact .nil
      | boolean value => exact .boolean value
      | number value => exact .number value
      | text content => exact .text content
      | builtin serial clock => exact .builtin serial clock
      | closure serial inside declared =>
        exact .closure serial inside ⟨⟨f, _, mem, _, rfl, .head _⟩, fun _ inner => ⟨f, _, mem, _, rfl, inner⟩⟩ }

namespace Likeness

variable {like like' : Likeness} {t : Twin} {v v' : Value} {functions : Stmt → Stmt → Prop}

theorem Values.alike (h : like.Values t v v') (keeps : ∀ g g', like.keeps g g' → functions g g') :
    v.Alike functions v' := by
  cases h with
  | nil => exact .nil
  | boolean value => exact .boolean value
  | number value => exact .number value
  | text content => exact .text content
  | function serial same =>
    cases same with
    | closure lexeme covers opens binds inside kept => exact .closure serial _ (keeps _ _ kept)
    | builtin clock => exact .builtin serial _

theorem Valid.alike (valid : like.Valid t) (name : ∀ {x x'}, like.name x x' → x = x')
    (keeps : ∀ g g', like.keeps g g' → functions g g') : t.left.store.Alike functions t.right.store where
  size := valid.size
  parent := valid.parent
  bindings f := List.Forall₂.imp (fun _ _ both => ⟨name (valid.named f _ _ both.1), both.2.alike keeps⟩) (valid.bindings f)

theorem Values.restart (h : like.Values t v v') (present : 0 < t.size)
    (alike : ∀ g g', v.declaration? = some g → like.keeps g g' → Stmt.Paired like' .verbatim g g' .verbatim) :
    like'.Values t.restart v v' := by
  cases h with
  | nil => exact .nil
  | boolean value => exact .boolean value
  | number value => exact .number value
  | text content => exact .text content
  | function serial same =>
    refine .function serial ?_
    cases same with
    | builtin clock => exact .builtin clock
    | closure lexeme covers opens binds inside kept =>
      cases alike _ _ rfl kept with
      | function declares lexeme opens binds inside keeps =>
        have covers : t.restart.Covers _ .verbatim := ⟨covers.lt_size present, fun _ _ _ => rfl⟩
        exact .closure lexeme covers opens binds inside keeps

theorem Valid.restart (valid : like.Valid t) (name : ∀ {x x'}, like.name x x' → x = x') (refl : ∀ x, like'.name x x)
    (alike : ∀ f, ∀ b ∈ t.left.store.bindings f, ∀ g g', b.2.declaration? = some g → like.keeps g g' →
      Stmt.Paired like' .verbatim g g' .verbatim) : like'.Valid t.restart where
  current := valid.current
  inside := valid.inside
  size := valid.size
  parent := valid.parent
  bindings f := by
    obtain ⟨length, both⟩ := List.forall₂_iff_zip.1 (valid.bindings f)
    refine List.forall₂_iff_zip.2 ⟨length, fun {b b'} mem => ⟨name (valid.named f _ _ (both mem).1), ?_⟩⟩
    exact (both mem).2.restart (Nat.zero_lt_of_lt valid.inside) (alike f b (List.of_mem_zip mem).1)
  nodup := valid.nodup
  nodup' := valid.nodup'
  global := rfl
  named := by
    rintro f x _ rfl
    exact refl x
  depth := valid.depth
  readings := valid.readings
  nextSerial := valid.nextSerial
  printed := ⟨[], rfl, .nil⟩

theorem renders_restart (valid : like.Valid t) : t.restart.Renders t.restart.left.current .verbatim :=
  ⟨⟨valid.inside, fun _ _ _ => rfl⟩, nofun⟩

section Views

variable {f : Token → Token} (lexeme : ∀ a, (f a).lexeme = a.lexeme) {token : Token → Token → Prop}
  {keeps : Stmt → Stmt → Prop} {addresses addresses' : Addresses}

include lexeme

theorem paired_of_view {g g' : Stmt} (same : g'.view id = g.view f) (tokens : ∀ a ∈ g.tokens, token a (f a))
    (found : List.Forall₂ (Use.Found addresses addresses') g.uses g'.uses)
    (functions : List.Forall₂ keeps g.functions g'.functions) :
    Stmt.Paired (lexical token keeps Eq addresses addresses') .verbatim g g' .verbatim := by
  refine Stmt.paired_of_view lexeme g g' same tokens (uses_of_view lexeme ?_ found fun u used => ?_) functions
  · simpa [Stmt.uses_map] using congrArg Stmt.uses same
  · exact tokens _ (g.name_mem_tokens used)

theorem pairedIn_of_view {stmts stmts' : List Stmt} (same : stmts'.map (Stmt.view id) = stmts.map (Stmt.view f))
    (tokens : ∀ a ∈ Stmt.tokensIn stmts, token a (f a))
    (found : List.Forall₂ (Use.Found addresses addresses') (Stmt.usesIn stmts) (Stmt.usesIn stmts'))
    (functions : List.Forall₂ keeps (Stmt.functionsIn stmts) (Stmt.functionsIn stmts')) :
    Stmt.PairedIn (lexical token keeps Eq addresses addresses') .verbatim stmts stmts' := by
  refine Stmt.pairedIn_of_view lexeme stmts stmts' same tokens (uses_of_view lexeme ?_ found fun u used => ?_) functions
  · simpa [Stmt.usesIn_map] using congrArg Stmt.usesIn same
  · exact tokens _ (Stmt.nameIn_mem_tokens stmts used)

end Views

def moved (f : Position → Position) (addresses addresses' : Addresses) : Likeness :=
  .lexical (fun a a' => a' = a.move f)
    (fun g g' => g.Moved f g' ∧ List.Forall₂ (Use.Found addresses addresses') g.uses g'.uses) Eq addresses addresses'

abbrev renumbered : Addresses → Addresses → Likeness :=
  moved id

section Moved

variable {f : Position → Position} {addresses₀ addresses addresses' : Addresses}

theorem moved_sound (clock : Nat → Float) :
    (moved f addresses addresses').Sound ⟨addresses, .lexical, clock⟩ ⟨addresses', .lexical, clock⟩ := by
  refine lexical_sound ?_ ?_ (fun _ => rfl) clock
  all_goals
    rintro a _ rfl
    rfl

theorem paired_moved {g g' : Stmt} (same : g.Moved f g')
    (found : List.Forall₂ (Use.Found addresses addresses') g.uses g'.uses) :
    Stmt.Paired (moved f addresses addresses') .verbatim g g' .verbatim :=
  paired_of_view (f := Token.move f) (fun _ => rfl) same (fun _ _ => rfl) found (Stmt.functions_of_view g g' same found)

theorem pairedIn_moved {program program' : Program}
    (same : program'.map Stmt.unnumbered = program.map (Stmt.view (Token.move f)))
    (found : List.Forall₂ (Use.Found addresses addresses') program.uses program'.uses) :
    Stmt.PairedIn (moved f addresses addresses') .verbatim program program' :=
  pairedIn_of_view (f := Token.move f) (fun _ => rfl) same (fun _ _ => rfl) found
    (Stmt.functionsIn_of_view program program' same found)

/-- A program at other places, with other numbers and the same addresses, runs as it did beside functions that keep their
places, whatever was printed before. -/
theorem Valid.tracks_moved (valid : (renumbered addresses₀ addresses').Valid t)
    (fixed : ∀ g, t.left.Has g → ∀ a ∈ g.tokens, f a.position = a.position)
    (old : ∀ g, t.left.Has g → ∀ u ∈ g.uses, addresses[u.id]? = addresses₀[u.id]?) {program program' : Program}
    (same : program'.map Stmt.unnumbered = program.map (Stmt.view (Token.move f)))
    (found : List.Forall₂ (Use.Found addresses addresses') program.uses program'.uses) (clock : Nat → Float)
    (spare n : Nat) :
    Tracks (moved f addresses addresses') spare (some t.left.current) t.restart
      (Machine.executeAll ⟨addresses, .lexical, clock⟩ n program)
      (Machine.executeAll ⟨addresses', .lexical, clock⟩ (n + spare) program')
      fun flow flow' u => Flows (moved f addresses addresses') u True flow flow' := by
  have restarted : (moved f addresses addresses').Valid t.restart := by
    refine valid.restart id (fun _ => rfl) fun frame b mem g g' declared kept => ?_
    have has : t.left.Has g := ⟨frame, b, mem, g, declared, Value.mem_functions declared⟩
    have stays : g.view (Token.move f) = g.unnumbered :=
      Stmt.map_congr _ g fun a mem => congrArg (fun position => { a with position }) (fixed g has a mem)
    refine paired_moved (kept.1.trans stays.symm) ?_
    obtain ⟨length, found⟩ := List.forall₂_iff_zip.1 kept.2
    refine List.forall₂_iff_zip.2 ⟨length, fun {u u'} mem => ?_⟩
    exact (found mem).trans (old g has u (List.of_mem_zip mem).1).symm
  exact (lockstep (moved_sound clock) spare n).executeAll restarted (renders_restart valid) (pairedIn_moved same found)

end Moved

end Likeness

theorem Machine.Holds.valid_renumbered {known : Stmt → Prop} {m : Machine} (holds : m.Holds known)
    {addresses addresses' : Addresses} (old : ∀ g, known g → ∀ u ∈ g.uses, Use.Found addresses addresses' u u) :
    (Likeness.renumbered addresses addresses').Valid m.twin :=
  Likeness.valid_self holds (fun _ => rfl) fun g declared =>
    Likeness.paired_moved rfl (List.forall₂_same.2 (old g declared))

end Scriptlet
