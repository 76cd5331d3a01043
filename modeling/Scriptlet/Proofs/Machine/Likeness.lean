import Scriptlet.Tree.Use
import Scriptlet.Proofs.Machine.Twin

/-!
When two programs are alike. They have the same shape, and their tokens, uses and declarations of functions correspond
pair by pair; what a pair of uses must have in common depends on the place where they stand. Values are alike if they
are equal or functions with the same serial number and like declarations, and two machines are if what they bind and
what they have printed is.
-/

namespace Scriptlet

structure Likeness where
  token : Token → Token → Prop
  use : Place → Use → Use → Prop
  /-- What is known of two declarations of functions. -/
  keeps : Stmt → Stmt → Prop
  name : String → String → Prop

mutual

inductive Expr.Paired (token : Token → Token → Prop) (use : Use → Use → Prop) : Expr → Expr → Prop
  | constant (value : Constant) : Paired token use (.constant value) (.constant value)
  | read {id id' : UseId} {name name' : Token} (same : use ⟨id, name, false⟩ ⟨id', name', false⟩) :
      Paired token use (.read id name) (.read id' name')
  | assign {id id' : UseId} {name name' : Token} {value value' : Expr} (right : Paired token use value value')
      (same : use ⟨id, name, true⟩ ⟨id', name', true⟩) :
      Paired token use (.assign id name value) (.assign id' name' value')
  | binary {operator operator' : Token} {left left' right right' : Expr} (same : token operator operator')
      (first : Paired token use left left') (second : Paired token use right right') :
      Paired token use (.binary operator left right) (.binary operator' left' right')
  | logical {operator operator' : Token} {left left' right right' : Expr} (same : token operator operator')
      (first : Paired token use left left') (second : Paired token use right right') :
      Paired token use (.logical operator left right) (.logical operator' left' right')
  | unary {operator operator' : Token} {operand operand' : Expr} (same : token operator operator')
      (inner : Paired token use operand operand') : Paired token use (.unary operator operand) (.unary operator' operand')
  | group {e e' : Expr} (inner : Paired token use e e') : Paired token use (.group e) (.group e')
  | call {callee callee' : Expr} {paren paren' : Token} {arguments arguments' : List Expr}
      (first : Paired token use callee callee') (same : token paren paren')
      (rest : PairedIn token use arguments arguments') :
      Paired token use (.call callee paren arguments) (.call callee' paren' arguments')
  | index {target target' : Expr} {bracket bracket' : Token} {place place' : Expr}
      (first : Paired token use target target') (same : token bracket bracket')
      (second : Paired token use place place') :
      Paired token use (.index target bracket place) (.index target' bracket' place')

inductive Expr.PairedIn (token : Token → Token → Prop) (use : Use → Use → Prop) : List Expr → List Expr → Prop
  | nil : PairedIn token use [] []
  | cons {e e' : Expr} {rest rest' : List Expr} (first : Paired token use e e')
      (others : PairedIn token use rest rest') : PairedIn token use (e :: rest) (e' :: rest')

end

inductive Expr.Paired? (token : Token → Token → Prop) (use : Use → Use → Prop) : Option Expr → Option Expr → Prop
  | none : Paired? token use none none
  | some {e e' : Expr} (inner : Paired token use e e') : Paired? token use (some e) (some e')

mutual

/-- Like statements at a place, and the place behind them. A branch or the body of a loop leaves the place as it is. -/
inductive Stmt.Paired (like : Likeness) : Place → Stmt → Stmt → Place → Prop
  | expression {p : Place} {e e' : Expr} (value : e.Paired like.token (like.use p) e') :
      Paired like p (.expression e) (.expression e') p
  | print {p : Place} {e e' : Expr} (value : e.Paired like.token (like.use p) e') :
      Paired like p (.print e) (.print e') p
  | declare {p q : Place} {name name' : Token} {initial initial' : Option Expr}
      (value : Expr.Paired? like.token (like.use p) initial initial') (declares : p.Declares like.token name name' q) :
      Paired like p (.declare name initial) (.declare name' initial') q
  | block {p q : Place} {body body' : List Stmt} (opens : p.Opens like.name q) (inside : PairedIn like q body body') :
      Paired like p (.block body) (.block body') p
  | ifThen {p : Place} {condition condition' : Expr} {yes yes' : Stmt}
      (test : condition.Paired like.token (like.use p) condition') (holds : Paired like p yes yes' p) :
      Paired like p (.ifThen condition yes) (.ifThen condition' yes') p
  | ifElse {p : Place} {condition condition' : Expr} {yes yes' no no' : Stmt}
      (test : condition.Paired like.token (like.use p) condition') (holds : Paired like p yes yes' p)
      (fails : Paired like p no no' p) : Paired like p (.ifElse condition yes no) (.ifElse condition' yes' no') p
  | loop {p : Place} {condition condition' : Expr} {body body' : Stmt}
      (test : condition.Paired like.token (like.use p) condition') (again : Paired like p body body' p) :
      Paired like p (.loop condition body) (.loop condition' body') p
  | function {p q r inner : Place} {name name' : Token} {parameters parameters' : List Token} {body body' : List Stmt}
      (declares : p.Declares like.token name name' q) (lexeme : name'.lexeme = name.lexeme) (opens : q.Opens like.name r)
      (binds : r.DeclaresAll like.token parameters parameters' inner) (inside : PairedIn like inner body body')
      (keeps : like.keeps (.function name parameters body) (.function name' parameters' body')) :
      Paired like p (.function name parameters body) (.function name' parameters' body') q
  | leave {p : Place} {keyword keyword' : Token} {value value' : Option Expr}
      (result : Expr.Paired? like.token (like.use p) value value') :
      Paired like p (.leave keyword value) (.leave keyword' value') p

inductive Stmt.PairedIn (like : Likeness) : Place → List Stmt → List Stmt → Prop
  | nil (p : Place) : PairedIn like p [] []
  | cons {p q : Place} {stmt stmt' : Stmt} {rest rest' : List Stmt} (first : Paired like p stmt stmt' q)
      (others : PairedIn like q rest rest') : PairedIn like p (stmt :: rest) (stmt' :: rest')

end

namespace Likeness

variable (like : Likeness)

open Machine (Fault Stop Defect)

inductive Functions (t : Twin) : Callable → Callable → Prop
  | closure {p q inner : Place} {name name' : Token} {parameters parameters' : List Token} {body body' : Program}
      {frame : FrameId} (lexeme : name'.lexeme = name.lexeme) (covers : t.Covers frame p) (opens : p.Opens like.name q)
      (binds : q.DeclaresAll like.token parameters parameters' inner) (inside : Stmt.PairedIn like inner body body')
      (keeps : like.keeps (.function name parameters body) (.function name' parameters' body')) :
      Functions t (.closure name parameters body frame) (.closure name' parameters' body' frame)
  | builtin {builtin : Builtin} (clock : builtin.action = .clock) : Functions t (.builtin builtin) (.builtin builtin)

inductive Values (t : Twin) : Value → Value → Prop
  | nil : Values t .nil .nil
  | boolean (value : Bool) : Values t (.boolean value) (.boolean value)
  | number (value : Float) : Values t (.number value) (.number value)
  | text (content : String) : Values t (.text content) (.text content)
  | function (serial : Nat) {callable callable' : Callable} (same : like.Functions t callable callable') :
      Values t (.function serial callable) (.function serial callable')

inductive Faults : Fault → Fault → Prop
  | same (fault : Fault) : Faults fault fault
  | unary {operator operator' : Token} (same : like.token operator operator') :
      Faults (.unknownUnary operator) (.unknownUnary operator')
  | binary {operator operator' : Token} (same : like.token operator operator') :
      Faults (.unknownBinary operator) (.unknownBinary operator')

inductive Stops : Stop → Stop → Prop
  | failed {token token' : Token} {fault fault' : Fault} (place : like.token token token')
      (cause : like.Faults fault fault') : Stops (.failed ⟨token, fault⟩) (.failed ⟨token', fault'⟩)
  | unbound {name name' : String} (names : like.name name name') (distance : Nat) :
      Stops (.defective (.unbound name distance)) (.defective (.unbound name' distance))
  | tooShallow : Stops (.defective .tooShallow) (.defective .tooShallow)
  | exhausted : Stops .exhausted .exhausted

/-- What two machines have printed, apart from what the second had printed before. -/
def Printed (t : Twin) (printed printed' : List Value) : Prop :=
  ∃ new, printed' = new ++ t.before ∧ List.Forall₂ (like.Values t) printed new

structure Valid (t : Twin) : Prop where
  current : t.right.current = t.left.current
  inside : t.left.current < t.size
  size : t.right.store.frames.size = t.size
  parent : ∀ f, t.right.store.parent? f = t.left.store.parent? f
  bindings : ∀ f, Bindings.Paired (t.allows f) (like.Values t) (t.left.store.bindings f) (t.right.store.bindings f)
  nodup : ∀ f, (t.left.store.names f).Nodup
  nodup' : ∀ f, (t.right.store.names f).Nodup
  global : t.allows Store.global = Eq
  named : ∀ f x x', t.allows f x x' → like.name x x'
  depth : t.right.depth = t.left.depth
  readings : t.right.readings = t.left.readings
  nextSerial : t.right.nextSerial = t.left.nextSerial
  printed : like.Printed t t.left.printed t.right.printed

structure Steps (spot : Option FrameId) (t u : Twin) : Prop where
  valid : like.Valid u
  grows : Twin.Grows spot t u
  current : u.left.current = t.left.current
  before : u.before = t.before

variable {like} {t u w : Twin} {spot : Option FrameId} {f : FrameId} {p q : Place} {v v' : Value} {x x' : String}

theorem Values.grow (h : like.Values t v v') (grows : Twin.Grows spot t u) : like.Values u v v' := by
  cases h with
  | nil => exact .nil
  | boolean value => exact .boolean value
  | number value => exact .number value
  | text content => exact .text content
  | function serial same =>
    refine .function serial ?_
    cases same with
    | closure lexeme covers opens binds inside keeps =>
      exact .closure lexeme (covers.grow grows) opens binds inside keeps
    | builtin clock => exact .builtin clock

theorem Printed.grow {printed printed' : List Value} (h : like.Printed t printed printed') (grows : Twin.Grows spot t u)
    (before : u.before = t.before) : like.Printed u printed printed' := by
  obtain ⟨new, eq, same⟩ := h
  exact ⟨new, before.symm ▸ eq, same.imp fun _ _ same => same.grow grows⟩

theorem Values.truthy_eq (h : like.Values t v v') : v'.truthy = v.truthy := by
  cases h <;> rfl

theorem Values.equals_eq {w w' : Value} (h : like.Values t v v') (k : like.Values t w w') :
    v'.equals w' = v.equals w := by
  cases h <;> cases k <;> rfl

theorem Functions.arity_eq {callable callable' : Callable} (h : like.Functions t callable callable') :
    callable'.arity = callable.arity := by
  cases h with
  | closure lexeme covers opens binds inside keeps => exact binds.length_eq
  | builtin clock => rfl

namespace Valid

theorem lookup (valid : like.Valid t) (link : (x, x') ∈ t.links f) :
    ∃ v v', t.left.store.find? f x = some v ∧ t.right.store.find? f x' = some v' ∧ like.Values t v v' := by
  obtain ⟨v, v', found, found', same⟩ := (valid.bindings f).lookup (valid.nodup f) (valid.nodup' f) link
  exact ⟨v, v', (Store.find?_eq_lookup ..).trans found, (Store.find?_eq_lookup ..).trans found', same⟩

theorem printed_alike (valid : like.Valid t) (fresh : t.before = []) :
    List.Forall₂ (like.Values t) t.left.printed t.right.printed := by
  obtain ⟨new, eq, same⟩ := valid.printed
  rwa [eq, fresh, List.append_nil]

theorem allows_of_mem (valid : like.Valid t) (link : (x, x') ∈ t.links f) : t.allows f x x' :=
  (valid.bindings f).names_of_mem_zip link

theorem binds_of_mem (link : (x, x') ∈ t.links f) :
    t.left.store.binds f x = true ∧ t.right.store.binds f x' = true :=
  (List.of_mem_zip link).imp Store.binds_iff.2 Store.binds_iff.2

theorem names_eq (valid : like.Valid t) (same : t.allows f = Eq) : t.right.store.names f = t.left.store.names f := by
  have paired := valid.bindings f
  rw [same] at paired
  exact paired.names_eq

theorem map_fst_links (valid : like.Valid t) (f : FrameId) : (t.links f).map Prod.fst = t.left.store.names f :=
  List.map_fst_zip (Nat.le_of_eq (valid.bindings f).length_eq.symm)

theorem map_snd_links (valid : like.Valid t) (f : FrameId) : (t.links f).map Prod.snd = t.right.store.names f :=
  List.map_snd_zip (Nat.le_of_eq (valid.bindings f).length_eq)

theorem ancestor? (valid : like.Valid t) (f : FrameId) (d : Nat) :
    t.right.store.ancestor? f d = t.left.store.ancestor? f d := by
  induction d generalizing f with
  | zero => rfl
  | succ d ih =>
    rw [Store.ancestor?, Store.ancestor?, valid.parent f]
    exact congrArg _ (funext ih)

theorem enter (valid : like.Valid t) (inside : f < t.size) : like.Valid (t.enter f) :=
  { valid with
    current := rfl
    inside
    bindings := fun g => (valid.bindings g).imp fun _ _ same => same.grow (.ofStores none rfl rfl rfl)
    printed := valid.printed.grow (.ofStores none rfl rfl rfl) rfl }

end Valid

namespace Steps

theorem refl (spot : Option FrameId) (valid : like.Valid t) : like.Steps spot t t :=
  ⟨valid, .refl spot t, rfl, rfl⟩

theorem trans (h : like.Steps spot t u) (k : like.Steps spot u w) : like.Steps spot t w :=
  ⟨k.valid, h.grows.trans k.grows, k.current.trans h.current, k.before.trans h.before⟩

theorem anywhere (h : like.Steps none t u) (spot : Option FrameId) : like.Steps spot t u :=
  ⟨h.valid, h.grows.anywhere spot, h.current, h.before⟩

theorem outside (h : like.Steps (some f) t u) (new : t.size ≤ f) : like.Steps none t u :=
  ⟨h.valid, h.grows.outside new, h.current, h.before⟩

theorem renders (h : like.Steps none t u) (valid : like.Valid t) (place : t.Renders t.left.current p) :
    u.Renders u.left.current p :=
  h.current.symm ▸ place.grow (Nat.zero_lt_of_lt valid.inside) h.grows

end Steps

end Likeness
end Scriptlet
