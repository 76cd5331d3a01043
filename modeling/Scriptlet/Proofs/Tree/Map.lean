import Scriptlet.Tree

namespace Scriptlet

variable (f : Token → Token) (g : UseId → UseId)

mutual

def Expr.map : Expr → Expr
  | .constant value => .constant value
  | .read id name => .read (g id) (f name)
  | .assign id name value => .assign (g id) (f name) value.map
  | .binary operator left right => .binary (f operator) left.map right.map
  | .logical operator left right => .logical (f operator) left.map right.map
  | .unary operator operand => .unary (f operator) operand.map
  | .group inner => .group inner.map
  | .call callee paren arguments => .call callee.map (f paren) (mapIn arguments)
  | .index target bracket place => .index target.map (f bracket) place.map

def Expr.mapIn : List Expr → List Expr
  | [] => []
  | e :: rest => e.map :: mapIn rest

end

mutual

def Stmt.map : Stmt → Stmt
  | .expression e => .expression (e.map f g)
  | .print e => .print (e.map f g)
  | .declare name initial => .declare (f name) (initial.map (Expr.map f g))
  | .block body => .block (mapIn body)
  | .ifThen condition yes => .ifThen (condition.map f g) yes.map
  | .ifElse condition yes no => .ifElse (condition.map f g) yes.map no.map
  | .loop condition body => .loop (condition.map f g) body.map
  | .function name parameters body => .function (f name) (parameters.map f) (mapIn body)
  | .leave keyword value => .leave (f keyword) (value.map (Expr.map f g))

def Stmt.mapIn : List Stmt → List Stmt
  | [] => []
  | stmt :: rest => stmt.map :: mapIn rest

end

@[simp] theorem Expr.mapIn_eq_map (es : List Expr) : Expr.mapIn f g es = es.map (Expr.map f g) := by
  induction es with
  | nil => rfl
  | cons e es ih => simp [Expr.mapIn, ih]

@[simp] theorem Stmt.mapIn_eq_map (stmts : List Stmt) : Stmt.mapIn f g stmts = stmts.map (Stmt.map f g) := by
  induction stmts with
  | nil => rfl
  | cons stmt stmts ih => simp [Stmt.mapIn, ih]

section Composition

variable (f' : Token → Token) (g' : UseId → UseId)

mutual

theorem Expr.map_map (e : Expr) : (e.map f g).map f' g' = e.map (f' ∘ f) (g' ∘ g) := by
  match e with
  | .constant _ | .read .. => rfl
  | .assign _ _ value => simp [Expr.map, value.map_map]
  | .binary _ left right | .logical _ left right => simp [Expr.map, left.map_map, right.map_map]
  | .unary _ operand => simp [Expr.map, operand.map_map]
  | .group inner => simp [Expr.map, inner.map_map]
  | .call callee _ arguments => simpa [Expr.map, callee.map_map] using mapIn_mapIn arguments
  | .index target _ place => simp [Expr.map, target.map_map, place.map_map]

theorem Expr.mapIn_mapIn (es : List Expr) :
    Expr.mapIn f' g' (Expr.mapIn f g es) = Expr.mapIn (f' ∘ f) (g' ∘ g) es := by
  match es with
  | [] => rfl
  | e :: rest => rw [Expr.mapIn, Expr.mapIn, Expr.mapIn, e.map_map, mapIn_mapIn rest]

end

theorem Expr.map?_map? (e : Option Expr) :
    (e.map (Expr.map f g)).map (Expr.map f' g') = e.map (Expr.map (f' ∘ f) (g' ∘ g)) := by
  cases e with
  | none => rfl
  | some e => exact congrArg some (e.map_map f g f' g')

mutual

theorem Stmt.map_map (stmt : Stmt) : (stmt.map f g).map f' g' = stmt.map (f' ∘ f) (g' ∘ g) := by
  match stmt with
  | .expression e | .print e => simp [Stmt.map, e.map_map]
  | .declare _ value | .leave _ value => simp [Stmt.map, Expr.map?_map?, -Option.map_map]
  | .block body => simpa [Stmt.map] using mapIn_mapIn body
  | .ifThen condition yes => simp [Stmt.map, condition.map_map, yes.map_map]
  | .ifElse condition yes no => simp [Stmt.map, condition.map_map, yes.map_map, no.map_map]
  | .loop condition body => simp [Stmt.map, condition.map_map, body.map_map]
  | .function _ _ body => simpa [Stmt.map] using mapIn_mapIn body

theorem Stmt.mapIn_mapIn (stmts : List Stmt) :
    Stmt.mapIn f' g' (Stmt.mapIn f g stmts) = Stmt.mapIn (f' ∘ f) (g' ∘ g) stmts := by
  match stmts with
  | [] => rfl
  | stmt :: rest => rw [Stmt.mapIn, Stmt.mapIn, Stmt.mapIn, stmt.map_map, mapIn_mapIn rest]

end

end Composition

theorem Stmt.map_forLoop (initial : Option Stmt) (condition increment : Option Expr) (body : Stmt) :
    (Stmt.forLoop initial condition increment body).map f g =
      Stmt.forLoop (initial.map (Stmt.map f g)) (condition.map (Expr.map f g)) (increment.map (Expr.map f g))
        (body.map f g) := by
  cases initial <;> cases condition <;> cases increment <;> simp [Stmt.forLoop, Stmt.map, Expr.map]

def Located.map {Cause : Type} (error : Located Cause) : Located Cause :=
  ⟨f error.token, error.cause⟩

/-- An expression as far as a view of tokens shows it, its numbers left out. -/
abbrev Expr.view : Expr → Expr :=
  Expr.map f fun _ => 0

abbrev Stmt.view : Stmt → Stmt :=
  Stmt.map f fun _ => 0

abbrev Expr.unnumbered : Expr → Expr :=
  Expr.view id

abbrev Stmt.unnumbered : Stmt → Stmt :=
  Stmt.view id

abbrev Program.unnumbered (program : Program) : Program :=
  List.map Stmt.unnumbered program

end Scriptlet
