import Scriptlet.Command
import Scriptlet.Proofs.Machine.Verbatim

namespace Scriptlet

def Token.blank : Token :=
  .ofName ""

section Anonymous

variable (isLocal : UseId → Bool)

def Token.anonymous (id : UseId) (name : Token) : Token :=
  if isLocal id then .blank else name

def Use.anonymous (u : Use) : Use :=
  { u with name := u.name.anonymous isLocal u.id }

mutual

def Expr.anonymous : Expr → Expr
  | .constant value => .constant value
  | .read id name => .read id (name.anonymous isLocal id)
  | .assign id name value => .assign id (name.anonymous isLocal id) value.anonymous
  | .binary operator left right => .binary operator left.anonymous right.anonymous
  | .logical operator left right => .logical operator left.anonymous right.anonymous
  | .unary operator operand => .unary operator operand.anonymous
  | .group inner => .group inner.anonymous
  | .call callee paren arguments => .call callee.anonymous paren (anonymousIn arguments)
  | .index target bracket place => .index target.anonymous bracket place.anonymous

def Expr.anonymousIn : List Expr → List Expr
  | [] => []
  | e :: rest => e.anonymous :: anonymousIn rest

end

mutual

/-- A statement that stands in a scope (`inner`) or outside of all scopes. -/
def Stmt.anonymous (inner : Bool) : Stmt → Stmt
  | .expression e => .expression (e.anonymous isLocal)
  | .print e => .print (e.anonymous isLocal)
  | .declare name initial => .declare (if inner then .blank else name) (initial.map (Expr.anonymous isLocal))
  | .block body => .block (anonymousIn true body)
  | .ifThen condition yes => .ifThen (condition.anonymous isLocal) (yes.anonymous inner)
  | .ifElse condition yes no => .ifElse (condition.anonymous isLocal) (yes.anonymous inner) (no.anonymous inner)
  | .loop condition body => .loop (condition.anonymous isLocal) (body.anonymous inner)
  | .function name parameters body => .function name (parameters.map fun _ => .blank) (anonymousIn true body)
  | .leave keyword value => .leave keyword (value.map (Expr.anonymous isLocal))

def Stmt.anonymousIn (inner : Bool) : List Stmt → List Stmt
  | [] => []
  | stmt :: rest => stmt.anonymous inner :: anonymousIn inner rest

end

def Program.anonymous (program : Program) : Program :=
  Stmt.anonymousIn isLocal false program

def Callable.anonymous : Callable → Callable
  | .closure name parameters body frame =>
    .closure name (parameters.map fun _ => .blank) (Stmt.anonymousIn isLocal true body) frame
  | .builtin b => .builtin b

def Value.anonymous : Value → Value
  | .function serial callable => .function serial (callable.anonymous isLocal)
  | value => value

def Event.anonymous : Event → Event
  | .printed value => .printed (value.anonymous isLocal)
  | event => event

def Ending.anonymous : Ending → Ending
  | .defective (.unbound _ distance) => .defective (.unbound "" distance)
  | ending => ending

def Report.anonymous (report : Report) : Report :=
  ⟨report.events.map (Event.anonymous isLocal), report.ending.anonymous⟩

theorem Value.display_anonymous (v : Value) : (v.anonymous isLocal).display = v.display := by
  cases v with
  | function serial callable => cases callable <;> rfl
  | _ => rfl

theorem Event.complaint?_anonymous (event : Event) : (event.anonymous isLocal).complaint? = event.complaint? := by
  cases event <;> rfl

theorem Command.Transcript.ofEvents_anonymous (events : List Event) :
    Transcript.ofEvents (events.map (Event.anonymous isLocal)) = Transcript.ofEvents events := by
  simp only [Transcript.ofEvents, List.filterMap_map, List.any_map]
  congr 2
  · refine congrArg (List.filterMap · events) (funext fun event => ?_)
    cases event with
    | printed value => exact congrArg some (value.display_anonymous isLocal)
    | _ => rfl
  · exact congrArg (List.filterMap · events) (funext (Event.complaint?_anonymous isLocal))
  · exact congrArg (events.any · = true) (funext fun event => congrArg Option.isSome (event.complaint?_anonymous isLocal))

mutual

theorem Expr.uses_anonymous (e : Expr) : (e.anonymous isLocal).uses = e.uses.map (Use.anonymous isLocal) := by
  match e with
  | .constant _ | .read .. => rfl
  | .assign id name value => simp [Expr.anonymous, Expr.uses, value.uses_anonymous, Use.anonymous]
  | .binary _ left right | .logical _ left right =>
    simp [Expr.anonymous, Expr.uses, left.uses_anonymous, right.uses_anonymous]
  | .unary _ operand => simp [Expr.anonymous, Expr.uses, operand.uses_anonymous]
  | .group inner => simp [Expr.anonymous, Expr.uses, inner.uses_anonymous]
  | .call callee _ arguments => simp [Expr.anonymous, Expr.uses, callee.uses_anonymous, usesIn_anonymous arguments]
  | .index target _ place => simp [Expr.anonymous, Expr.uses, target.uses_anonymous, place.uses_anonymous]

theorem Expr.usesIn_anonymous (es : List Expr) :
    Expr.usesIn (Expr.anonymousIn isLocal es) = (Expr.usesIn es).map (Use.anonymous isLocal) := by
  match es with
  | [] => rfl
  | e :: rest => simp [Expr.anonymousIn, Expr.usesIn, e.uses_anonymous, usesIn_anonymous rest]

end

theorem Expr.uses?_anonymous (e : Option Expr) :
    ((e.map (Expr.anonymous isLocal)).map Expr.uses).getD [] =
      ((e.map Expr.uses).getD []).map (Use.anonymous isLocal) := by
  cases e with
  | none => rfl
  | some e => exact e.uses_anonymous isLocal

mutual

theorem Stmt.uses_anonymous (inner : Bool) (stmt : Stmt) :
    (stmt.anonymous isLocal inner).uses = stmt.uses.map (Use.anonymous isLocal) := by
  match stmt with
  | .expression e | .print e => exact e.uses_anonymous isLocal
  | .declare _ value | .leave _ value => exact Expr.uses?_anonymous isLocal value
  | .block body => exact usesIn_anonymous true body
  | .ifThen condition yes => simp [anonymous, uses, condition.uses_anonymous, yes.uses_anonymous]
  | .ifElse condition yes no =>
    simp [anonymous, uses, condition.uses_anonymous, yes.uses_anonymous, no.uses_anonymous]
  | .loop condition body => simp [anonymous, uses, condition.uses_anonymous, body.uses_anonymous]
  | .function _ _ body => exact usesIn_anonymous true body

theorem Stmt.usesIn_anonymous (inner : Bool) (stmts : List Stmt) :
    Stmt.usesIn (Stmt.anonymousIn isLocal inner stmts) = (Stmt.usesIn stmts).map (Use.anonymous isLocal) := by
  match stmts with
  | [] => rfl
  | stmt :: rest => simp [anonymousIn, usesIn, stmt.uses_anonymous, usesIn_anonymous inner rest]

end

end Anonymous

section Paired

variable {isLocal : UseId → Bool}

theorem Expr.length_uses_of_anonymous {e e' : Expr} (same : e'.anonymous isLocal = e.anonymous isLocal) :
    e'.uses.length = e.uses.length := by
  simpa [Expr.uses_anonymous] using congrArg (List.length ∘ Expr.uses) same

theorem Stmt.length_uses_of_anonymous {inner : Bool} {stmt stmt' : Stmt}
    (same : stmt'.anonymous isLocal inner = stmt.anonymous isLocal inner) : stmt'.uses.length = stmt.uses.length := by
  simpa [Stmt.uses_anonymous] using congrArg (List.length ∘ Stmt.uses) same

variable {use : Use → Use → Prop}

mutual

theorem Expr.paired_of_anonymous (e e' : Expr) (same : e'.anonymous isLocal = e.anonymous isLocal)
    (uses : List.Forall₂ use e.uses e'.uses) : e.Paired Eq use e' := by
  match e with
  | .constant value =>
    cases e' with
    | constant value' =>
      cases same
      exact .constant value
    | _ => cases same
  | .read id name =>
    cases e' with
    | read id' name' => exact .read (List.forall₂_cons.1 uses).1
    | _ => cases same
  | .assign id name value =>
    cases e' with
    | assign id' name' value' =>
      obtain ⟨-, -, inner⟩ := Expr.assign.inj same
      obtain ⟨right, last⟩ := forall₂_append_inv uses (Expr.length_uses_of_anonymous inner)
      exact .assign (paired_of_anonymous value value' inner right) (List.forall₂_cons.1 last).1
    | _ => cases same
  | .binary operator left right =>
    cases e' with
    | binary operator' left' right' =>
      obtain ⟨rfl, first, second⟩ := Expr.binary.inj same
      obtain ⟨uses, uses'⟩ := forall₂_append_inv uses (Expr.length_uses_of_anonymous first)
      exact .binary rfl (paired_of_anonymous left left' first uses) (paired_of_anonymous right right' second uses')
    | _ => cases same
  | .logical operator left right =>
    cases e' with
    | logical operator' left' right' =>
      obtain ⟨rfl, first, second⟩ := Expr.logical.inj same
      obtain ⟨uses, uses'⟩ := forall₂_append_inv uses (Expr.length_uses_of_anonymous first)
      exact .logical rfl (paired_of_anonymous left left' first uses) (paired_of_anonymous right right' second uses')
    | _ => cases same
  | .unary operator operand =>
    cases e' with
    | unary operator' operand' =>
      obtain ⟨rfl, inner⟩ := Expr.unary.inj same
      exact .unary rfl (paired_of_anonymous operand operand' inner uses)
    | _ => cases same
  | .group inner =>
    cases e' with
    | group inner' => exact .group (paired_of_anonymous inner inner' (Expr.group.inj same) uses)
    | _ => cases same
  | .call callee paren arguments =>
    cases e' with
    | call callee' paren' arguments' =>
      obtain ⟨first, rfl, rest⟩ := Expr.call.inj same
      obtain ⟨uses, uses'⟩ := forall₂_append_inv uses (Expr.length_uses_of_anonymous first)
      exact .call (paired_of_anonymous callee callee' first uses) rfl
        (pairedIn_of_anonymous arguments arguments' rest uses')
    | _ => cases same
  | .index target bracket place =>
    cases e' with
    | index target' bracket' place' =>
      obtain ⟨first, rfl, second⟩ := Expr.index.inj same
      obtain ⟨uses, uses'⟩ := forall₂_append_inv uses (Expr.length_uses_of_anonymous first)
      exact .index (paired_of_anonymous target target' first uses) rfl (paired_of_anonymous place place' second uses')
    | _ => cases same

theorem Expr.pairedIn_of_anonymous (es es' : List Expr)
    (same : Expr.anonymousIn isLocal es' = Expr.anonymousIn isLocal es)
    (uses : List.Forall₂ use (Expr.usesIn es) (Expr.usesIn es')) : Expr.PairedIn Eq use es es' := by
  match es with
  | [] =>
    cases es' with
    | nil => exact .nil
    | cons e' rest' => cases same
  | e :: rest =>
    cases es' with
    | nil => cases same
    | cons e' rest' =>
      obtain ⟨first, others⟩ := List.cons.inj same
      obtain ⟨uses, uses'⟩ := forall₂_append_inv uses (Expr.length_uses_of_anonymous first)
      exact .cons (paired_of_anonymous e e' first uses) (pairedIn_of_anonymous rest rest' others uses')

end

theorem Expr.paired?_of_anonymous (e e' : Option Expr)
    (same : e'.map (Expr.anonymous isLocal) = e.map (Expr.anonymous isLocal))
    (uses : List.Forall₂ use ((e.map Expr.uses).getD []) ((e'.map Expr.uses).getD [])) :
    Expr.Paired? Eq use e e' := by
  cases e with
  | none =>
    cases e' with
    | none => exact .none
    | some e' => cases same
  | some e =>
    cases e' with
    | none => cases same
    | some e' => exact .some (Expr.paired_of_anonymous e e' (Option.some.inj same) uses)

end Paired

end Scriptlet
