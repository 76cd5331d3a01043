import Std.Data.TreeMap.Basic
import Scriptlet.Tree

namespace Scriptlet

abbrev Addresses := Std.TreeMap UseId Nat

namespace Scope

inductive Fault
  | selfInitialised
  | declaredTwice (name : String)
  | strayReturn
  deriving DecidableEq

def Fault.message : Fault → String
  | .selfInitialised => "Can't read local variable in its own initializer"
  | .declaredTwice name => s!"Already a variable called '{name}' in this scope"
  | .strayReturn => "Can't return from top-level code"

end Scope

structure Scope where
  names : List String
  pending : Option String
  deriving DecidableEq

def Scope.empty : Scope := ⟨[], none⟩

structure Scoping where
  scopes : List Scope
  inFunction : Bool
  addresses : Addresses
  failed : Bool

namespace Scoping

abbrev Walk := EStateM (Located Scope.Fault) Scoping

def start : Scoping := ⟨[], false, ∅, false⟩

def distance? (scopes : List Scope) (name : String) : Option Nat :=
  scopes.findIdx? (·.names.contains name)

def record (id : UseId) (name : Token) : Walk Unit :=
  modify fun s =>
    match distance? s.scopes name.lexeme with
    | some distance => { s with addresses := s.addresses.insert id distance }
    | none => s

/-- Begins the declaration of a name in the innermost scope. Global names are not tracked. -/
def declare (name : Token) : Walk Unit := do
  match (← get).scopes with
  | [] => return
  | scope :: outer =>
    if scope.names.contains name.lexeme then throw ⟨name, .declaredTwice name.lexeme⟩
    else modify fun s => { s with scopes := ⟨name.lexeme :: scope.names, some name.lexeme⟩ :: outer }

def settle : Walk Unit :=
  modify fun s =>
    match s.scopes with
    | [] => s
    | scope :: outer => { s with scopes := { scope with pending := none } :: outer }

def openScope : Walk Unit :=
  modify fun s => { s with scopes := .empty :: s.scopes }

def closeScope : Walk Unit :=
  modify fun s => { s with scopes := s.scopes.tail }

def isPending (s : Scoping) (name : String) : Bool :=
  match s.scopes with
  | [] => false
  | scope :: _ => scope.pending == some name

mutual

def visit : Expr → Walk Unit
  | .constant _ => pure ()
  | .read id name => do
    if (← get).isPending name.lexeme then throw ⟨name, .selfInitialised⟩
    record id name
  | .assign id name value => do
    visit value
    record id name
  | .binary _ left right | .logical _ left right => do
    visit left
    visit right
  | .unary _ operand => visit operand
  | .group inner => visit inner
  | .call callee _ arguments => do
    visit callee
    visitAll arguments
  | .index target _ place => do
    visit target
    visit place

def visitAll : List Expr → Walk Unit
  | [] => pure ()
  | e :: rest => do
    visit e
    visitAll rest

end

def visit? : Option Expr → Walk Unit
  | none => pure ()
  | some e => visit e

def declareParameters : List Token → Walk Unit
  | [] => pure ()
  | name :: rest => do
    declare name
    settle
    declareParameters rest

mutual

def walk : Stmt → Walk Unit
  | .expression e | .print e => visit e
  | .declare name initial => do
    declare name
    visit? initial
    settle
  | .block body => do
    openScope
    walkAll body
    closeScope
  | .ifThen condition yes => do
    visit condition
    walk yes
  | .ifElse condition yes no => do
    visit condition
    walk yes
    walk no
  | .loop condition body => do
    visit condition
    walk body
  | .function name parameters body => do
    declare name
    settle
    let outside := (← get).inFunction
    modify fun s => { s with inFunction := true }
    openScope
    declareParameters parameters
    walkAll body
    closeScope
    modify fun s => { s with inFunction := outside }
  | .leave keyword value => do
    if (← get).inFunction then visit? value else throw ⟨keyword, .strayReturn⟩

def walkAll : List Stmt → Walk Unit
  | [] => pure ()
  | stmt :: rest => do
    walk stmt
    walkAll rest

end

/-- Finds the addresses of one program. A breach ends the walk; the addresses found before it stay, and the
next program starts outside of all scopes again. -/
def resolve (s : Scoping) (program : Program) : Scoping × Option (Located Scope.Fault) :=
  match (walkAll program).run s with
  | .ok _ t => (t, none)
  | .error breach t => ({ t with scopes := [], inFunction := false, failed := true }, some breach)

end Scoping
end Scriptlet
