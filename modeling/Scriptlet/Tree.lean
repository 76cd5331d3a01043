import Scriptlet.Token

namespace Scriptlet

inductive Constant
  | nil
  | boolean (value : Bool)
  | number (value : Float)
  | text (content : String)
  deriving DecidableEq

def Constant.ofPayload : Token.Payload → Constant
  | .number value => .number value
  | .text content => .text content

abbrev UseId := Nat

inductive Expr
  | constant (value : Constant)
  | read (id : UseId) (name : Token)
  | assign (id : UseId) (name : Token) (value : Expr)
  | binary (operator : Token) (left right : Expr)
  | logical (operator : Token) (left right : Expr)
  | unary (operator : Token) (operand : Expr)
  | group (inner : Expr)
  | call (callee : Expr) (paren : Token) (arguments : List Expr)
  | index (target : Expr) (bracket : Token) (place : Expr)

inductive Stmt
  | expression (value : Expr)
  | print (value : Expr)
  | declare (name : Token) (initial : Option Expr)
  | block (body : List Stmt)
  | ifThen (condition : Expr) (yes : Stmt)
  | ifElse (condition : Expr) (yes no : Stmt)
  | loop (condition : Expr) (body : Stmt)
  | function (name : Token) (parameters : List Token) (body : List Stmt)
  | leave (keyword : Token) (value : Option Expr)

abbrev Program := List Stmt

mutual

/-- Whether running a statement can make a function value, which keeps the addresses of its body in use after
the statement has ended. -/
def Stmt.declaresFunction : Stmt → Bool
  | .function .. => true
  | .block body => declaresFunctionIn body
  | .ifThen _ yes => yes.declaresFunction
  | .ifElse _ yes no => yes.declaresFunction || no.declaresFunction
  | .loop _ body => body.declaresFunction
  | .expression _ | .print _ | .declare .. | .leave .. => false

def Stmt.declaresFunctionIn : List Stmt → Bool
  | [] => false
  | stmt :: rest => stmt.declaresFunction || declaresFunctionIn rest

end

abbrev Program.declaresFunction (program : Program) : Bool :=
  Stmt.declaresFunctionIn program

/-- A loop with clauses is a loop in a block: the increment follows the body in a block of its own, and a
missing condition always holds. -/
def Stmt.forLoop (initial : Option Stmt) (condition increment : Option Expr) (body : Stmt) : Stmt :=
  let step := match increment with
    | some e => .block [body, .expression e]
    | none => body
  let loop := .loop (condition.getD (.constant (.boolean true))) step
  match initial with
  | some first => .block [first, loop]
  | none => loop

end Scriptlet
