import Scriptlet.Tree

namespace Scriptlet

structure Use where
  id : UseId
  name : Token
  assigns : Bool

mutual

def Expr.uses : Expr → List Use
  | .constant _ => []
  | .read id name => [⟨id, name, false⟩]
  | .assign id name value => value.uses ++ [⟨id, name, true⟩]
  | .binary _ left right | .logical _ left right => left.uses ++ right.uses
  | .unary _ operand => operand.uses
  | .group inner => inner.uses
  | .call callee _ arguments => callee.uses ++ usesIn arguments
  | .index target _ place => target.uses ++ place.uses

def Expr.usesIn : List Expr → List Use
  | [] => []
  | e :: rest => e.uses ++ usesIn rest

end

mutual

/-- The uses of variables in a statement, function bodies in place. -/
def Stmt.uses : Stmt → List Use
  | .expression e | .print e => e.uses
  | .declare _ initial => (initial.map Expr.uses).getD []
  | .block body => usesIn body
  | .ifThen condition yes => condition.uses ++ yes.uses
  | .ifElse condition yes no => condition.uses ++ yes.uses ++ no.uses
  | .loop condition body => condition.uses ++ body.uses
  | .function _ _ body => usesIn body
  | .leave _ value => (value.map Expr.uses).getD []

def Stmt.usesIn : List Stmt → List Use
  | [] => []
  | stmt :: rest => stmt.uses ++ usesIn rest

end

abbrev Program.uses (program : Program) : List Use :=
  Stmt.usesIn program

def UseId.fresh : StateM UseId UseId :=
  modifyGet fun n => (n, n + 1)

mutual

def Expr.renumber : Expr → StateM UseId Expr
  | .constant value => pure (.constant value)
  | .read _ name => return .read (← UseId.fresh) name
  | .assign _ name value => return .assign (← UseId.fresh) name (← value.renumber)
  | .binary operator left right => return .binary operator (← left.renumber) (← right.renumber)
  | .logical operator left right => return .logical operator (← left.renumber) (← right.renumber)
  | .unary operator operand => return .unary operator (← operand.renumber)
  | .group inner => return .group (← inner.renumber)
  | .call callee paren arguments => return .call (← callee.renumber) paren (← renumberIn arguments)
  | .index target bracket place => return .index (← target.renumber) bracket (← place.renumber)

def Expr.renumberIn : List Expr → StateM UseId (List Expr)
  | [] => pure []
  | e :: rest => return (← e.renumber) :: (← renumberIn rest)

end

def Expr.renumber? : Option Expr → StateM UseId (Option Expr)
  | none => pure none
  | some e => some <$> e.renumber

mutual

def Stmt.renumber : Stmt → StateM UseId Stmt
  | .expression e => return .expression (← e.renumber)
  | .print e => return .print (← e.renumber)
  | .declare name initial => return .declare name (← Expr.renumber? initial)
  | .block body => return .block (← renumberIn body)
  | .ifThen condition yes => return .ifThen (← condition.renumber) (← yes.renumber)
  | .ifElse condition yes no =>
    return .ifElse (← condition.renumber) (← yes.renumber) (← no.renumber)
  | .loop condition body => return .loop (← condition.renumber) (← body.renumber)
  | .function name parameters body => return .function name parameters (← renumberIn body)
  | .leave keyword value => return .leave keyword (← Expr.renumber? value)

def Stmt.renumberIn : List Stmt → StateM UseId (List Stmt)
  | [] => pure []
  | stmt :: rest => return (← stmt.renumber) :: (← renumberIn rest)

end

abbrev Program.renumber (program : Program) : StateM UseId Program :=
  Stmt.renumberIn program

end Scriptlet
