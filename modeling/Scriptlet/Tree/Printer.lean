import Scriptlet.Decimal.Numeral
import Scriptlet.Tree

namespace Scriptlet

def Constant.render : Constant → String
  | .nil => "nil"
  | .boolean true => "true"
  | .boolean false => "false"
  | .number value => Decimal.numeral value
  | .text content => "\"" ++ content ++ "\""

mutual

def Expr.render : Expr → String
  | .constant value => value.render
  | .read _ name => name.lexeme
  | .assign _ name value => "(= " ++ name.lexeme ++ " " ++ value.render ++ ")"
  | .binary operator left right | .logical operator left right =>
    "(" ++ operator.lexeme ++ " " ++ left.render ++ " " ++ right.render ++ ")"
  | .unary operator operand => "(" ++ operator.lexeme ++ " " ++ operand.render ++ ")"
  | .group inner => "(group " ++ inner.render ++ ")"
  | .call callee _ arguments => "(call " ++ callee.render ++ renderArguments arguments ++ ")"
  | .index target _ place => "(index " ++ target.render ++ " " ++ place.render ++ ")"

/-- Each argument after a blank of its own. -/
def Expr.renderArguments : List Expr → String
  | [] => ""
  | e :: rest => " " ++ e.render ++ renderArguments rest

end

mutual

def Stmt.render : Stmt → String
  | .expression e => e.render ++ ";"
  | .print e => "print " ++ e.render ++ ";"
  | .declare name none => "var " ++ name.lexeme ++ ";"
  | .declare name (some initial) => "var " ++ name.lexeme ++ " = " ++ initial.render ++ ";"
  | .block body => "\x7b " ++ " ".intercalate (renderEach body) ++ " \x7d"
  | .ifThen condition yes => "if (" ++ condition.render ++ ") " ++ yes.render
  | .ifElse condition yes no =>
    "if (" ++ condition.render ++ ") " ++ yes.render ++ " else " ++ no.render
  | .loop condition body => "while (" ++ condition.render ++ ") " ++ body.render
  | .function name parameters body =>
    "fun " ++ name.lexeme ++ "(" ++ ", ".intercalate (parameters.map Token.lexeme) ++ ") \x7b "
      ++ " ".intercalate (renderEach body) ++ " \x7d"
  | .leave _ none => "return;"
  | .leave _ (some value) => "return " ++ value.render ++ ";"

def Stmt.renderEach : List Stmt → List String
  | [] => []
  | stmt :: rest => stmt.render :: renderEach rest

end

abbrev Program.render (program : Program) : List String :=
  Stmt.renderEach program

end Scriptlet
