import Scriptlet.Text.Position

namespace Scriptlet

inductive Token.Kind
  | leftParen | rightParen | leftBrace | rightBrace | leftSquare | rightSquare
  | dot | comma | semicolon
  | assign | equal | not | notEqual | greater | greaterEqual | less | lessEqual
  | plus | minus | times | divide
  | identifier | number | text
  | andWord | orWord | ifWord | elseWord | forWord | whileWord | funWord | returnWord
  | varWord | printWord | trueWord | falseWord | nilWord
  | endMark
  deriving DecidableEq

inductive Token.Payload
  | number (value : Float)
  | text (content : String)
  deriving DecidableEq

structure Token where
  kind : Token.Kind
  lexeme : String
  payload : Option Token.Payload
  position : Position
  deriving DecidableEq

namespace Token

def Kind.ofWord : String → Kind
  | "and" => .andWord
  | "else" => .elseWord
  | "false" => .falseWord
  | "for" => .forWord
  | "fun" => .funWord
  | "if" => .ifWord
  | "nil" => .nilWord
  | "or" => .orWord
  | "print" => .printWord
  | "return" => .returnWord
  | "true" => .trueWord
  | "var" => .varWord
  | "while" => .whileWord
  | _ => .identifier

def ofName (name : String) : Token :=
  ⟨.identifier, name, none, .start⟩

def describe (t : Token) : String :=
  if t.kind = .endMark then "Eof" else "`" ++ t.lexeme ++ "`"

/-- The line that reports an error at a token; the end mark is named for what it is, whatever its lexeme. -/
def complaint (t : Token) (message : String) : String :=
  let place := if t.kind = .endMark then "end" else s!"'{t.lexeme}'"
  s!"{t.position.describe} Error at {place} (offset {t.position.offset}): {message}"

end Token

structure Located (Cause : Type) where
  token : Token
  cause : Cause
  deriving DecidableEq

end Scriptlet
