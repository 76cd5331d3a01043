namespace Scriptlet

/-- The offset counts the bytes of the UTF-8 encoding. Lines and columns count from one in 32 bits, and wrap. -/
structure Position where
  offset : Nat
  line : Int32
  column : Int32
  deriving DecidableEq

namespace Position

def start : Position := ⟨0, 1, 1⟩

/-- Only the line feed ends a line. -/
def advance (p : Position) (c : Char) : Position :=
  if c = '\n' then ⟨p.offset + c.utf8Size, p.line + 1, 1⟩
  else ⟨p.offset + c.utf8Size, p.line, p.column + 1⟩

def advanceAll (p : Position) (text : List Char) : Position :=
  text.foldl advance p

def describe (p : Position) : String :=
  s!"[line {p.line} column {p.column}]"

@[simp] theorem advanceAll_nil (p : Position) : p.advanceAll [] = p := rfl

@[simp] theorem advanceAll_cons (p : Position) (c : Char) (text : List Char) :
    p.advanceAll (c :: text) = (p.advance c).advanceAll text := rfl

@[simp] theorem advanceAll_append (p : Position) (before after : List Char) :
    p.advanceAll (before ++ after) = (p.advanceAll before).advanceAll after :=
  List.foldl_append

end Position
end Scriptlet
