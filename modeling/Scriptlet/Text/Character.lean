namespace Scriptlet.Text

def isLetter (c : Char) : Bool :=
  c.isAlpha || c == '_'

def isDigit (c : Char) : Bool :=
  c.isDigit

def isWordPart (c : Char) : Bool :=
  isLetter c || isDigit c

/-- The code points with the property White_Space, as closed ranges in ascending order. -/
def blankRanges : List (Nat × Nat) :=
  [(0x9, 0xD), (0x20, 0x20), (0x85, 0x85), (0xA0, 0xA0), (0x1680, 0x1680), (0x2000, 0x200A),
    (0x2028, 0x2029), (0x202F, 0x202F), (0x205F, 0x205F), (0x3000, 0x3000)]

def isBlank (c : Char) : Bool :=
  blankRanges.any fun (first, last) => first ≤ c.toNat && c.toNat ≤ last

@[simp] theorem isBlank_newline : isBlank '\n' = true := by decide

@[simp] theorem isBlank_slash : isBlank '/' = false := by decide

end Scriptlet.Text
