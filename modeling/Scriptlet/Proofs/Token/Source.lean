import Scriptlet.Token.Scan

/-!
Scanning by whole lexemes. At every place of a text a gap of blanks and comments is passed over, and then the longest lexeme
that starts there is read off. Gaps and lexemes are found as lengths, so that a text is always the concatenation of what was
read and what is left.
-/

namespace Scriptlet
namespace Token

/-- The length of the blanks and comments that open a text. A comment runs from two slashes up to the end
of its line, and that end is a blank. -/
def gapLength (inComment : Bool) : List Char → Nat
  | [] => 0
  | c :: rest =>
    if inComment then 1 + gapLength (c != '\n') rest
    else if Text.isBlank c then 1 + gapLength false rest
    else if c == '/' && rest.head? == some '/' then 1 + gapLength true rest
    else 0

def symbol? : List Char → Option (Kind × Nat)
  | '=' :: '=' :: _ => some (.equal, 2)
  | '!' :: '=' :: _ => some (.notEqual, 2)
  | '>' :: '=' :: _ => some (.greaterEqual, 2)
  | '<' :: '=' :: _ => some (.lessEqual, 2)
  | '=' :: _ => some (.assign, 1)
  | '!' :: _ => some (.not, 1)
  | '>' :: _ => some (.greater, 1)
  | '<' :: _ => some (.less, 1)
  | '(' :: _ => some (.leftParen, 1)
  | ')' :: _ => some (.rightParen, 1)
  | '{' :: _ => some (.leftBrace, 1)
  | '}' :: _ => some (.rightBrace, 1)
  | '[' :: _ => some (.leftSquare, 1)
  | ']' :: _ => some (.rightSquare, 1)
  | '.' :: _ => some (.dot, 1)
  | ',' :: _ => some (.comma, 1)
  | ';' :: _ => some (.semicolon, 1)
  | '+' :: _ => some (.plus, 1)
  | '-' :: _ => some (.minus, 1)
  | '*' :: _ => some (.times, 1)
  | '/' :: _ => some (.divide, 1)
  | _ => none

/-- A point belongs to the number before it only if a digit follows. -/
def fractionLength : List Char → Nat
  | '.' :: d :: rest => if Text.isDigit d then 2 + (rest.takeWhile Text.isDigit).length else 0
  | _ => 0

def numberLength (text : List Char) : Nat :=
  (text.takeWhile Text.isDigit).length + fractionLength (text.dropWhile Text.isDigit)

def wordLength (text : List Char) : Nat :=
  (text.takeWhile Text.isWordPart).length

def quotedLength? (text : List Char) : Option Nat :=
  let content := (text.drop 1).takeWhile (· != '"')
  if content.length + 1 < text.length then some (content.length + 2) else none

inductive Front
  | nothing
  | token (kind : Kind) (length : Nat)
  | unexpected (character : Char)
  | unterminated
  deriving DecidableEq

def longFront (c : Char) (rest : List Char) : Front :=
  if c == '"' then
    match quotedLength? (c :: rest) with
    | some length => .token .text length
    | none => .unterminated
  else if Text.isDigit c then .token .number (numberLength (c :: rest))
  else if Text.isLetter c then
    .token (.ofWord (String.ofList ((c :: rest).take (wordLength (c :: rest))))) (wordLength (c :: rest))
  else .unexpected c

def front : List Char → Front
  | [] => .nothing
  | c :: rest =>
    match symbol? (c :: rest) with
    | some (kind, length) => .token kind length
    | none => longFront c rest

theorem symbol?_pos {text : List Char} {kind : Kind} {n : Nat} (h : symbol? text = some (kind, n)) :
    0 < n := by
  revert h
  fun_cases symbol? text <;> simp <;> omega

theorem takeWhile_length_pos {p : Char → Bool} {c : Char} (rest : List Char) (h : p c = true) :
    0 < ((c :: rest).takeWhile p).length := by
  simp [h]

theorem quotedLength?_pos {text : List Char} {n : Nat} (h : quotedLength? text = some n) : 0 < n := by
  revert h
  fun_cases quotedLength? text with
  | case1 => simp; omega
  | case2 => simp

theorem longFront_token_pos {c : Char} {rest : List Char} {kind : Kind} {n : Nat}
    (h : longFront c rest = .token kind n) : 0 < n := by
  revert h
  fun_cases longFront c rest with
  | case1 _ length found => simp; intro _ eq; exact eq ▸ quotedLength?_pos found
  | case2 => simp
  | case3 _ digit =>
    simp only [Front.token.injEq, and_imp]
    intro _ eq
    exact eq ▸ Nat.lt_of_lt_of_le (takeWhile_length_pos rest digit) (Nat.le_add_right _ _)
  | case4 _ _ letter =>
    simp only [Front.token.injEq, and_imp]
    intro _ eq
    exact eq ▸ takeWhile_length_pos rest (by simp [Text.isWordPart, letter])
  | case5 => simp

theorem front_token_pos {text : List Char} {kind : Kind} {n : Nat} (h : front text = .token kind n) :
    0 < n := by
  revert h
  fun_cases front text with
  | case1 => simp
  | case2 c rest _ _ found => simp; intro _ eq; exact eq ▸ symbol?_pos found
  | case3 => exact longFront_token_pos

def numberValue (lexeme : List Char) : Float :=
  Decimal.ofParts (lexeme.takeWhile Text.isDigit) ((lexeme.dropWhile Text.isDigit).drop 1)

def payload? (kind : Kind) (lexeme : List Char) : Option Payload :=
  match kind with
  | .number => some (.number (numberValue lexeme))
  | .text => some (.text (String.ofList ((lexeme.drop 1).dropLast)))
  | _ => none

end Token

structure Source where
  position : Position
  rest : List Char
  deriving DecidableEq

namespace Source

open Token

def ofString (text : String) : Source :=
  ⟨.start, text.toList⟩

def advance (s : Source) (n : Nat) : Source :=
  ⟨s.position.advanceAll (s.rest.take n), s.rest.drop n⟩

theorem advance_append (p : Position) (text more : List Char) :
    advance ⟨p, text ++ more⟩ text.length = ⟨p.advanceAll text, more⟩ := by
  rw [advance, List.take_left, List.drop_left]

def skipGap (s : Source) : Source :=
  s.advance (gapLength false s.rest)

def tokenOf (s : Source) (kind : Kind) (length : Nat) : Token :=
  ⟨kind, String.ofList (s.rest.take length), payload? kind (s.rest.take length), s.position⟩

def readFront (s : Source) : Item × Source :=
  match front s.rest with
  | .nothing => (.token (s.tokenOf .endMark 0), s)
  | .token kind length => (.token (s.tokenOf kind length), s.advance length)
  | .unexpected c => (.fault (.unexpected c s.position), s.advance 1)
  | .unterminated => (.fault (.unterminated s.position), s.advance s.rest.length)

/-- One step of scanning. At the end of the text it finds the end mark, over and over. -/
def next (s : Source) : Item × Source :=
  s.skipGap.readFront

theorem length_advance_lt {s : Source} {n : Nat} (hn : 0 < n) (hs : s.rest ≠ []) :
    (s.advance n).rest.length < s.rest.length := by
  have : 0 < s.rest.length := List.length_pos_iff.2 hs
  simp only [advance, List.length_drop]
  omega

theorem length_skipGap_le (s : Source) : s.skipGap.rest.length ≤ s.rest.length := by
  simp only [skipGap, advance, List.length_drop]
  omega

theorem length_readFront_lt {s : Source} (h : s.readFront.1.isEnd = false) :
    s.readFront.2.rest.length < s.rest.length := by
  have nonempty : s.rest ≠ [] := by
    intro empty
    simp [readFront, empty, front, Item.isEnd, tokenOf] at h
  unfold readFront
  cases shape : front s.rest with
  | nothing => simp [readFront, shape, Item.isEnd, tokenOf] at h
  | token kind length => exact length_advance_lt (front_token_pos shape) nonempty
  | unexpected c => exact length_advance_lt Nat.one_pos nonempty
  | unterminated => exact length_advance_lt (List.length_pos_iff.2 nonempty) nonempty

theorem length_next_lt {s : Source} (h : s.next.1.isEnd = false) :
    s.next.2.rest.length < s.rest.length :=
  Nat.lt_of_lt_of_le (length_readFront_lt h) s.length_skipGap_le

def take : Nat → Source → List Item
  | 0, _ => []
  | n + 1, s =>
    let (item, rest) := s.next
    item :: take n rest

def items (s : Source) : List Item :=
  let step := s.next
  if _ : step.1.isEnd = false then step.1 :: step.2.items else [step.1]
termination_by s.rest.length
decreasing_by exact length_next_lt ‹_›

end Source
end Scriptlet
