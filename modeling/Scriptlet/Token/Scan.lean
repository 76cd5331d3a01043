import Scriptlet.Text.Character
import Scriptlet.Decimal.Numeral
import Scriptlet.Token

namespace Scriptlet

/-- The part of a text between two of its bytes; none if they are out of range or inside a character. -/
def Text.slice? (text : String) (first last : Nat) : Option String :=
  if inside : first ≤ last ∧ String.Pos.Raw.IsValid text ⟨first⟩ ∧ String.Pos.Raw.IsValid text ⟨last⟩ then
    some (text.extract ⟨⟨first⟩, inside.2.1⟩ ⟨⟨last⟩, inside.2.2⟩)
  else none

namespace Token

inductive Fault
  | unexpected (character : Char) (position : Position)
  | unterminated (position : Position)
  | unreadable (lexeme : String) (position : Position)
  deriving DecidableEq

def Fault.position : Fault → Position
  | .unexpected _ p => p
  | .unterminated p => p
  | .unreadable _ p => p

def Fault.message : Fault → String
  | .unexpected c p => s!"{p.describe} Unexpected character '{c}' at offset {p.offset}"
  | .unterminated p => s!"{p.describe} Unterminated string starting at offset {p.offset}"
  | .unreadable lexeme p => s!"{p.describe} Invalid number literal '{lexeme}'"

def Fault.complaint (f : Fault) : String :=
  "Error: " ++ f.message

inductive Item
  | token (token : Token)
  | fault (fault : Fault)
  deriving DecidableEq

def Item.isEnd : Item → Bool
  | .token t => t.kind == .endMark
  | .fault _ => false

def Item.token? : Item → Option Token
  | .token t => some t
  | .fault _ => none

def Item.fault? : Item → Option Fault
  | .token _ => none
  | .fault f => some f

def single? : Char → Option Kind
  | '(' => some .leftParen
  | ')' => some .rightParen
  | '{' => some .leftBrace
  | '}' => some .rightBrace
  | '[' => some .leftSquare
  | ']' => some .rightSquare
  | '.' => some .dot
  | ',' => some .comma
  | ';' => some .semicolon
  | '+' => some .plus
  | '-' => some .minus
  | '*' => some .times
  | _ => none

def double? : Char → Option (Kind × Kind)
  | '=' => some (.equal, .assign)
  | '!' => some (.notEqual, .not)
  | '>' => some (.greaterEqual, .greater)
  | '<' => some (.lessEqual, .less)
  | _ => none

end Token

open Token

/-- A text that is consumed one character at a time. Up to two characters wait between the iterator and the lexeme that is
being scanned, which reaches from `start` to `current`. -/
structure Lexer where
  input : String
  chars : List Char
  first : Option Char
  second : Option Char
  start : Position
  current : Position
  ordered : first = none → second = none

namespace Lexer

def ofString (text : String) : Lexer :=
  ⟨text, text.toList, none, none, .start, .start, fun _ => rfl⟩

def left (l : Lexer) : List Char :=
  l.first.toList ++ (l.second.toList ++ l.chars)

def peek (l : Lexer) : Lexer :=
  match h : l.first with
  | some _ => l
  | none => { l with first := l.chars.head?, chars := l.chars.tail, ordered := fun _ => l.ordered h }

def peekBehind (l : Lexer) : Lexer :=
  match h : l.first, l.second with
  | some _, none =>
    { l with second := l.chars.head?, chars := l.chars.tail, ordered := fun none => by rw [h] at none; cases none }
  | _, _ => l

def consume (l : Lexer) : Option Char × Lexer :=
  match l.first with
  | some c =>
    (some c, { l with first := l.second, second := none, current := l.current.advance c, ordered := fun _ => rfl })
  | none =>
    match l.chars with
    | [] => (none, l)
    | c :: chars => (some c, { l with chars, current := l.current.advance c })

structure Took (l : Lexer) (taken : List Char) (m : Lexer) : Prop where
  input : m.input = l.input
  start : m.start = l.start
  current : m.current = l.current.advanceAll taken
  left : l.left = taken ++ m.left

section Took

variable {l m n : Lexer} {taken more : List Char} {c : Char}

theorem Took.refl (l : Lexer) : Took l [] l :=
  ⟨rfl, rfl, rfl, rfl⟩

theorem Took.trans (first : Took l taken m) (second : Took m more n) : Took l (taken ++ more) n where
  input := second.input.trans first.input
  start := second.start.trans first.start
  current := by rw [second.current, first.current, Position.advanceAll_append]
  left := by rw [first.left, second.left, List.append_assoc]

theorem Took.length_le (h : Took l taken m) : m.left.length ≤ l.left.length := by
  rw [h.left, List.length_append]
  exact Nat.le_add_left _ _

theorem took_peek (l : Lexer) : Took l [] l.peek := by
  unfold peek
  split
  · exact .refl l
  · next none =>
    refine ⟨rfl, rfl, rfl, ?_⟩
    simp only [left, none, l.ordered none]
    cases l.chars <;> rfl

theorem first_peek (l : Lexer) : l.peek.first = l.left.head? := by
  unfold peek
  split
  · next some => simp [left, some]
  · next none =>
    simp only [left, none, l.ordered none]
    rfl

theorem took_peekBehind (l : Lexer) : Took l [] l.peekBehind := by
  unfold peekBehind
  split
  · next none =>
    refine ⟨rfl, rfl, rfl, ?_⟩
    simp only [left, none]
    cases l.chars <;> rfl
  · exact .refl l

theorem second_peekBehind (waits : l.first = some c) : l.peekBehind.second = l.left.tail.head? := by
  simp only [left, waits]
  unfold peekBehind
  split
  · next none => simp [none]
  · next other =>
    cases second : l.second with
    | none => exact absurd second (other c waits)
    | some d => rfl

theorem took_consume (h : l.consume = (some c, m)) : Took l [c] m := by
  unfold consume at h
  split at h
  · next some =>
    cases h
    exact ⟨rfl, rfl, rfl, by simp [left, some]⟩
  · next none =>
    split at h
    · cases h
    · next more =>
      cases h
      exact ⟨rfl, rfl, rfl, by simp [left, none, more, l.ordered none]⟩

theorem consume_of_left (h : l.left = c :: more) : ∃ m, l.consume = (some c, m) ∧ Took l [c] m := by
  cases consumed : l.consume with
  | mk c? m =>
    cases c? with
    | some d =>
      have took := took_consume consumed
      obtain rfl : c = d := (List.cons.inj (h.symm.trans took.left)).1
      exact ⟨m, rfl, took⟩
    | none =>
      unfold consume at consumed
      split at consumed
      · cases consumed
      · next none =>
        split at consumed
        · next empty => simp [left, none, l.ordered none, empty] at h
        · cases consumed

theorem consume_of_left_nil (h : l.left = []) : l.consume = (none, l) := by
  have first : l.first = none := by simpa [left] using (List.append_eq_nil_iff.1 h).1
  have chars : l.chars = [] := (List.append_eq_nil_iff.1 (List.append_eq_nil_iff.1 h).2).2
  unfold consume
  split
  · next some => cases first.symm.trans some
  · rw [chars]

theorem consume_peek (waits : l.peek.first = some c) : ∃ m, l.peek.consume = (some c, m) ∧ Took l [c] m := by
  rw [first_peek] at waits
  obtain ⟨more, left⟩ := List.head?_eq_some_iff.1 waits
  obtain ⟨m, consumed, took⟩ := consume_of_left ((took_peek l).left.symm.trans left)
  exact ⟨m, consumed, (took_peek l).trans took⟩

end Took

def peekNext (l : Lexer) : Lexer :=
  l.peek.peekBehind

def expect (l : Lexer) (c : Char) : Bool × Lexer :=
  if l.peek.first = some c then (true, l.peek.consume.2) else (false, l.peek)

def consumeWhile (p : Char → Bool) (l : Lexer) : Lexer :=
  match _h : l.peek.first with
  | some c => if p c then l.peek.consume.2.consumeWhile p else l.peek
  | none => l.peek
termination_by l.left.length
decreasing_by
  obtain ⟨m, consumed, took⟩ := consume_peek ‹_›
  rw [consumed, took.left]
  exact Nat.lt_succ_self _

theorem took_expect (l : Lexer) (c : Char) : Took l (if l.left.head? = some c then [c] else []) (l.expect c).2 := by
  unfold expect
  rw [first_peek]
  split
  · next waits =>
    obtain ⟨m, consumed, took⟩ := consume_peek ((first_peek l).trans waits)
    rw [consumed]
    exact took
  · exact took_peek l

theorem took_consumeWhile (p : Char → Bool) (l : Lexer) : Took l (l.left.takeWhile p) (l.consumeWhile p) := by
  fun_induction consumeWhile p l with
  | case1 l c waits found ih =>
    obtain ⟨m, consumed, took⟩ := consume_peek waits
    rw [consumed] at ih ⊢
    rw [took.left, List.cons_append, List.takeWhile_cons_of_pos found]
    exact took.trans ih
  | case2 l c waits stops =>
    obtain ⟨more, left⟩ := List.head?_eq_some_iff.1 ((first_peek l).symm.trans waits)
    rw [left, List.takeWhile_cons_of_neg stops]
    exact took_peek l
  | case3 l none =>
    rw [List.head?_eq_none_iff.1 ((first_peek l).symm.trans none)]
    exact took_peek l

def atEnd (l : Lexer) : Bool :=
  l.input.utf8ByteSize ≤ l.current.offset

def skipBlanks (l : Lexer) : Lexer :=
  l.consumeWhile Text.isBlank

def begin (l : Lexer) : Lexer :=
  { l with start := l.current }

def token? (l : Lexer) (kind : Kind) : Option Token :=
  (Text.slice? l.input l.start.offset l.current.offset).map fun lexeme => ⟨kind, lexeme, none, l.start⟩

def emit (l : Lexer) (kind : Kind) : Option (Item × Lexer) :=
  (l.token? kind).map fun token => (.token token, l)

def scanText (l : Lexer) : Option (Item × Lexer) :=
  let l := l.consumeWhile (· != '"')
  if l.atEnd then some (.fault (.unterminated l.start), l)
  else do
    let l := l.consume.2
    -- the lexeme keeps its quotes, the payload does not
    let content ← Text.slice? l.input (l.start.offset + 1) (l.current.offset - 1)
    let token ← l.token? .text
    return (.token { token with payload := some (.text content) }, l)

def consumeNumber (l : Lexer) : Lexer :=
  let l := (l.consumeWhile Text.isDigit).peek
  if l.first = some '.' then
    let l := l.peekNext
    if l.second.any Text.isDigit then l.consume.2.consumeWhile Text.isDigit else l
  else l

def scanNumber (l : Lexer) : Option (Item × Lexer) := do
  let l := l.consumeNumber
  let token ← l.token? .number
  match Decimal.read? token.lexeme with
  | some value => return (.token { token with payload := some (.number value) }, l)
  | none => return (.fault (.unreadable token.lexeme l.start), l)

def scanWord (l : Lexer) : Option (Item × Lexer) := do
  let l := l.consumeWhile Text.isWordPart
  let word ← Text.slice? l.input l.start.offset l.current.offset
  l.emit (.ofWord word)

def scanFrom (c : Char) (l : Lexer) : Option (Item × Lexer) :=
  match single? c with
  | some kind => l.emit kind
  | none =>
    match double? c with
    | some (followed, alone) => (l.expect '=').2.emit (if (l.expect '=').1 then followed else alone)
    | none =>
      if c == '"' then l.scanText
      else if Text.isDigit c then l.scanNumber
      else if Text.isLetter c then l.scanWord
      else some (.fault (.unexpected c l.start), l)

theorem length_begin_lt {l rest : Lexer} {c : Char} (h : l.skipBlanks.begin.consume = (some c, rest)) :
    rest.left.length < l.left.length := by
  have skipped : l.skipBlanks.left.length ≤ l.left.length := (took_consumeWhile Text.isBlank l).length_le
  have begun : l.skipBlanks.left = c :: rest.left := (took_consume h).left
  rw [begun] at skipped
  exact skipped

def skipLine (l : Lexer) : Lexer :=
  l.consumeWhile (· != '\n')

theorem length_skipLine_le (l : Lexer) : (l.expect '/').2.skipLine.left.length ≤ l.left.length :=
  ((took_expect l '/').trans (took_consumeWhile (· != '\n') _)).length_le

/-- A comment is passed over, and scanning goes on behind it. -/
def scanToken (l : Lexer) : Option (Item × Lexer) :=
  match _h : l.skipBlanks.begin.consume with
  | (none, l) => l.emit .endMark
  | (some c, l) =>
    if c == '/' then
      if (l.expect '/').1 then (l.expect '/').2.skipLine.scanToken else (l.expect '/').2.emit .divide
    else l.scanFrom c
termination_by l.left.length
decreasing_by exact Nat.lt_of_le_of_lt (length_skipLine_le _) (length_begin_lt ‹_›)

section Progress

variable {l rest : Lexer} {item : Item}

theorem eq_of_emit {kind : Kind} (h : l.emit kind = some (item, rest)) : rest = l := by
  obtain ⟨token, -, same⟩ := Option.map_eq_some_iff.1 h
  cases same
  rfl

theorem length_consume_le (l : Lexer) : l.consume.2.left.length ≤ l.left.length := by
  cases left : l.left with
  | nil => exact Nat.le_of_eq (by rw [consume_of_left_nil left, left])
  | cons c more =>
    obtain ⟨m, consumed, took⟩ := consume_of_left left
    rw [consumed, ← left]
    exact took.length_le

theorem length_scanText_le (h : l.scanText = some (item, rest)) : rest.left.length ≤ l.left.length := by
  have content := (took_consumeWhile (· != '"') l).length_le
  simp only [scanText] at h
  split at h
  · cases h
    exact content
  · simp only [Option.bind_eq_bind, Option.bind_eq_some_iff, Option.pure_def, Option.some.injEq, Prod.mk.injEq] at h
    obtain ⟨_, -, _, -, -, rfl⟩ := h
    exact Nat.le_trans (length_consume_le _) content

theorem took_peekNext (l : Lexer) : Took l [] l.peekNext :=
  (took_peek l).trans (took_peekBehind l.peek)

theorem length_consumeNumber_le (l : Lexer) : l.consumeNumber.left.length ≤ l.left.length := by
  have digits := ((took_consumeWhile Text.isDigit l).trans (took_peek _)).length_le
  simp only [consumeNumber]
  split
  · have point := Nat.le_trans (took_peekNext _).length_le digits
    split
    · exact Nat.le_trans (took_consumeWhile _ _).length_le (Nat.le_trans (length_consume_le _) point)
    · exact point
  · exact digits

theorem length_scanFrom_le {c : Char} (h : l.scanFrom c = some (item, rest)) : rest.left.length ≤ l.left.length := by
  unfold scanFrom at h
  split at h
  · exact eq_of_emit h ▸ Nat.le_refl _
  split at h
  · exact eq_of_emit h ▸ (took_expect l '=').length_le
  split at h
  · exact length_scanText_le h
  split at h
  · simp only [scanNumber, Option.bind_eq_bind, Option.bind_eq_some_iff] at h
    obtain ⟨token, -, read⟩ := h
    split at read <;>
    · cases read
      exact length_consumeNumber_le l
  split at h
  · simp only [scanWord, Option.bind_eq_bind, Option.bind_eq_some_iff] at h
    obtain ⟨word, -, emitted⟩ := h
    exact eq_of_emit emitted ▸ (took_consumeWhile Text.isWordPart l).length_le
  · cases h
    exact Nat.le_refl _

theorem length_scanToken_lt (h : l.scanToken = some (item, rest)) (goes : item.isEnd = false) :
    rest.left.length < l.left.length := by
  fun_induction scanToken l with
  | case1 l ended consumed =>
    obtain ⟨token, scanned, same⟩ := Option.map_eq_some_iff.1 h
    cases same
    obtain ⟨_, -, rfl⟩ := Option.map_eq_some_iff.1 scanned
    cases goes
  | case2 l c behind consumed slash comment ih =>
    exact Nat.lt_trans (ih h) (Nat.lt_of_le_of_lt (length_skipLine_le behind) (length_begin_lt consumed))
  | case3 l c behind consumed slash alone =>
    exact eq_of_emit h ▸ Nat.lt_of_le_of_lt (took_expect behind '/').length_le (length_begin_lt consumed)
  | case4 l c behind consumed other => exact Nat.lt_of_le_of_lt (length_scanFrom_le h) (length_begin_lt consumed)

end Progress

def scanAll (l : Lexer) : Option (List Item) :=
  match _h : l.scanToken with
  | none => none
  | some (item, rest) => if _ : item.isEnd = false then rest.scanAll.map (item :: ·) else some [item]
termination_by l.left.length
decreasing_by exact length_scanToken_lt ‹_› ‹_›

def take : Nat → Lexer → Option (List Item)
  | 0, _ => some []
  | n + 1, l => do
    let (item, rest) ← l.scanToken
    return item :: (← take n rest)

end Lexer

structure Scan where
  tokens : List Token
  faults : List Token.Fault

def Scan.ofItems (items : List Item) : Scan :=
  ⟨items.filterMap Item.token?, items.filterMap Item.fault?⟩

def scan? (text : String) : Option Scan :=
  (Lexer.ofString text).scanAll.map .ofItems

def scan (text : String) : Scan :=
  (scan? text).getD ⟨[], []⟩

end Scriptlet
