import Scriptlet.Tree
import Scriptlet.Grammar.Episode

namespace Scriptlet.Grammar

def isEnd (t : Token) : Bool :=
  t.kind == .endMark

/-- The end mark of a list that has none stands right behind the last token, on the first line. -/
def impliedEnd (tokens : List Token) : Token :=
  let offset := match tokens.getLast? with
    | some last => last.position.offset + last.lexeme.utf8ByteSize
    | none => 0
  ⟨.endMark, "", none, ⟨offset, 1, 1⟩⟩

def ended (tokens : List Token) : List Token :=
  if tokens.getLast?.any isEnd then tokens else tokens ++ [impliedEnd tokens]

structure Tokens where
  vector : Array Token
  closed : vector.back?.any isEnd = true

def Tokens.ofList (tokens : List Token) : Tokens where
  vector := (ended tokens).toArray
  closed := by
    rw [List.back?_toArray, ended]
    split
    · assumption
    · rw [List.getLast?_concat]
      rfl

theorem Tokens.size_pos (tokens : Tokens) : 0 < tokens.vector.size := by
  rw [Array.size_pos_iff]
  intro empty
  have closed := tokens.closed
  rw [empty] at closed
  cases closed

def opensStatement : Token.Kind → Bool
  | .funWord | .varWord | .forWord | .ifWord | .whileWord | .printWord | .returnWord => true
  | _ => false

/-- A place in a vector of tokens, by the index of the token to be read next, and what reading remembers on its way. No end
mark has been read. -/
structure Tape (tokens : Tokens) where
  index : Nat
  depth : Nat
  recovering : Bool
  nextId : UseId
  history : List Episode
  inside : index < tokens.vector.size
  passed : ∀ j < index, tokens.vector[j]?.any isEnd = false

namespace Tape

variable {tokens : Tokens}

def start (tokens : Tokens) (nextId : UseId) : Tape tokens where
  index := 0
  depth := 0
  recovering := false
  nextId := nextId
  history := []
  inside := tokens.size_pos
  passed := fun j h => absurd h (Nat.not_lt_zero j)

def current (t : Tape tokens) : Token :=
  have := t.inside
  tokens.vector[t.index]

def previous (t : Tape tokens) : Token :=
  have := t.inside
  tokens.vector[t.index - 1]

def sees (t : Tape tokens) (kind : Token.Kind) : Bool :=
  t.current.kind == kind

def atEnd (t : Tape tokens) : Bool :=
  isEnd t.current

theorem getElem?_index (t : Tape tokens) : tokens.vector[t.index]? = some t.current :=
  Array.getElem?_eq_getElem t.inside

theorem inside_advance {t : Tape tokens} (more : t.atEnd = false) : t.index + 1 < tokens.vector.size := by
  refine Nat.lt_of_le_of_ne t.inside fun last => ?_
  have closed := tokens.closed
  rw [Array.back?_eq_getElem?, ← last, Nat.add_sub_cancel, t.getElem?_index] at closed
  cases more.symm.trans closed

theorem passed_advance {t : Tape tokens} (more : t.atEnd = false) (j : Nat) (h : j < t.index + 1) :
    tokens.vector[j]?.any isEnd = false := by
  obtain before | rfl := Nat.lt_succ_iff_lt_or_eq.1 h
  · exact t.passed j before
  · rw [t.getElem?_index]
    exact more

def advance (t : Tape tokens) : Tape tokens :=
  if more : t.atEnd = false then
    { t with
      index := t.index + 1
      inside := inside_advance more
      passed := passed_advance more }
  else t

def report (t : Tape tokens) (token : Token) (fault : Fault) : Tape tokens :=
  { t with
    recovering := t.recovering || fault.needsRecovery
    history := .fault ⟨token, fault⟩ t.recovering :: t.history }

theorem index_advance {t : Tape tokens} (more : t.atEnd = false) : t.advance.index = t.index + 1 := by
  rw [advance, dif_pos more]

/-- Passes over tokens up to a place where a statement may start: behind a semicolon, before a word that opens
one, and inside a block before the brace that closes it. -/
def skip (t : Tape tokens) : Tape tokens :=
  if _ : t.atEnd = false then
    if 0 < t.index && t.previous.kind == .semicolon then t
    else if 0 < t.depth && t.sees .rightBrace then t
    else if opensStatement t.current.kind then t
    else t.advance.skip
  else t
termination_by tokens.vector.size - t.index
decreasing_by
  have := t.inside
  rw [index_advance ‹_›]
  omega

/-- Ends a declaration that was begun after `before`. One that ends while the reader is recovering is dropped,
and the tape is moved to the next statement. -/
def conclude (t : Tape tokens) (before : List Episode) : Tape tokens :=
  { (if t.recovering then { t.skip with recovering := false } else t) with
    history := .declaration t.history.reverse (!t.recovering) :: before }

end Tape
end Scriptlet.Grammar
