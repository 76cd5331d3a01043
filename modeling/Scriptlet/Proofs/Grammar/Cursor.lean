import Scriptlet.Grammar.Reader

namespace Scriptlet.Grammar

structure Cursor where
  previous : Token
  rest : List Token
  endMark : Token
  depth : Nat
  recovering : Bool
  nextId : UseId
  history : List Episode

namespace Cursor

/-- Reading stops at the first end mark, whatever follows it. -/
def ofTokens (tokens : List Token) (nextId : UseId) : Cursor :=
  let endMark := (tokens.find? isEnd).getD (impliedEnd tokens)
  { previous := tokens.head?.getD endMark
    rest := tokens.takeWhile fun t => !isEnd t
    endMark, nextId
    depth := 0
    recovering := false
    history := [] }

def current (c : Cursor) : Token :=
  c.rest.headD c.endMark

def sees (c : Cursor) (kind : Token.Kind) : Bool :=
  match c.rest with
  | [] => false
  | t :: _ => t.kind == kind

def atEnd (c : Cursor) : Bool :=
  c.rest.isEmpty

def advance (c : Cursor) : Cursor :=
  match c.rest with
  | [] => c
  | t :: rest => { c with previous := t, rest }

def report (c : Cursor) (token : Token) (fault : Fault) : Cursor :=
  { c with
    recovering := c.recovering || fault.needsRecovery
    history := .fault ⟨token, fault⟩ c.recovering :: c.history }

def expect (c : Cursor) (slot : Slot) : Cursor :=
  if c.sees slot.kind then c.advance else c.report c.current (.missing slot)

def skip (depth : Nat) (previous : Token) : List Token → Token × List Token
  | [] => (previous, [])
  | t :: rest =>
    if previous.kind == .semicolon || (0 < depth && t.kind == .rightBrace) || opensStatement t.kind then
      (previous, t :: rest)
    else skip depth t rest

def recover (c : Cursor) : Cursor :=
  let (previous, rest) := skip c.depth c.previous c.rest
  { c with previous, rest, recovering := false }

def conclude (c : Cursor) (before : List Episode) : Cursor :=
  { (if c.recovering then c.recover else c) with
    history := .declaration c.history.reverse (!c.recovering) :: before }

end Cursor

instance : Place Cursor where
  current := Cursor.current
  previous := Cursor.previous
  sees := Cursor.sees
  atEnd := Cursor.atEnd
  recovering := Cursor.recovering
  nextId := Cursor.nextId
  history := Cursor.history
  advance := Cursor.advance
  report := Cursor.report
  enter c := { c with depth := c.depth + 1 }
  leave c := { c with depth := c.depth - 1 }
  takeId c := { c with nextId := c.nextId + 1 }
  begin c := { c with history := [] }
  conclude := Cursor.conclude

namespace Cursor

theorem sees_iff {c : Cursor} {kind : Token.Kind} :
    c.sees kind = true ↔ ∃ t rest, c.rest = t :: rest ∧ t.kind = kind := by
  unfold sees
  cases c.rest with
  | nil => simp
  | cons t rest => simp

theorem sees_cons {c : Cursor} {t : Token} {rest : List Token} (h : c.rest = t :: rest) (kind : Token.Kind) :
    c.sees kind = (t.kind == kind) := by
  simp [sees, h]

theorem sees_nil {c : Cursor} (h : c.rest = []) (kind : Token.Kind) : c.sees kind = false := by
  simp [sees, h]

theorem current_cons {c : Cursor} {t : Token} {rest : List Token} (h : c.rest = t :: rest) : c.current = t := by
  simp [current, h]

theorem current_nil {c : Cursor} (h : c.rest = []) : c.current = c.endMark := by
  simp [current, h]

@[simp] theorem atEnd_iff (c : Cursor) : c.atEnd = true ↔ c.rest = [] := by
  simp [atEnd]

theorem advance_cons {c : Cursor} {t : Token} {rest : List Token} (h : c.rest = t :: rest) :
    c.advance = { c with previous := t, rest } := by
  simp [advance, h]

@[simp] theorem rest_advance (c : Cursor) : c.advance.rest = c.rest.tail := by
  unfold advance
  split <;> simp_all

@[simp] theorem endMark_advance (c : Cursor) : c.advance.endMark = c.endMark := by
  unfold advance
  split <;> rfl

@[simp] theorem depth_advance (c : Cursor) : c.advance.depth = c.depth := by
  unfold advance
  split <;> rfl

@[simp] theorem recovering_advance (c : Cursor) : c.advance.recovering = c.recovering := by
  unfold advance
  split <;> rfl

@[simp] theorem nextId_advance (c : Cursor) : c.advance.nextId = c.nextId := by
  unfold advance
  split <;> rfl

@[simp] theorem history_advance (c : Cursor) : c.advance.history = c.history := by
  unfold advance
  split <;> rfl

@[simp] theorem rest_report (c : Cursor) (t : Token) (fault : Fault) : (c.report t fault).rest = c.rest := rfl

@[simp] theorem endMark_report (c : Cursor) (t : Token) (fault : Fault) :
    (c.report t fault).endMark = c.endMark := rfl

@[simp] theorem depth_report (c : Cursor) (t : Token) (fault : Fault) : (c.report t fault).depth = c.depth := rfl

@[simp] theorem nextId_report (c : Cursor) (t : Token) (fault : Fault) : (c.report t fault).nextId = c.nextId := rfl

@[simp] theorem recovering_report (c : Cursor) (t : Token) (fault : Fault) :
    (c.report t fault).recovering = (c.recovering || fault.needsRecovery) := rfl

@[simp] theorem history_report (c : Cursor) (t : Token) (fault : Fault) :
    (c.report t fault).history = .fault ⟨t, fault⟩ c.recovering :: c.history := rfl

theorem expect_of_sees {c : Cursor} {slot : Slot} (h : c.sees slot.kind = true) :
    c.expect slot = c.advance := by
  simp [expect, h]

theorem expect_of_not_sees {c : Cursor} {slot : Slot} (h : c.sees slot.kind = false) :
    c.expect slot = c.report c.current (.missing slot) := by
  simp [expect, h]

@[simp] theorem endMark_expect (c : Cursor) (slot : Slot) : (c.expect slot).endMark = c.endMark := by
  unfold expect
  split <;> simp

@[simp] theorem depth_expect (c : Cursor) (slot : Slot) : (c.expect slot).depth = c.depth := by
  unfold expect
  split <;> simp

@[simp] theorem nextId_expect (c : Cursor) (slot : Slot) : (c.expect slot).nextId = c.nextId := by
  unfold expect
  split <;> simp

theorem skip_suffix (depth : Nat) (previous : Token) (rest : List Token) :
    (skip depth previous rest).2 <:+ rest := by
  induction rest generalizing previous with
  | nil => exact List.suffix_rfl
  | cons t rest ih =>
    unfold skip
    split
    · exact List.suffix_rfl
    · exact (ih t).trans (List.suffix_cons t rest)

theorem rest_recover_suffix (c : Cursor) : c.recover.rest <:+ c.rest :=
  skip_suffix c.depth c.previous c.rest

theorem rest_advance_suffix (c : Cursor) : c.advance.rest <:+ c.rest := by
  rw [rest_advance]
  exact List.tail_suffix c.rest

theorem rest_expect_suffix (c : Cursor) (slot : Slot) : (c.expect slot).rest <:+ c.rest := by
  unfold expect
  split
  · exact c.rest_advance_suffix
  · exact List.suffix_rfl

theorem rest_conclude_suffix (c : Cursor) (before : List Episode) : (c.conclude before).rest <:+ c.rest := by
  unfold conclude
  split
  · exact c.rest_recover_suffix
  · exact List.suffix_rfl

@[simp] theorem recovering_conclude (c : Cursor) (before : List Episode) :
    (c.conclude before).recovering = false := by
  unfold conclude
  split
  · rfl
  · simp_all

theorem endMark_conclude (c : Cursor) (before : List Episode) : (c.conclude before).endMark = c.endMark := by
  unfold conclude
  split <;> rfl

theorem depth_conclude (c : Cursor) (before : List Episode) : (c.conclude before).depth = c.depth := by
  unfold conclude
  split <;> rfl

@[simp] theorem history_conclude (c : Cursor) (before : List Episode) :
    (c.conclude before).history = .declaration c.history.reverse (!c.recovering) :: before := rfl

theorem conclude_of_recovering {c : Cursor} (h : c.recovering = true) (before : List Episode) :
    c.conclude before = { c.recover with history := .declaration c.history.reverse false :: before } := by
  simp [conclude, h]

theorem conclude_of_not_recovering {c : Cursor} (h : c.recovering = false) (before : List Episode) :
    c.conclude before = { c with history := .declaration c.history.reverse true :: before } := by
  simp [conclude, h]

end Cursor
end Scriptlet.Grammar
