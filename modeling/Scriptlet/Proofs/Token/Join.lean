import Mathlib.Data.List.TakeWhile
import Scriptlet.Proofs.Token.Source

namespace Scriptlet

/-- A position in a text that stands behind another one, which ends with a line. -/
def Position.behind (text : String) (p : Position) : Position :=
  ⟨p.offset + text.utf8ByteSize, p.line + .ofNat (text.toList.count '\n'), p.column⟩

namespace Token

def move (f : Position → Position) (t : Token) : Token :=
  { t with position := f t.position }

def Fault.move (f : Position → Position) : Fault → Fault
  | .unexpected c p => .unexpected c (f p)
  | .unterminated p => .unterminated (f p)
  | .unreadable lexeme p => .unreadable lexeme (f p)

theorem Fault.move_position (f : Position → Position) (fault : Fault) : (fault.move f).position = f fault.position := by
  cases fault <;> rfl

abbrev behind (text : String) : Token → Token :=
  move (Position.behind text)

abbrev Fault.behind (text : String) : Fault → Fault :=
  move (Position.behind text)

def Item.behind (text : String) : Item → Item
  | .token t => .token (t.behind text)
  | .fault f => .fault (f.behind text)

end Token

namespace Position

theorem advanceAll_ofList (p : Position) (text : List Char) :
    (p.advanceAll text).offset = p.offset + (String.ofList text).utf8ByteSize ∧
      (p.advanceAll text).line = p.line + .ofNat (text.count '\n') := by
  induction text generalizing p with
  | nil => simp
  | cons c rest ih =>
    obtain ⟨offset, line⟩ := ih (p.advance c)
    have bytes : (String.ofList (c :: rest)).utf8ByteSize = c.utf8Size + (String.ofList rest).utf8ByteSize := by
      rw [String.ofList_cons, String.utf8ByteSize_append, String.utf8ByteSize_singleton]
    rw [advanceAll_cons, offset, line, bytes, List.count_cons, advance]
    split
    · next feed =>
      subst feed
      refine ⟨Nat.add_assoc .., ?_⟩
      rw [if_pos (beq_self_eq_true _), Int32.ofNat_add]
      change p.line + 1 + .ofNat (rest.count '\n') = p.line + (.ofNat (rest.count '\n') + 1)
      ac_rfl
    · next other => exact ⟨Nat.add_assoc .., by simp [other]⟩

theorem advanceAll_newline (text : String) :
    start.advanceAll (text ++ "\n").toList = start.behind (text ++ "\n") := by
  obtain ⟨offset, line⟩ := start.advanceAll_ofList (text ++ "\n").toList
  rw [String.ofList_toList] at offset
  have column : (start.advanceAll (text ++ "\n").toList).column = 1 := by
    rw [String.toList_append, advanceAll_append]
    rfl
  generalize start.advanceAll (text ++ "\n").toList = p at offset line column
  cases p
  simp_all [behind, start]

theorem behind_advance (text : String) (p : Position) (c : Char) :
    (p.behind text).advance c = (p.advance c).behind text := by
  unfold advance behind
  split
  · rw [mk.injEq]
    refine ⟨Nat.add_right_comm .., ?_, rfl⟩
    change p.line + .ofNat (text.toList.count '\n') + 1 = p.line + 1 + .ofNat (text.toList.count '\n')
    ac_rfl
  · rw [mk.injEq]
    exact ⟨Nat.add_right_comm .., rfl, rfl⟩

theorem behind_advanceAll (text : String) (p : Position) (cs : List Char) :
    (p.behind text).advanceAll cs = (p.advanceAll cs).behind text := by
  induction cs generalizing p with
  | nil => rfl
  | cons c rest ih => rw [advanceAll_cons, advanceAll_cons, behind_advance, ih]

end Position

namespace Token

section Front

variable {text : List Char} (more : List Char)

theorem takeWhile_newline {p : Char → Bool} (h : p '\n' = false) (text : List Char) :
    (text ++ '\n' :: more).takeWhile p = text.takeWhile p := by
  induction text with
  | nil => simp [h]
  | cons c rest ih => simp only [List.cons_append, List.takeWhile_cons, ih]

theorem dropWhile_newline {p : Char → Bool} (h : p '\n' = false) (text : List Char) :
    (text ++ '\n' :: more).dropWhile p = text.dropWhile p ++ '\n' :: more := by
  induction text with
  | nil => simp [h]
  | cons c rest ih =>
    simp only [List.cons_append, List.dropWhile_cons, ih]
    split <;> rfl

theorem gapLength_le (inComment : Bool) (text : List Char) : gapLength inComment text ≤ text.length := by
  fun_induction gapLength inComment text <;> simp_all <;> omega

theorem head?_newline (rest : List Char) : ((rest ++ '\n' :: more).head? == some '/') = (rest.head? == some '/') := by
  cases rest <;> rfl

theorem gapLength_newline {inComment : Bool} (h : gapLength inComment text < text.length) :
    gapLength inComment (text ++ '\n' :: more) = gapLength inComment text := by
  induction text generalizing inComment with
  | nil => cases h
  | cons c rest ih =>
    simp only [List.cons_append, gapLength, head?_newline] at h ⊢
    split
    · next comment =>
      rw [if_pos comment] at h
      rw [ih (by simpa [Nat.add_comm 1] using h)]
    · next plain =>
      rw [if_neg plain] at h
      split
      · next blank =>
        rw [if_pos blank] at h
        rw [ih (by simpa [Nat.add_comm 1] using h)]
      · next solid =>
        rw [if_neg solid] at h
        split
        · next slashes =>
          rw [if_pos slashes] at h
          rw [ih (by simpa [Nat.add_comm 1] using h)]
        · rfl

theorem gapLength_newline_of_eq {inComment : Bool} (h : gapLength inComment text = text.length) :
    gapLength inComment (text ++ '\n' :: more) = text.length + 1 + gapLength false more := by
  induction text generalizing inComment with
  | nil => cases inComment <;> simp [gapLength]
  | cons c rest ih =>
    simp only [List.cons_append, gapLength, head?_newline, List.length_cons] at h ⊢
    split
    · next comment =>
      rw [if_pos comment] at h
      rw [ih (by omega)]
      omega
    · next plain =>
      rw [if_neg plain] at h
      split
      · next blank =>
        rw [if_pos blank] at h
        rw [ih (by omega)]
        omega
      · next solid =>
        rw [if_neg solid] at h
        split
        · next slashes =>
          rw [if_pos slashes] at h
          rw [ih (by omega)]
          omega
        · next front =>
          rw [if_neg front] at h
          cases h

theorem symbol?_newline (h : text ≠ []) : symbol? (text ++ '\n' :: more) = symbol? text := by
  fun_cases symbol? text
  case case5 tail other | case6 tail other | case7 tail other | case8 tail other =>
    cases tail with
    | nil => rfl
    | cons d tail =>
      have apart : d ≠ '=' := fun same => other tail (same ▸ rfl)
      simp [symbol?, apart]
  case case22 =>
    cases text with
    | nil => exact absurd rfl h
    | cons c rest =>
      have front {x : Char} {tail : List Char} (same : c :: rest ++ '\n' :: more = x :: tail) : c :: rest = x :: rest := by
        rw [(List.cons.inj same).1]
      unfold symbol?
      split
      case h_22 => rfl
      all_goals next same => exact absurd (front same) (by solve_by_elim)
  all_goals rfl

theorem fractionLength_newline (text : List Char) : fractionLength (text ++ '\n' :: more) = fractionLength text := by
  have digit : Text.isDigit '\n' = false := by decide
  fun_cases fractionLength text with
  | case1 d rest isDigit => simp [fractionLength, isDigit, takeWhile_newline more digit]
  | case2 d rest notDigit => simp [fractionLength, notDigit]
  | case3 other =>
    cases text with
    | nil => rfl
    | cons c rest =>
      cases rest with
      | nil =>
        unfold fractionLength
        split
        · next d tail same =>
          obtain ⟨-, rfl, -⟩ := (List.cons.inj same).imp_right List.cons.inj
          rw [digit]
          rfl
        · rfl
      | cons d rest => simp_all [fractionLength]

theorem numberLength_newline (text : List Char) : numberLength (text ++ '\n' :: more) = numberLength text := by
  have digit : Text.isDigit '\n' = false := by decide
  rw [numberLength, takeWhile_newline more digit, dropWhile_newline more digit, fractionLength_newline, numberLength]

theorem wordLength_newline (text : List Char) : wordLength (text ++ '\n' :: more) = wordLength text := by
  rw [wordLength, takeWhile_newline more (by decide), wordLength]

theorem quotedLength?_newline {n : Nat} (h : quotedLength? text = some n) :
    quotedLength? (text ++ '\n' :: more) = some n := by
  cases text with
  | nil => cases h
  | cons c rest =>
    unfold quotedLength? at h ⊢
    simp only [List.drop_succ_cons, List.drop_zero, List.length_cons, List.cons_append] at h ⊢
    have short : (rest.takeWhile (· != '"')).length < rest.length := by
      split at h
      · next short => omega
      · cases h
    have same : (rest ++ '\n' :: more).takeWhile (· != '"') = rest.takeWhile (· != '"') := by
      rw [List.takeWhile_append, if_neg (Nat.ne_of_lt short)]
    rw [same, if_pos (by simp; omega)]
    rw [if_pos (by omega)] at h
    exact h

theorem symbol?_le {kind : Kind} {n : Nat} (h : symbol? text = some (kind, n)) : n ≤ text.length := by
  revert h
  fun_cases symbol? text <;> simp <;> omega

theorem fractionLength_le (text : List Char) : fractionLength text ≤ text.length := by
  fun_cases fractionLength text with
  | case1 d rest =>
    have := (List.takeWhile_prefix (l := rest) Text.isDigit).length_le
    simp only [List.length_cons]
    omega
  | case2 => exact Nat.zero_le _
  | case3 => exact Nat.zero_le _

theorem longFront_le {c : Char} {rest : List Char} {kind : Kind} {n : Nat} (h : longFront c rest = .token kind n) :
    n ≤ (c :: rest).length := by
  revert h
  fun_cases longFront c rest with
  | case1 _ length found =>
    rintro ⟨⟩
    simp only [quotedLength?, Option.ite_none_right_eq_some, Option.some.injEq] at found
    omega
  | case2 =>
    intro h
    cases h
  | case3 =>
    rintro ⟨⟩
    have parts := congrArg List.length (List.takeWhile_append_dropWhile (p := Text.isDigit) (l := c :: rest))
    have := fractionLength_le ((c :: rest).dropWhile Text.isDigit)
    rw [List.length_append] at parts
    unfold numberLength
    omega
  | case4 =>
    rintro ⟨⟩
    exact (List.takeWhile_prefix _).length_le
  | case5 =>
    intro h
    cases h

theorem front_token_le {kind : Kind} {n : Nat} (h : front text = .token kind n) : n ≤ text.length := by
  revert h
  fun_cases front text with
  | case1 =>
    intro h
    cases h
  | case2 c rest kind length found =>
    rintro ⟨⟩
    exact symbol?_le found
  | case3 => exact longFront_le

theorem longFront_newline {c : Char} {rest : List Char} (closed : longFront c rest ≠ .unterminated) :
    longFront c (rest ++ '\n' :: more) = longFront c rest := by
  unfold longFront at closed ⊢
  rw [← List.cons_append, numberLength_newline, wordLength_newline]
  split
  · next quote =>
    rw [if_pos quote] at closed
    cases found : quotedLength? (c :: rest) with
    | none =>
      rw [found] at closed
      exact absurd rfl closed
    | some length => rw [quotedLength?_newline more found]
  · have inside : wordLength (c :: rest) ≤ (c :: rest).length := (List.takeWhile_prefix _).length_le
    rw [List.take_append_of_le_length inside]

theorem front_newline (left : text ≠ []) (closed : front text ≠ .unterminated) :
    front (text ++ '\n' :: more) = front text := by
  cases text with
  | nil => exact absurd rfl left
  | cons c rest =>
    rw [front] at closed
    rw [List.cons_append, front, ← List.cons_append, symbol?_newline more left, front]
    cases found : symbol? (c :: rest) with
    | some symbol => rfl
    | none =>
      rw [found] at closed
      exact longFront_newline more closed

theorem eq_nil_of_front (h : front text = .nothing) : text = [] := by
  revert h
  fun_cases front text with
  | case1 => exact fun _ => rfl
  | case2 =>
    intro h
    cases h
  | case3 c rest =>
    fun_cases longFront c rest <;>
    · intro h
      cases h

theorem ofWord_ne_endMark (word : String) : Kind.ofWord word ≠ .endMark := by
  unfold Kind.ofWord
  split <;> nofun

theorem front_ne_endMark {kind : Kind} {n : Nat} (h : front text = .token kind n) : kind ≠ .endMark := by
  revert h
  fun_cases front text with
  | case1 =>
    intro h
    cases h
  | case2 c rest kind length found =>
    rintro ⟨⟩ rfl
    revert found
    fun_cases symbol? (c :: rest) <;>
    · intro found
      cases found
  | case3 c rest =>
    fun_cases longFront c rest with
    | case4 =>
      rintro ⟨⟩
      exact ofWord_ne_endMark _
    | _ =>
      rintro ⟨⟩
      try decide

end Front

end Token

namespace Source

open Token

variable (text : String)

def behind (s : Source) : Source :=
  ⟨s.position.behind text, s.rest⟩

theorem behind_advance (s : Source) (n : Nat) : (s.behind text).advance n = (s.advance n).behind text := by
  simp [advance, behind, Position.behind_advanceAll]

theorem behind_readFront (s : Source) :
    (s.behind text).readFront = (s.readFront.1.behind text, s.readFront.2.behind text) := by
  unfold readFront
  simp only [behind_advance]
  rw [show (s.behind text).rest = s.rest from rfl]
  split <;> rfl

theorem behind_next (s : Source) : (s.behind text).next = (s.next.1.behind text, s.next.2.behind text) := by
  rw [next, skipGap, behind_advance, behind_readFront, next, skipGap]
  rfl

theorem isEnd_behind (item : Item) : (item.behind text).isEnd = item.isEnd := by
  cases item <;> rfl

theorem behind_items (s : Source) : (s.behind text).items = s.items.map (Item.behind text) := by
  fun_induction items s with
  | case1 s step goes ih =>
    rw [items, behind_next, dif_pos ((isEnd_behind text _).trans goes), ih]
    rfl
  | case2 s step ends =>
    rw [items, behind_next, dif_neg (by rwa [isEnd_behind text])]
    rfl

def append (s : Source) (more : List Char) : Source :=
  ⟨s.position, s.rest ++ '\n' :: more⟩

def behindAll (s : Source) (more : List Char) : Source :=
  ⟨s.position.advanceAll (s.rest ++ ['\n']), more⟩

variable {s : Source} {text} (more : List Char)

theorem append_advance {n : Nat} (le : n ≤ s.rest.length) : (s.append more).advance n = (s.advance n).append more := by
  simp [advance, append, List.take_append_of_le_length le, List.drop_append_of_le_length le]

theorem behindAll_advance (s : Source) (n : Nat) : (s.advance n).behindAll more = s.behindAll more := by
  simp only [behindAll, advance, Position.advanceAll_append, ← Position.advanceAll_append _ _ (s.rest.drop n),
    List.take_append_drop]

theorem isEnd_readFront {s : Source} (left : s.rest ≠ []) : s.readFront.1.isEnd = false := by
  unfold readFront
  cases shape : front s.rest with
  | nothing => exact absurd (eq_nil_of_front shape) left
  | token kind length => simpa [Item.isEnd, tokenOf] using front_ne_endMark shape
  | unexpected c => rfl
  | unterminated => rfl

/-- Whatever stands in the first text is read in the same way if more text follows, but for a text without a closing
quote. -/
theorem next_append (s : Source) (goes : s.next.1.isEnd = false) (closed : ∀ p, s.next.1 ≠ .fault (.unterminated p)) :
    (s.append more).next = (s.next.1, s.next.2.append more) := by
  have skipped : s.skipGap.rest ≠ [] := by
    intro empty
    rw [next, readFront, empty, front] at goes
    cases goes
  have gap : gapLength false s.rest < s.rest.length := by
    refine Nat.lt_of_le_of_ne (gapLength_le false s.rest) fun whole => skipped ?_
    rw [skipGap, advance, whole]
    exact List.drop_length
  have apart : (s.append more).skipGap = s.skipGap.append more := by
    rw [skipGap, append, gapLength_newline more gap]
    exact append_advance more (Nat.le_of_lt gap)
  rw [next, apart, next]
  rw [next] at closed
  generalize s.skipGap = s at closed skipped
  have quoted : front s.rest ≠ .unterminated := by
    intro shape
    refine closed s.position ?_
    rw [readFront, shape]
  have found : front (s.append more).rest = front s.rest := front_newline more skipped quoted
  unfold readFront
  rw [found]
  cases shape : front s.rest with
  | nothing => exact absurd (eq_nil_of_front shape) skipped
  | token kind length =>
    have within := front_token_le shape
    have lexeme : (s.append more).tokenOf kind length = s.tokenOf kind length := by
      simp [tokenOf, append, List.take_append_of_le_length within]
    simp only [lexeme, append_advance more within]
  | unexpected c =>
    have within : 1 ≤ s.rest.length := List.length_pos_iff.2 skipped
    simp only [append_advance more within]
    rfl
  | unterminated => exact absurd shape quoted

/-- At the end of the first text the second one begins. -/
theorem next_append_end (s : Source) (ends : s.next.1.isEnd = true) : (s.append more).next = (s.behindAll more).next := by
  have whole : gapLength false s.rest = s.rest.length := by
    refine Nat.le_antisymm (gapLength_le false s.rest) (Nat.le_of_not_lt fun short => ?_)
    have left : s.skipGap.rest ≠ [] := by simpa [skipGap, advance] using short
    exact absurd ends (by rw [next, isEnd_readFront left]; decide)
  have skipped : (s.append more).skipGap = (s.behindAll more).skipGap := by
    unfold skipGap append
    rw [gapLength_newline_of_eq more whole, Nat.add_assoc, Nat.add_comm 1]
    simp [advance, behindAll, List.take_length_add_append, List.drop_length_add_append]
  rw [next, skipped, next]

theorem behindAll_readFront (s : Source) : s.readFront.2.behindAll more = s.behindAll more := by
  unfold readFront
  split
  · rfl
  all_goals exact behindAll_advance more s _

theorem behindAll_next (s : Source) : s.next.2.behindAll more = s.behindAll more :=
  (behindAll_readFront more s.skipGap).trans (behindAll_advance more s _)

theorem items_eq (s : Source) :
    ∃ before last, s.items = before ++ [.token last] ∧ last.kind = .endMark ∧ ∀ item ∈ before, item.isEnd = false := by
  fun_induction items s with
  | case1 s step goes ih =>
    obtain ⟨before, last, same, ends, inside⟩ := ih
    exact ⟨step.1 :: before, last, by rw [same]; rfl, ends, List.forall_mem_cons.2 ⟨goes, inside⟩⟩
  | case2 s step ends =>
    cases found : step.1 with
    | token last =>
      refine ⟨[], last, rfl, ?_, nofun⟩
      simpa [found, Item.isEnd] using ends
    | fault fault => simp [found, Item.isEnd] at ends

theorem items_append (s : Source) (closed : ∀ p, .fault (.unterminated p) ∉ s.items) :
    (s.append more).items = s.items.dropLast ++ (s.behindAll more).items := by
  fun_induction items s with
  | case1 s step goes ih =>
    have here (p : Position) : step.1 ≠ .fault (.unterminated p) := fun same => closed p (same ▸ List.mem_cons_self)
    have later (p : Position) : .fault (.unterminated p) ∉ step.2.items := fun mem => closed p (List.mem_cons_of_mem _ mem)
    obtain ⟨before, last, same, -⟩ := items_eq step.2
    have left : step.2.items ≠ [] := by simp [same]
    rw [items, next_append more s goes here, dif_pos goes, ih later, behindAll_next,
      List.dropLast_cons_of_ne_nil left, List.cons_append]
  | case2 s step ends =>
    rw [items, next_append_end more s (by simpa using ends), List.dropLast_singleton, List.nil_append]
    rw [items.eq_def (s.behindAll more)]

theorem ofString_append (text more : String) :
    ofString (text ++ "\n" ++ more) = (ofString text).append more.toList := by
  simp [ofString, append, String.toList_append]

theorem behindAll_ofString (text more : String) :
    (ofString text).behindAll more.toList = (ofString more).behind (text ++ "\n") := by
  have place := Position.advanceAll_newline text
  rw [String.toList_append] at place
  exact congrArg (Source.mk · more.toList) place

end Source

end Scriptlet
