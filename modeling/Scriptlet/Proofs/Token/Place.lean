import Scriptlet.Proofs.Token.Layout

namespace Scriptlet

namespace Position

/-- The position behind the first part of a text, with counters that have not wrapped. -/
structure Follows (before : String) (p : Position) : Prop where
  offset : p.offset = before.utf8ByteSize
  line : p.line.toInt = 1 + before.toList.count '\n'
  column : p.column.toInt = 1 + (before.toList.reverse.takeWhile (· != '\n')).length

def Within (text : String) (p : Position) : Prop :=
  ∃ before after, text = before ++ after ∧ p.Follows before

theorem line_advanceAll (text : List Char) : (start.advanceAll text).line = .ofNat (1 + text.count '\n') := by
  rw [(start.advanceAll_ofList text).2, Int32.ofNat_add]
  rfl

theorem column_advanceAll (text : List Char) :
    (start.advanceAll text).column = .ofNat (1 + (text.reverse.takeWhile (· != '\n')).length) := by
  induction text using List.reverseRecOn with
  | nil => rfl
  | append_singleton before c ih =>
    rw [advanceAll_append, advanceAll_cons, advanceAll_nil, advance, List.reverse_append, List.reverse_singleton,
      List.singleton_append, List.takeWhile_cons]
    split
    · next feed =>
      rw [if_neg (by simp [feed])]
      rfl
    · next other =>
      rw [if_pos (bne_iff_ne.2 other), List.length_cons, ← Nat.add_assoc, Int32.ofNat_add, ← ih]
      rfl

theorem follows_advanceAll {before : List Char} (short : before.length < 2 ^ 31 - 1) :
    (start.advanceAll before).Follows (String.ofList before) := by
  have lines : before.count '\n' ≤ before.length := List.count_le_length
  have columns := (List.takeWhile_prefix (l := before.reverse) (· != '\n')).length_le
  rw [List.length_reverse] at columns
  refine ⟨?_, ?_, ?_⟩
  · rw [(start.advanceAll_ofList before).1]
    exact Nat.zero_add _
  · rw [line_advanceAll, Int32.toInt_ofNat_of_lt (by omega), String.toList_ofList]
    rfl
  · rw [column_advanceAll, Int32.toInt_ofNat_of_lt (by omega), String.toList_ofList]
    rfl

theorem offset_lt (p : Position) {text : List Char} (nonempty : text ≠ []) : p.offset < (p.advanceAll text).offset := by
  obtain ⟨c, rest, rfl⟩ := List.exists_cons_of_ne_nil nonempty
  have pos := c.utf8Size_pos
  rw [(p.advanceAll_ofList _).1, String.ofList_cons, String.utf8ByteSize_append, String.utf8ByteSize_singleton]
  omega

theorem Within.line_add_column_le {text : String} {p : Position} (h : p.Within text) :
    p.line.toInt + p.column.toInt ≤ text.length + 2 := by
  obtain ⟨before, after, rfl, -, line, column⟩ := h
  -- the characters of the last line are no line feeds
  have split := List.takeWhile_append_dropWhile (p := (· != '\n')) (l := before.toList.reverse)
  have last : (before.toList.reverse.takeWhile (· != '\n')).count '\n' = 0 :=
    List.count_eq_zero.2 fun mem => absurd (List.mem_takeWhile_imp mem) (by decide)
  have lines : before.toList.count '\n' ≤ (before.toList.reverse.dropWhile (· != '\n')).length :=
    calc before.toList.count '\n' = before.toList.reverse.count '\n' := List.count_reverse.symm
      _ = (before.toList.reverse.dropWhile (· != '\n')).count '\n' := by
        rw [← Nat.zero_add (List.count _ (List.dropWhile _ _)), ← last, ← List.count_append, split]
      _ ≤ _ := List.count_le_length
  have size := congrArg List.length split
  rw [List.length_append, List.length_reverse, String.length_toList] at size
  rw [line, column, String.length_append]
  omega

end Position

open Token

def Token.Item.position : Item → Position
  | .token t => t.position
  | .fault f => f.position

def Token.Item.lexeme : Item → String
  | .token t => t.lexeme
  | .fault _ => ""

namespace Layout

variable {p : Position} {text : List Char} {items : List Item}

theorem split (h : Layout p text items) {item : Item} (mem : item ∈ items) :
    ∃ before after, text = before ++ (item.lexeme.toList ++ after) ∧ item.position = p.advanceAll before := by
  induction h with
  | @done p gap blank =>
    cases List.mem_singleton.1 mem
    exact ⟨gap, [], by simp [Item.lexeme], rfl⟩
  | @token p gap lexeme rest kind payload items blank solid longest carries more ih =>
    obtain rfl | mem := List.mem_cons.1 mem
    · exact ⟨gap, rest, by simp [Item.lexeme], rfl⟩
    · obtain ⟨before, after, rfl, same⟩ := ih mem
      exact ⟨gap ++ lexeme ++ before, after, by simp, by rw [same, ← Position.advanceAll_append]⟩
  | @unexpected p gap rest c items blank solid none unquoted more ih =>
    obtain rfl | mem := List.mem_cons.1 mem
    · exact ⟨gap, c :: rest, by simp [Item.lexeme], rfl⟩
    · obtain ⟨before, after, rfl, same⟩ := ih mem
      exact ⟨gap ++ [c] ++ before, after, by simp, by rw [same, ← Position.advanceAll_append]⟩
  | @unterminated p gap rest blank plain =>
    obtain rfl | mem := List.mem_cons.1 mem
    · exact ⟨gap, '"' :: rest, by simp [Item.lexeme], rfl⟩
    · cases List.mem_singleton.1 mem
      exact ⟨gap ++ '"' :: rest, [], by simp [Item.lexeme], rfl⟩

theorem offset_le (h : Layout p text items) {item : Item} (mem : item ∈ items) : p.offset ≤ item.position.offset := by
  obtain ⟨before, after, -, same⟩ := h.split mem
  rw [same, (p.advanceAll_ofList before).1]
  exact Nat.le_add_right _ _

theorem pairwise (h : Layout p text items) :
    items.Pairwise fun item later => item.position.offset < later.position.offset ∧
      item.position.offset + item.lexeme.utf8ByteSize ≤ later.position.offset := by
  induction h with
  | done blank => exact List.pairwise_singleton _ _
  | @token p gap lexeme rest kind payload items blank solid longest carries more ih =>
    refine List.pairwise_cons.2 ⟨fun later mem => ?_, ih⟩
    have behind := more.offset_le mem
    have pos : lexeme ≠ [] := List.length_pos_iff.1 (front_token_pos longest.front)
    rw [Position.advanceAll_append] at behind
    refine ⟨Nat.lt_of_lt_of_le (Position.offset_lt _ pos) behind, ?_⟩
    rwa [((p.advanceAll gap).advanceAll_ofList lexeme).1] at behind
  | @unexpected p gap rest c items blank solid none unquoted more ih =>
    refine List.pairwise_cons.2 ⟨fun later mem => ?_, ih⟩
    have behind := more.offset_le mem
    rw [Position.advanceAll_append] at behind
    have less := Nat.lt_of_lt_of_le (Position.offset_lt _ (List.cons_ne_nil c [])) behind
    exact ⟨less, Nat.le_of_lt less⟩
  | @unterminated p gap rest blank plain =>
    refine List.pairwise_cons.2 ⟨fun later mem => ?_, List.pairwise_singleton _ _⟩
    cases List.mem_singleton.1 mem
    have less := (p.advanceAll gap).offset_lt (List.cons_ne_nil '"' rest)
    rw [← Position.advanceAll_append] at less
    exact ⟨less, Nat.le_of_lt less⟩

theorem last (h : Layout p text items) :
    ∃ before, items = before ++ [.token ⟨.endMark, "", none, p.advanceAll text⟩] ∧
      ∀ item ∈ before, item.isEnd = false := by
  induction h with
  | done blank => exact ⟨[], rfl, nofun⟩
  | @token p gap lexeme rest kind payload items blank solid longest carries more ih =>
    obtain ⟨before, rfl, inside⟩ := ih
    refine ⟨.token ⟨kind, String.ofList lexeme, payload, p.advanceAll gap⟩ :: before, ?_,
      List.forall_mem_cons.2 ⟨?_, inside⟩⟩
    · rw [← Position.advanceAll_append, List.append_assoc, List.cons_append]
    · exact beq_eq_false_iff_ne.2 (front_ne_endMark longest.front)
  | @unexpected p gap rest c items blank solid none unquoted more ih =>
    obtain ⟨before, rfl, inside⟩ := ih
    refine ⟨.fault (.unexpected c (p.advanceAll gap)) :: before, ?_, List.forall_mem_cons.2 ⟨rfl, inside⟩⟩
    rw [← Position.advanceAll_append, List.append_assoc, List.singleton_append, List.cons_append]
  | unterminated blank plain => exact ⟨[_], rfl, List.forall_mem_singleton.2 rfl⟩

end Layout

namespace Source

theorem next_end {s : Source} (ends : s.next.1.isEnd = true) : s.next.2.next = s.next := by
  have empty : s.skipGap.rest = [] := by
    by_contra left
    rw [next, isEnd_readFront left] at ends
    cases ends
  unfold next
  generalize s.skipGap = s' at empty
  obtain ⟨p, rest⟩ := s'
  subst empty
  rfl

theorem take_end {s : Source} (same : s.next.2.next = s.next) (n : Nat) : s.next.2.take n = List.replicate n s.next.1 := by
  induction n with
  | zero => rfl
  | succ n ih =>
    rw [take, same]
    exact congrArg _ ih

theorem take_items (s : Source) (n : Nat) (before : List Item) (last : Item) (same : s.items = before ++ [last]) :
    s.take (s.items.length + n) = s.items ++ List.replicate n last := by
  revert before
  fun_induction items s with
  | case1 s step goes ih =>
    intro before same
    obtain ⟨before', last', same', -⟩ := items_eq step.2
    have later : step.2.items = before' ++ [last] := by
      rw [same', ← List.cons_append] at same
      rw [same', (List.append_inj' same rfl).2]
    rw [List.length_cons, Nat.add_right_comm, take, List.cons_append, ← ih before' later]
  | case2 s step ends =>
    intro before same
    have ends : s.next.1.isEnd = true := by simpa using ends
    obtain rfl : step.1 = last := List.singleton_inj.1 (List.append_inj' (show [] ++ [step.1] = _ from same) rfl).2
    rw [List.length_singleton, Nat.add_comm, take]
    exact congrArg _ (take_end (next_end ends) n)

end Source

theorem Token.Lexeme.exists_content {lexeme : List Char} (h : Lexeme .text lexeme) :
    ∃ content, lexeme = '"' :: content ++ ['"'] := by
  generalize same : Kind.text = kind at h
  cases h with
  | symbol listed => exact absurd same.symm (symbols_plain _ listed).2
  | whole => cases same
  | decimal => cases same
  | quoted => exact ⟨_, rfl⟩
  | keyword listed => exact absurd same.symm (keywords_plain _ listed).2
  | identifier => cases same

/-- A token at its place in a text: there are its lexeme, and the text between its quotes. -/
structure Placed (text : String) (t : Token) : Prop where
  position : t.position.Within text
  lexeme : Slice text t.position.offset (t.position.offset + t.lexeme.utf8ByteSize) t.lexeme
  content : ∀ content, t.payload = some (.text content) →
    Slice text (t.position.offset + 1) (t.position.offset + t.lexeme.utf8ByteSize - 1) content

theorem payload?_eq_text {kind : Kind} {lexeme : List Char} {content : String}
    (h : payload? kind lexeme = some (.text content)) : kind = .text := by
  unfold payload? at h
  split at h
  · cases h
  · rfl
  · cases h

theorem exists_before {text : String} (short : text.length < 2 ^ 31 - 1) {item : Item}
    (mem : item ∈ (Source.ofString text).items) :
    ∃ before after, text = before ++ item.lexeme ++ after ∧ item.position.Follows before := by
  obtain ⟨before, after, split, here⟩ := (layout_items text).split mem
  refine ⟨String.ofList before, String.ofList after, ?_, ?_⟩
  · rw [← String.toList_inj, split]
    simp
  · have size := congrArg List.length split
    rw [String.length_toList, List.length_append] at size
    rw [here]
    exact Position.follows_advanceAll (by omega)

theorem placed_of_mem {text : String} (short : text.length < 2 ^ 31 - 1) {t : Token} (mem : t ∈ (scan text).tokens) :
    Placed text t := by
  obtain ⟨before, after, whole, follows⟩ := exists_before short (token_mem_items mem)
  have whole : text = before ++ t.lexeme ++ after := whole
  have follows : t.position.Follows before := follows
  refine ⟨⟨_, _, whole.trans String.append_assoc, follows⟩, ?_, fun content carried => ?_⟩
  · rw [follows.offset, whole]
    exact slice_append _ _ _
  · obtain ⟨same, valid⟩ := lexeme_of_mem mem
    rw [carried] at same
    have kind := payload?_eq_text same.symm
    rw [kind] at valid same
    obtain ⟨inner, quoted⟩ := (valid nofun).exists_content
    rw [quoted, payload?_quoted] at same
    obtain rfl : content = String.ofList inner := Payload.text.inj (Option.some.inj same)
    have lexeme : t.lexeme = "\"" ++ String.ofList inner ++ "\"" := by
      rw [← String.toList_inj, quoted]
      simp
    rw [follows.offset, whole, lexeme]
    exact slice_quoted before _ after

theorem fault_mem_items {text : String} {f : Fault} (mem : f ∈ (scan text).faults) :
    .fault f ∈ (Source.ofString text).items := by
  rw [scan_faults] at mem
  obtain ⟨item, mem, found⟩ := List.mem_filterMap.1 mem
  cases item with
  | token => cases found
  | fault f' =>
    cases found
    exact mem

/-- Tokens are located exactly. No slice fails, each token has the position of the part of the text that is its lexeme, faults
have positions of the text as well, tokens are apart, and there is one end mark, which is found over and over. -/
theorem scan_placed {text : String} (short : text.length < 2 ^ 31 - 1) :
    ∃ items, (Lexer.ofString text).scanAll = some items ∧ (scan text).tokens = items.filterMap Item.token? ∧
      (scan text).faults = items.filterMap Item.fault? ∧
      (∀ t ∈ (scan text).tokens, Placed text t) ∧ (∀ f ∈ (scan text).faults, f.position.Within text) ∧
      (∀ p : Position, p.Within text → p.line.toInt + p.column.toInt ≤ text.length + 2) ∧
      ((scan text).tokens.Pairwise fun t later => t.position.offset < later.position.offset ∧
        t.position.offset + t.lexeme.utf8ByteSize ≤ later.position.offset) ∧
      ∃ body last, (scan text).tokens = body ++ [last] ∧ (∀ t ∈ body, t.kind ≠ .endMark) ∧
        last.kind = .endMark ∧ last.lexeme = "" ∧ last.position.offset = text.utf8ByteSize ∧
        ∀ n, (Lexer.ofString text).take (items.length + n) = some (items ++ List.replicate n (.token last)) := by
  have layout := layout_items text
  refine ⟨_, Lexer.scanAll_eq (Lexer.reads_ofString text), scan_tokens text, scan_faults text,
    fun t mem => placed_of_mem short mem, fun f mem => ?_, fun p within => within.line_add_column_le, ?_, ?_⟩
  · obtain ⟨before, after, whole, follows⟩ := exists_before short (fault_mem_items mem)
    exact ⟨before, _, whole.trans String.append_assoc, follows⟩
  · rw [scan_tokens, List.pairwise_filterMap]
    refine layout.pairwise.imp fun {item later} apart t here t' there => ?_
    cases item <;> cases here
    cases later <;> cases there
    exact apart
  · obtain ⟨before, same, inside⟩ := layout.last
    obtain ⟨offset, -⟩ := Position.start.advanceAll_ofList text.toList
    have tokens : (scan text).tokens =
        before.filterMap Item.token? ++ [⟨.endMark, "", none, Position.start.advanceAll text.toList⟩] := by
      rw [scan_tokens, same, List.filterMap_append]
      rfl
    refine ⟨_, _, tokens, fun t mem => ?_, rfl, rfl, ?_, fun n => ?_⟩
    · obtain ⟨item, here, found⟩ := List.mem_filterMap.1 mem
      cases item <;> cases found
      exact beq_eq_false_iff_ne.1 (inside _ here)
    · rw [offset, String.ofList_toList]
      exact Nat.zero_add _
    · rw [Lexer.take_eq (Lexer.reads_ofString text)]
      exact congrArg some (Source.take_items _ n before _ same)

def commented : String := "@\"é\n\"//x"

theorem scan_placed_commented :
    commented.length < 2 ^ 31 - 1 ∧ (∀ t ∈ (scan commented).tokens, Placed commented t) ∧
      ∀ f ∈ (scan commented).faults, f.position.Within commented := by
  have short : commented.length < 2 ^ 31 - 1 := by decide
  obtain ⟨items, -, -, -, tokens, faults, -⟩ := scan_placed short
  exact ⟨short, tokens, faults⟩

def lineFeeds (n : Nat) : String :=
  String.ofList (List.replicate n '\n')

theorem length_lineFeeds (n : Nat) : (lineFeeds n).length = n := by
  rw [lineFeeds, String.length_ofList, List.length_replicate]

theorem items_lineFeeds (n : Nat) : (Source.ofString (lineFeeds n)).items =
    [.token ⟨.endMark, "", none, Position.start.advanceAll (List.replicate n '\n')⟩] := by
  have gap : Gap [] (List.replicate n '\n') := by
    induction n with
    | zero => exact .nil
    | succ n ih => exact .blank (by decide) ih
  rw [Source.ofString, lineFeeds, String.toList_ofList]
  exact (Layout.done gap).eq_items.symm

theorem tokens_lineFeeds (n : Nat) : (scan (lineFeeds n)).tokens =
    [⟨.endMark, "", none, Position.start.advanceAll (List.replicate n '\n')⟩] := by
  rw [scan_tokens, items_lineFeeds]
  rfl

theorem exists_wrapped {n : Nat} (wraps : (Int32.ofNat (1 + n)).toInt = -2 ^ 31) :
    ∃ t ∈ (scan (lineFeeds n)).tokens, t.position.line.toInt = -2 ^ 31 ∧ ¬Placed (lineFeeds n) t := by
  rw [tokens_lineFeeds]
  have line : (Position.start.advanceAll (List.replicate n '\n')).line.toInt = -2 ^ 31 := by
    rw [Position.line_advanceAll, List.count_replicate_self, wraps]
  refine ⟨_, List.mem_singleton_self _, line, fun placed => ?_⟩
  obtain ⟨before, -, -, follows⟩ := placed.position
  have counted := follows.line
  rw [line] at counted
  omega

/-- Behind as many line feeds as there are lines to count, the line wraps. -/
theorem not_placed_lineFeeds :
    (lineFeeds (2 ^ 31 - 1)).length < 2 ^ 31 ∧ ∃ t ∈ (scan (lineFeeds (2 ^ 31 - 1))).tokens,
      t.position.line.toInt = -2 ^ 31 ∧ ¬Placed (lineFeeds (2 ^ 31 - 1)) t := by
  refine ⟨?_, exists_wrapped (by decide)⟩
  rw [length_lineFeeds]
  decide

end Scriptlet
