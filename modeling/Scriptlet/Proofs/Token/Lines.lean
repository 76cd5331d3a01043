import Scriptlet.Proofs.Token.Place

namespace Scriptlet

namespace Token.Item

theorem token?_behind (text : String) (item : Item) : (item.behind text).token? = item.token?.map (Token.behind text) := by
  cases item <;> rfl

theorem fault?_behind (text : String) (item : Item) : (item.behind text).fault? = item.fault?.map (Fault.behind text) := by
  cases item <;> rfl

end Token.Item

open Token

theorem scan_join {text : String} (closed : ∀ p, .unterminated p ∉ (scan text).faults) (more : String) :
    (scan (text ++ "\n" ++ more)).tokens =
        (scan text).tokens.dropLast ++ (scan more).tokens.map (Token.behind (text ++ "\n")) ∧
      (scan (text ++ "\n" ++ more)).faults =
        (scan text).faults ++ (scan more).faults.map (Fault.behind (text ++ "\n")) := by
  have quoted (p : Position) : .fault (.unterminated p) ∉ (Source.ofString text).items := fun mem =>
    closed p (scan_faults text ▸ List.mem_filterMap.2 ⟨_, mem, rfl⟩)
  obtain ⟨before, last, same, -⟩ := (Source.ofString text).items_eq
  have items : (Source.ofString (text ++ "\n" ++ more)).items =
      before ++ (Source.ofString more).items.map (Item.behind (text ++ "\n")) := by
    rw [Source.ofString_append, Source.items_append _ _ quoted, Source.behindAll_ofString, Source.behind_items, same,
      List.dropLast_concat]
  have tokens : (scan text).tokens = before.filterMap Item.token? ++ [last] := by
    rw [scan_tokens, same, List.filterMap_append]
    rfl
  have faults : (scan text).faults = before.filterMap Item.fault? := by
    rw [scan_faults, same, List.filterMap_append]
    exact List.append_nil _
  rw [tokens, List.dropLast_concat, faults]
  simp only [scan_tokens, scan_faults, items, List.filterMap_append, List.filterMap_map, Function.comp_def,
    Item.token?_behind, Item.fault?_behind, List.map_filterMap, and_self]

theorem count_newline (text : String) : (text ++ "\n").toList.count '\n' = text.toList.count '\n' + 1 := by
  rw [String.toList_append, List.count_append]
  rfl

theorem Position.behind_newline (text : String) (p : Position) :
    p.behind (text ++ "\n") =
      ⟨p.offset + (text.utf8ByteSize + 1), p.line + .ofNat (text.toList.count '\n' + 1), p.column⟩ := by
  have bytes : (text ++ "\n").utf8ByteSize = text.utf8ByteSize + 1 := by
    rw [String.utf8ByteSize_append]
    rfl
  rw [behind, bytes, count_newline]

theorem Position.toInt_line_behind {p : Position} {line : Nat} (counted : p.line.toInt = line) (text : String)
    (fits : line + text.toList.count '\n' < 2 ^ 31) :
    (p.behind text).line.toInt = line + (text.toList.count '\n' : Nat) := by
  have same : p.line = .ofNat line := Int32.toInt.inj (by rw [counted, Int32.toInt_ofNat_of_lt (by omega)])
  rw [behind, same, ← Int32.ofNat_add, Int32.toInt_ofNat_of_lt fits, Nat.cast_add]

theorem Position.Within.line_behind {p : Position} {text more : String} (within : p.Within more)
    (short : (text ++ "\n" ++ more).length < 2 ^ 31 - 1) :
    (p.behind (text ++ "\n")).line.toInt = p.line.toInt + (text.toList.count '\n' + 1 : Nat) := by
  obtain ⟨before, after, rfl, follows⟩ := within
  have lines : before.toList.count '\n' ≤ before.toList.length := List.count_le_length
  have lines' : (text ++ "\n").toList.count '\n' ≤ (text ++ "\n").toList.length := List.count_le_length
  rw [String.length_toList] at lines lines'
  simp only [String.length_append] at lines' short
  have counted : p.line.toInt = (1 + before.toList.count '\n' : Nat) := by rw [follows.line, Nat.cast_add, Nat.cast_one]
  rw [Position.toInt_line_behind counted _ (by omega), counted, count_newline]

/-- Scanning goes line by line: if no quote is left open in a text, then behind it and a line feed another text has the
tokens and faults that it has by itself, moved by the bytes and lines before it. -/
theorem scan_lines {text : String} (closed : ∀ p, .unterminated p ∉ (scan text).faults) (more : String) :
    (∃ body mark, (scan text).tokens = body ++ [mark] ∧ mark.kind = .endMark ∧ (∀ t ∈ body, t.kind ≠ .endMark) ∧
      (scan (text ++ "\n" ++ more)).tokens = body ++ (scan more).tokens.map (Token.behind (text ++ "\n"))) ∧
    (scan (text ++ "\n" ++ more)).faults = (scan text).faults ++ (scan more).faults.map (Fault.behind (text ++ "\n")) ∧
    (∀ p : Position, p.behind (text ++ "\n") =
      ⟨p.offset + (text.utf8ByteSize + 1), p.line + .ofNat (text.toList.count '\n' + 1), p.column⟩) ∧
    -- no line wraps
    ((text ++ "\n" ++ more).length < 2 ^ 31 - 1 →
      (∀ t ∈ (scan more).tokens, (t.behind (text ++ "\n")).position.line.toInt =
        t.position.line.toInt + (text.toList.count '\n' + 1 : Nat)) ∧
      ∀ f ∈ (scan more).faults, (f.behind (text ++ "\n")).position.line.toInt =
        f.position.line.toInt + (text.toList.count '\n' + 1 : Nat)) := by
  obtain ⟨tokens, faults⟩ := scan_join closed more
  obtain ⟨body, mark, whole, last, inside⟩ := tokens_eq text
  rw [whole, List.dropLast_concat] at tokens
  refine ⟨⟨body, mark, whole, last, inside, tokens⟩, faults, Position.behind_newline text, fun short => ?_⟩
  have short' : more.length < 2 ^ 31 - 1 := by
    rw [String.length_append] at short
    omega
  refine ⟨fun t mem => (placed_of_mem short' mem).position.line_behind short, fun f mem => ?_⟩
  obtain ⟨before, after, whole, follows⟩ := exists_before short' (fault_mem_items mem)
  have moved : (f.behind (text ++ "\n")).position = f.position.behind (text ++ "\n") := by cases f <;> rfl
  rw [moved]
  exact Position.Within.line_behind ⟨before, _, whole.trans String.append_assoc, follows⟩ short

theorem scan_lines_commented :
    (∀ p, .unterminated p ∉ (scan commented).faults) ∧
    (scan (commented ++ "\n" ++ "1 ^")).tokens.map Token.position = [⟨1, 1, 2⟩, ⟨10, 3, 1⟩, ⟨13, 3, 4⟩] ∧
    (scan (commented ++ "\n" ++ "1 ^")).faults = [.unexpected '@' ⟨0, 1, 1⟩, .unexpected '^' ⟨12, 3, 3⟩] := by
  have faults : (scan commented).faults = [.unexpected '@' ⟨0, 1, 1⟩] := by
    rw [scan_faults]
    decide +kernel
  have closed (p : Position) : .unterminated p ∉ (scan commented).faults := by simp [faults]
  obtain ⟨⟨body, mark, whole, -, -, joined⟩, rest, -⟩ := scan_lines closed "1 ^"
  refine ⟨closed, ?_, ?_⟩
  · have first : (scan commented).tokens.map Token.position = [⟨1, 1, 2⟩] ++ [⟨9, 2, 5⟩] := by
      rw [scan_tokens]
      decide +kernel
    have second : (scan "1 ^").tokens.map Token.position = [⟨0, 1, 1⟩, ⟨3, 1, 4⟩] := by
      rw [scan_tokens]
      decide +kernel
    rw [whole, List.map_append] at first
    have moved : ((scan "1 ^").tokens.map (Token.behind (commented ++ "\n"))).map Token.position =
        ((scan "1 ^").tokens.map Token.position).map (Position.behind (commented ++ "\n")) := by
      simp [move]
    rw [joined, List.map_append, moved, second, List.append_inj_left' first rfl]
    rfl
  · have more : (scan "1 ^").faults = [.unexpected '^' ⟨2, 1, 3⟩] := by
      rw [scan_faults]
      decide +kernel
    rw [rest, faults, more]
    rfl

theorem faults_lineFeeds (n : Nat) : (scan (lineFeeds n)).faults = [] := by
  rw [scan_faults, items_lineFeeds]
  rfl

theorem exists_wrapped_behind {n : Nat} (wraps : (Int32.ofNat (1 + (n + 1))).toInt = -2 ^ 31) :
    ∃ t ∈ (scan "").tokens, t.behind (lineFeeds n ++ "\n") ∈ (scan (lineFeeds n ++ "\n" ++ "")).tokens ∧
      (t.behind (lineFeeds n ++ "\n")).position.line.toInt ≠
        t.position.line.toInt + ((lineFeeds n).toList.count '\n' + 1 : Nat) := by
  have closed (p : Position) : .unterminated p ∉ (scan (lineFeeds n)).faults := faults_lineFeeds n ▸ List.not_mem_nil
  have empty : (scan "").tokens = [⟨.endMark, "", none, .start⟩] := tokens_lineFeeds 0
  have line : (Position.start.behind (lineFeeds n ++ "\n")).line.toInt = -2 ^ 31 := by
    rw [Position.behind_newline, lineFeeds, String.toList_ofList, List.count_replicate_self, ← wraps, Int32.ofNat_add 1]
    rfl
  rw [(scan_join closed "").1, empty]
  refine ⟨_, List.mem_singleton_self _, List.mem_append_right _ (List.mem_singleton_self _), ?_⟩
  rw [Token.behind, move, line]
  change (-2 ^ 31 : Int) ≠ 1 + _
  omega

/-- Behind as many line feeds as there are lines to count, the line wraps. -/
theorem not_lines_lineFeeds :
    (∀ p, .unterminated p ∉ (scan (lineFeeds (2 ^ 31 - 2))).faults) ∧
    (lineFeeds (2 ^ 31 - 2) ++ "\n" ++ "").length < 2 ^ 31 ∧
    ∃ t ∈ (scan "").tokens, t.behind (lineFeeds (2 ^ 31 - 2) ++ "\n") ∈ (scan (lineFeeds (2 ^ 31 - 2) ++ "\n" ++ "")).tokens ∧
      (t.behind (lineFeeds (2 ^ 31 - 2) ++ "\n")).position.line.toInt ≠
        t.position.line.toInt + ((lineFeeds (2 ^ 31 - 2)).toList.count '\n' + 1 : Nat) := by
  refine ⟨fun p => faults_lineFeeds _ ▸ List.not_mem_nil, ?_, exists_wrapped_behind (by decide)⟩
  rw [String.length_append, String.length_append, length_lineFeeds]
  decide

end Scriptlet
