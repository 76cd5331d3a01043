import Scriptlet.Proofs.Token.Layout

namespace Scriptlet

namespace Token

inductive Filling : List Char → Prop
  | nil : Filling []
  | blank {c : Char} {rest : List Char} (blank : Text.isBlank c = true) (more : Filling rest) : Filling (c :: rest)
  | comment {body rest : List Char} (line : '\n' ∉ body) (more : Filling rest) :
      Filling ('/' :: '/' :: (body ++ '\n' :: rest))

/-- A separator starts with a blank, so that a blank stands before each of its comments: the line feed of the comment before
it, if nothing else. -/
def IsSeparator (text : List Char) : Prop :=
  ∃ c rest, text = c :: rest ∧ Text.isBlank c = true ∧ Filling rest

def bare (t : Token) : Kind × String × Option Payload :=
  (t.kind, t.lexeme, t.payload)

theorem Filling.gap {text : List Char} (h : Filling text) (after : List Char) : Gap after text := by
  induction h with
  | nil => exact .nil
  | blank blank more ih => exact .blank blank ih
  | comment line more ih =>
    refine .comment line (fun c head => ?_) (.blank Text.isBlank_newline ih)
    exact (Option.some.inj head).symm

theorem IsSeparator.filling {text : List Char} (h : IsSeparator text) : Filling text := by
  obtain ⟨c, rest, rfl, blank, more⟩ := h
  exact .blank blank more

section Solid

variable {kind : Kind} {lexeme more : List Char}

theorem Lexeme.head (h : Lexeme kind lexeme) : ∃ c rest, lexeme = c :: rest ∧ Text.isBlank c = false := by
  have solid {c : Char} (part : Text.isWordPart c = true) : Text.isBlank c = false := by
    rw [Bool.eq_false_iff]
    intro blank
    rw [Text.isWordPart_of_isBlank blank] at part
    cases part
  have numeral {digits : List Char} (h : IsNumeral digits) : ∃ c rest, digits = c :: rest ∧ Text.isBlank c = false := by
    obtain ⟨c, rest, rfl⟩ := List.exists_cons_of_ne_nil h.1
    exact ⟨c, rest, rfl, solid (Bool.or_eq_true_iff.2 (.inr (h.2 c List.mem_cons_self)))⟩
  have word {word : List Char} (h : IsWord word) : ∃ c rest, word = c :: rest ∧ Text.isBlank c = false := by
    obtain ⟨c, rest, rfl, letter, -⟩ := h
    exact ⟨c, rest, rfl, solid (Bool.or_eq_true_iff.2 (.inl letter))⟩
  cases h with
  | symbol listed =>
    obtain ⟨c, rest, rfl, -⟩ := head_of_mem_symbols listed
    exact ⟨c, rest, rfl, isBlank_of_mem_symbols listed List.mem_cons_self⟩
  | whole h => exact numeral h
  | decimal h h' =>
    obtain ⟨c, rest, rfl, solid⟩ := numeral h
    exact ⟨c, _, rfl, solid⟩
  | quoted plain => exact ⟨'"', _, rfl, by decide⟩
  | keyword listed => exact word (isWord_of_mem listed)
  | identifier parts free => exact word parts

theorem Lexeme.solid (h : Lexeme kind lexeme) (cut : ∀ c ∈ more.head?, Text.isBlank c = true) : Solid (lexeme ++ more) := by
  have found := h.front_cut cut
  obtain ⟨c, tail, rfl, solid⟩ := h.head
  refine ⟨fun d head => ?_, fun rest same => ?_⟩
  · cases head
    exact solid
  · -- only the slash itself is a lexeme here
    rw [same] at found
    have length : 1 = tail.length + 1 := (Front.token.inj found).2
    obtain rfl : tail = [] := List.length_eq_zero_iff.1 (by omega)
    obtain ⟨-, rfl⟩ := List.cons.inj same
    exact absurd (cut '/' rfl) (by decide)

end Solid

end Token

open Token

def spaced (pairs : List (Token × String)) : String :=
  String.join (pairs.map fun (t, separator) => t.lexeme ++ separator)

theorem spaced_cons (t : Token) (separator : String) (pairs : List (Token × String)) :
    (spaced ((t, separator) :: pairs)).toList = t.lexeme.toList ++ (separator.toList ++ (spaced pairs).toList) := by
  simp [spaced]

theorem exists_layout_spaced {pairs : List (Token × String)}
    (valid : ∀ pair ∈ pairs, pair.1.payload = payload? pair.1.kind pair.1.lexeme.toList ∧
      Lexeme pair.1.kind pair.1.lexeme.toList)
    (apart : ∀ pair ∈ pairs, IsSeparator pair.2.toList) (p : Position) {gap : List Char} (filling : Filling gap) :
    ∃ (body : List Token) (last : Token), Layout p (gap ++ (spaced pairs).toList) (body.map .token ++ [.token last]) ∧
      last.kind = .endMark ∧ body.map bare = pairs.map fun pair => bare pair.1 := by
  -- a separator is the gap before the next lexeme, so the gap is kept general
  induction pairs generalizing p gap with
  | nil =>
    have none : (spaced []).toList = [] := rfl
    rw [none, List.append_nil]
    exact ⟨[], _, .done (filling.gap []), rfl, rfl⟩
  | cons pair pairs ih =>
    obtain ⟨t, separator⟩ := pair
    obtain ⟨⟨payload, lexeme⟩, valid⟩ := List.forall_mem_cons.1 valid
    obtain ⟨here, apart⟩ := List.forall_mem_cons.1 apart
    have cut : ∀ c ∈ (separator.toList ++ (spaced pairs).toList).head?, Text.isBlank c = true := by
      obtain ⟨c, rest, same, blank, -⟩ := here
      intro d head
      rw [same] at head
      cases head
      exact blank
    obtain ⟨body, last, layout, ends, same⟩ := ih valid apart (p.advanceAll (gap ++ t.lexeme.toList)) here.filling
    have longest := longest_of_front (lexeme.front_cut cut) lexeme (List.prefix_append _ _) rfl
    have token := Layout.token (filling.gap _) (lexeme.solid cut) longest (carries_payload? lexeme) layout
    rw [spaced_cons]
    refine ⟨_ :: body, last, token, ends, ?_⟩
    rw [List.map_cons, List.map_cons, same, bare, bare, String.ofList_toList, payload]

/-- The lexemes of a text have the same tokens again, whatever separators are written between them. -/
theorem scan_spaced {text : String} {pairs : List (Token × String)} {last : Token}
    (tokens : (scan text).tokens = pairs.map Prod.fst ++ [last]) (apart : ∀ pair ∈ pairs, IsSeparator pair.2.toList) :
    (scan (spaced pairs)).faults = [] ∧ ∃ body last', (scan (spaced pairs)).tokens = body ++ [last'] ∧
      last'.kind = .endMark ∧ body.map bare = pairs.map fun pair => bare pair.1 := by
  have valid : ∀ pair ∈ pairs, pair.1.payload = payload? pair.1.kind pair.1.lexeme.toList ∧
      Lexeme pair.1.kind pair.1.lexeme.toList := by
    intro pair mem
    obtain ⟨body, last', same, -, inside⟩ := tokens_eq text
    have here : pair.1 ∈ pairs.map Prod.fst := List.mem_map_of_mem mem
    obtain ⟨payload, lexeme⟩ := lexeme_of_mem (tokens ▸ List.mem_append_left _ here : pair.1 ∈ (scan text).tokens)
    rw [tokens] at same
    rw [(List.append_inj' same rfl).1] at here
    exact ⟨payload, lexeme (inside _ here)⟩
  obtain ⟨body, last', layout, ends, same⟩ := exists_layout_spaced valid apart .start .nil
  have items : (Source.ofString (spaced pairs)).items = body.map .token ++ [.token last'] := layout.eq_items.symm
  have some (t : Token) : Item.token? (.token t) = some t := rfl
  have none (t : Token) : Item.fault? (.token t) = none := rfl
  refine ⟨?_, body, last', ?_, ends, same⟩
  · rw [scan_faults, items]
    simp [List.filterMap_map, none]
  · rw [scan_tokens, items]
    simp [List.filterMap_map, some]

def slashes : List (Token × String) :=
  [(⟨.identifier, "x", none, ⟨0, 1, 1⟩⟩, " "), (⟨.divide, "/", none, ⟨1, 1, 2⟩⟩, "\n//a\n//\"\n"),
    (⟨.text, "\"//\"", some (.text "//"), ⟨2, 1, 3⟩⟩, "\t")]

theorem scan_spaced_slashes :
    spaced slashes = "x /\n//a\n//\"\n\"//\"\t" ∧ (scan (spaced slashes)).faults = [] ∧
      ∃ body last, (scan (spaced slashes)).tokens = body ++ [last] ∧ last.kind = .endMark ∧
        body.map bare = slashes.map fun pair => bare pair.1 := by
  refine ⟨by decide, ?_⟩
  have tokens : (scan "x/\"//\"").tokens = slashes.map Prod.fst ++ [⟨.endMark, "", none, ⟨6, 1, 7⟩⟩] := by decide +kernel
  have blank : IsSeparator " ".toList := ⟨' ', [], rfl, by decide, .nil⟩
  have comments : IsSeparator "\n//a\n//\"\n".toList :=
    ⟨'\n', _, rfl, by decide, @Filling.comment ['a'] _ (by decide) (@Filling.comment ['"'] _ (by decide) .nil)⟩
  have tab : IsSeparator "\t".toList := ⟨'\t', [], rfl, by decide, .nil⟩
  refine scan_spaced tokens fun pair mem => ?_
  simp only [slashes, List.mem_cons, List.not_mem_nil, or_false] at mem
  obtain rfl | rfl | rfl := mem
  · exact blank
  · exact comments
  · exact tab

end Scriptlet
