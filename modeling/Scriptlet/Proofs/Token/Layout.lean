import Scriptlet.Proofs.Token.Lexer

namespace Scriptlet

namespace Token

inductive Gap (after : List Char) : List Char → Prop
  | nil : Gap after []
  | blank {c : Char} {gap : List Char} (blank : Text.isBlank c = true) (more : Gap after gap) : Gap after (c :: gap)
  | comment {body gap : List Char} (line : '\n' ∉ body) (ends : ∀ c ∈ (gap ++ after).head?, c = '\n')
      (more : Gap after gap) : Gap after ('/' :: '/' :: (body ++ gap))

structure Solid (text : List Char) : Prop where
  blank : ∀ c ∈ text.head?, Text.isBlank c = false
  comment : ∀ rest, text ≠ '/' :: '/' :: rest

section Gap

variable {gap after body more : List Char}

theorem gapLength_comment (line : '\n' ∉ body) (ends : ∀ c ∈ more.head?, c = '\n') :
    gapLength true (body ++ more) = body.length + gapLength false more := by
  have inside : ∀ c ∈ body, (c != '\n') = true := fun c mem => bne_iff_ne.2 fun same => line (same ▸ mem)
  have stop : more.takeWhile (· != '\n') = [] := by
    cases more with
    | nil => rfl
    | cons c rest => simp [ends c rfl]
  rw [gapLength_line, List.takeWhile_append_of_pos inside, stop, List.append_nil, List.drop_left]

theorem gapLength_of_solid (solid : Solid after) : gapLength false after = 0 := by
  cases after with
  | nil => rfl
  | cons c rest =>
    refine gapLength_eq_zero (solid.blank c rfl) fun first second => ?_
    obtain ⟨tail, rfl⟩ := List.head?_eq_some_iff.1 second
    exact solid.comment tail (by rw [first])

theorem solid_quote (rest : List Char) : Solid ('"' :: rest) := by
  refine ⟨fun c head => ?_, nofun⟩
  cases head
  decide

theorem gapLength_of_gap (h : Gap after gap) (solid : Solid after) : gapLength false (gap ++ after) = gap.length := by
  induction h with
  | nil => exact gapLength_of_solid solid
  | blank blank more ih =>
    rw [List.cons_append, gapLength, if_neg Bool.false_ne_true, if_pos blank, ih, List.length_cons, Nat.add_comm]
  | @comment body gap line ends more ih =>
    rw [List.cons_append, List.cons_append, List.append_assoc, gapLength_slashes, gapLength_comment line ends, ih, List.length_cons,
      List.length_cons, List.length_append]
    omega

theorem exists_gap (text : List Char) : ∃ gap after, text = gap ++ after ∧ Gap after gap ∧ Solid after := by
  -- by the length of the text, since a comment is passed over at once
  induction size : text.length using Nat.strong_induction_on generalizing text with
  | _ n ih =>
    subst size
    cases text with
    | nil => exact ⟨[], [], rfl, .nil, nofun, nofun⟩
    | cons c rest =>
      by_cases blank : Text.isBlank c = true
      · obtain ⟨gap, after, rfl, found, solid⟩ := ih rest.length (Nat.lt_succ_self _) rest rfl
        exact ⟨c :: gap, after, rfl, .blank blank found, solid⟩
      by_cases slashes : ∃ tail, c :: rest = '/' :: '/' :: tail
      · obtain ⟨tail, same⟩ := slashes
        rw [same] at ih ⊢
        obtain ⟨gap, after, split, found, solid⟩ := ih (tail.dropWhile (· != '\n')).length
          (by have := (List.dropWhile_suffix (l := tail) (· != '\n')).length_le; simp only [List.length_cons]; omega) _ rfl
        have line : '\n' ∉ tail.takeWhile (· != '\n') := fun mem => absurd (List.mem_takeWhile_imp mem) (by decide)
        have ends : ∀ c ∈ (gap ++ after).head?, c = '\n' := by
          intro c head
          have stop := List.head?_dropWhile_not (· != '\n') tail
          rw [split, head] at stop
          simpa using stop
        refine ⟨'/' :: '/' :: (tail.takeWhile (· != '\n') ++ gap), after, ?_, .comment line ends found, solid⟩
        rw [List.cons_append, List.cons_append, List.append_assoc, ← split, List.takeWhile_append_dropWhile]
      · refine ⟨[], c :: rest, rfl, .nil, fun d head => ?_, fun tail same => slashes ⟨tail, same⟩⟩
        obtain rfl : c = d := Option.some.inj head
        exact Bool.eq_false_iff.2 blank

end Gap

/-- What a token carries: the nearest number of the machine to its decimal, or the text between its quotes. -/
inductive Carries : Kind → List Char → Option Payload → Prop
  | whole {digits : List Char} {value : Float} (numeral : IsNumeral digits)
      (rounds : Decimal.Rounds (Decimal.magnitude digits []) value) : Carries .number digits (some (.number value))
  | decimal {digits fraction : List Char} {value : Float} (numeral : IsNumeral digits) (numeral' : IsNumeral fraction)
      (rounds : Decimal.Rounds (Decimal.magnitude digits fraction) value) :
      Carries .number (digits ++ '.' :: fraction) (some (.number value))
  | quoted {content : List Char} : Carries .text ('"' :: content ++ ['"']) (some (.text (String.ofList content)))
  | nothing {kind : Kind} {lexeme : List Char} (number : kind ≠ .number) (text : kind ≠ .text) : Carries kind lexeme none

section Carries

variable {kind : Kind} {lexeme : List Char} {payload : Option Payload}

theorem carries_payload? (h : Lexeme kind lexeme) : Carries kind lexeme (payload? kind lexeme) := by
  have plain (number : kind ≠ .number) (text : kind ≠ .text) : Carries kind lexeme (payload? kind lexeme) := by
    rw [payload?_none number text]
    exact .nothing number text
  cases h with
  | symbol listed => exact plain (symbols_plain _ listed).1 (symbols_plain _ listed).2
  | whole numeral =>
    rw [payload?, numberValue_whole numeral]
    exact .whole numeral (Decimal.rounds_ofParts _ _)
  | decimal numeral numeral' =>
    rw [payload?, numberValue_decimal numeral]
    exact .decimal numeral numeral' (Decimal.rounds_ofParts _ _)
  | quoted plain =>
    rw [payload?_quoted]
    exact .quoted
  | keyword listed => exact plain (keywords_plain _ listed).1 (keywords_plain _ listed).2
  | identifier => exact plain (by decide) (by decide)

theorem Carries.eq_payload? (h : Carries kind lexeme payload) : payload = payload? kind lexeme := by
  cases h with
  | whole numeral rounds => rw [payload?, numberValue_whole numeral, rounds.unique (Decimal.rounds_ofParts _ _)]
  | decimal numeral numeral' rounds => rw [payload?, numberValue_decimal numeral, rounds.unique (Decimal.rounds_ofParts _ _)]
  | quoted => exact (payload?_quoted _).symm
  | nothing number text => exact (payload?_none number text).symm

end Carries

end Token

open Token

/-- How a text is laid out from a position on: gaps, and between them tokens and faults. A text that lacks its closing quote
comes last before the end mark. -/
inductive Layout : Position → List Char → List Item → Prop
  | done {p : Position} {gap : List Char} (blank : Gap [] gap) :
      Layout p gap [.token ⟨.endMark, "", none, p.advanceAll gap⟩]
  | token {p : Position} {gap lexeme rest : List Char} {kind : Kind} {payload : Option Payload} {items : List Item}
      (blank : Gap (lexeme ++ rest) gap) (solid : Solid (lexeme ++ rest)) (longest : Longest kind lexeme (lexeme ++ rest))
      (carries : Carries kind lexeme payload) (more : Layout (p.advanceAll (gap ++ lexeme)) rest items) :
      Layout p (gap ++ (lexeme ++ rest)) (.token ⟨kind, String.ofList lexeme, payload, p.advanceAll gap⟩ :: items)
  | unexpected {p : Position} {gap rest : List Char} {c : Char} {items : List Item}
      (blank : Gap (c :: rest) gap) (solid : Solid (c :: rest))
      (none : ∀ kind lexeme, Lexeme kind lexeme → ¬lexeme <+: c :: rest) (unquoted : c ≠ '"')
      (more : Layout (p.advanceAll (gap ++ [c])) rest items) :
      Layout p (gap ++ c :: rest) (.fault (.unexpected c (p.advanceAll gap)) :: items)
  | unterminated {p : Position} {gap rest : List Char} (blank : Gap ('"' :: rest) gap) (plain : '"' ∉ rest) :
      Layout p (gap ++ '"' :: rest)
        [.fault (.unterminated (p.advanceAll gap)), .token ⟨.endMark, "", none, p.advanceAll (gap ++ '"' :: rest)⟩]

theorem exists_layout (p : Position) (text : List Char) : ∃ items, Layout p text items := by
  induction size : text.length using Nat.strong_induction_on generalizing p text with
  | _ n ih =>
    subst size
    obtain ⟨gap, after, rfl, blank, solid⟩ := exists_gap text
    have stands := stands_front after
    generalize front after = shape at stands
    cases stands with
    | nothing =>
      rw [List.append_nil]
      exact ⟨_, .done blank⟩
    | token longest =>
      have pos := front_token_pos longest.front
      obtain ⟨rest, rfl⟩ := longest.opens
      obtain ⟨items, more⟩ := ih rest.length (by simp only [List.length_append]; omega) _ rest rfl
      exact ⟨_, .token blank solid longest (carries_payload? longest.valid) more⟩
    | @unexpected c rest none unquoted =>
      obtain ⟨items, more⟩ := ih rest.length (by simp only [List.length_append, List.length_cons]; omega) _ rest rfl
      exact ⟨_, .unexpected blank solid none unquoted more⟩
    | unterminated plain => exact ⟨_, .unterminated blank plain⟩

namespace Source

theorem next_of_gap {gap after : List Char} (blank : Gap after gap) (solid : Solid after) (p : Position) :
    next ⟨p, gap ++ after⟩ = readFront ⟨p.advanceAll gap, after⟩ := by
  rw [next, skipGap, gapLength_of_gap blank solid, advance_append]

theorem next_done {gap : List Char} (blank : Gap [] gap) (p : Position) :
    next ⟨p, gap⟩ = (.token ⟨.endMark, "", none, p.advanceAll gap⟩, ⟨p.advanceAll gap, []⟩) := by
  have found := next_of_gap blank ⟨nofun, nofun⟩ p
  rwa [List.append_nil] at found

theorem next_token {gap lexeme rest : List Char} {kind : Kind} {payload : Option Payload} (blank : Gap (lexeme ++ rest) gap)
    (solid : Solid (lexeme ++ rest)) (longest : Longest kind lexeme (lexeme ++ rest)) (carries : Carries kind lexeme payload)
    (p : Position) :
    next ⟨p, gap ++ (lexeme ++ rest)⟩ =
      (.token ⟨kind, String.ofList lexeme, payload, p.advanceAll gap⟩, ⟨p.advanceAll (gap ++ lexeme), rest⟩) := by
  rw [next_of_gap blank solid, readFront, longest.front]
  simp only [tokenOf, List.take_left, ← carries.eq_payload?, advance_append, ← Position.advanceAll_append]

theorem next_unexpected {gap rest : List Char} {c : Char} (blank : Gap (c :: rest) gap) (solid : Solid (c :: rest))
    (none : ∀ kind lexeme, Lexeme kind lexeme → ¬lexeme <+: c :: rest) (unquoted : c ≠ '"') (p : Position) :
    next ⟨p, gap ++ c :: rest⟩ = (.fault (.unexpected c (p.advanceAll gap)), ⟨p.advanceAll (gap ++ [c]), rest⟩) := by
  rw [next_of_gap blank solid, readFront, front_unexpected none unquoted, Position.advanceAll_append]
  rfl

theorem next_unterminated {gap rest : List Char} (blank : Gap ('"' :: rest) gap) (plain : '"' ∉ rest) (p : Position) :
    next ⟨p, gap ++ '"' :: rest⟩ =
      (.fault (.unterminated (p.advanceAll gap)), ⟨p.advanceAll (gap ++ '"' :: rest), []⟩) := by
  have behind := advance_append (p.advanceAll gap) ('"' :: rest) []
  rw [List.append_nil, ← Position.advanceAll_append] at behind
  rw [next_of_gap blank (solid_quote rest), readFront, front_unclosed plain, ← behind]

theorem items_cons {s s' : Source} {item : Item} (step : s.next = (item, s')) (goes : item.isEnd = false) :
    s.items = item :: s'.items := by
  rw [items, step, dif_pos goes]

theorem items_done {s s' : Source} {item : Item} (step : s.next = (item, s')) (ends : item.isEnd = true) :
    s.items = [item] := by
  rw [items, step, dif_neg (by rw [ends]; decide)]

end Source

theorem Layout.eq_items {p : Position} {text : List Char} {items : List Item} (h : Layout p text items) :
    items = Source.items ⟨p, text⟩ := by
  induction h with
  | done blank => rw [Source.items_done (Source.next_done blank _) rfl]
  | token blank solid longest carries more ih =>
    have inside := beq_eq_false_iff_ne.2 (front_ne_endMark longest.front)
    rw [Source.items_cons (Source.next_token blank solid longest carries _) inside, ih]
  | unexpected blank solid none unquoted more ih =>
    rw [Source.items_cons (Source.next_unexpected blank solid none unquoted _) rfl, ih]
  | unterminated blank plain =>
    rw [Source.items_cons (Source.next_unterminated blank plain _) rfl, Source.items_done (Source.next_done .nil _) rfl]
    rfl

theorem Layout.lexeme {p : Position} {text : List Char} {items : List Item} (h : Layout p text items) {t : Token}
    (mem : .token t ∈ items) :
    t.payload = payload? t.kind t.lexeme.toList ∧ (t.kind ≠ .endMark → Lexeme t.kind t.lexeme.toList) := by
  have last (p : Position) {t : Token} (same : Item.token t = .token ⟨.endMark, "", none, p⟩) :
      t.payload = payload? t.kind t.lexeme.toList ∧ (t.kind ≠ .endMark → Lexeme t.kind t.lexeme.toList) := by
    cases same
    exact ⟨rfl, fun inside => absurd rfl inside⟩
  induction h with
  | done blank => exact last _ (List.mem_singleton.1 mem)
  | token blank solid longest carries more ih =>
    obtain same | mem := List.mem_cons.1 mem
    · cases same
      rw [String.toList_ofList]
      exact ⟨carries.eq_payload?, fun _ => longest.valid⟩
    · exact ih mem
  | unexpected blank solid none unquoted more ih =>
    obtain same | mem := List.mem_cons.1 mem
    · cases same
    · exact ih mem
  | unterminated blank plain =>
    obtain same | mem := List.mem_cons.1 mem
    · cases same
    · exact last _ (List.mem_singleton.1 mem)

theorem layout_items (text : String) : Layout .start text.toList (Source.ofString text).items := by
  obtain ⟨items, layout⟩ := exists_layout .start text.toList
  exact layout.eq_items ▸ layout

theorem token_mem_items {text : String} {t : Token} (mem : t ∈ (scan text).tokens) :
    .token t ∈ (Source.ofString text).items := by
  rw [scan_tokens] at mem
  obtain ⟨item, mem, found⟩ := List.mem_filterMap.1 mem
  cases item with
  | token t' =>
    cases found
    exact mem
  | fault => cases found

theorem lexeme_of_mem {text : String} {t : Token} (mem : t ∈ (scan text).tokens) :
    t.payload = payload? t.kind t.lexeme.toList ∧ (t.kind ≠ .endMark → Lexeme t.kind t.lexeme.toList) :=
  (layout_items text).lexeme (token_mem_items mem)

/-- A text is laid out in one way only, and that is what scanning finds: no character is lost, gaps and lexemes are as long as
they can be, and no number fails to be read. -/
theorem scan_layout (text : String) :
    ∃ items, Layout .start text.toList items ∧ (∀ other, Layout .start text.toList other → other = items) ∧
      (scan text).tokens = items.filterMap Item.token? ∧ (scan text).faults = items.filterMap Item.fault? ∧
      ∀ t ∈ (scan text).tokens, t.kind = .number →
        ∃ value, Decimal.read? t.lexeme = some value ∧ t.payload = some (.number value) := by
  refine ⟨_, layout_items text, fun other layout => layout.eq_items, scan_tokens text, scan_faults text, fun t mem number => ?_⟩
  obtain ⟨carried, valid⟩ := lexeme_of_mem mem
  rw [number] at valid carried
  have read := (valid nofun).read?
  rw [String.ofList_toList] at read
  exact ⟨_, read, carried⟩

end Scriptlet
