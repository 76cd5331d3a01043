import Scriptlet.Proofs.Token.Join

namespace Scriptlet

namespace Text

variable {c : Char}

theorem isLetter_bounds (letter : isLetter c = true) : 65 ≤ c.toNat ∧ c.toNat ≤ 122 := by
  have split : ((c.isUpper || c.isLower) || c == '_') = true := letter
  rw [Bool.or_eq_true, Bool.or_eq_true, beq_iff_eq] at split
  obtain (upper | lower) | rfl := split
  · have ⟨low, high⟩ : 'A'.toNat ≤ c.toNat ∧ c.toNat ≤ 'Z'.toNat := of_decide_eq_true upper
    exact ⟨low, Nat.le_trans high (by decide)⟩
  · have ⟨low, high⟩ := Bool.and_eq_true_iff.1 lower
    have low : 'a'.toNat ≤ c.toNat := of_decide_eq_true low
    exact ⟨Nat.le_trans (by decide) low, of_decide_eq_true high⟩
  · decide

theorem isDigit_bounds (digit : isDigit c = true) : 48 ≤ c.toNat ∧ c.toNat ≤ 57 :=
  Char.isDigit_iff_toNat.1 digit

theorem isDigit_of_isLetter (letter : isLetter c = true) : isDigit c = false := by
  rw [Bool.eq_false_iff]
  intro digit
  have := isLetter_bounds letter
  have := isDigit_bounds digit
  omega

theorem isWordPart_bounds (part : isWordPart c = true) : 48 ≤ c.toNat ∧ c.toNat ≤ 122 := by
  obtain letter | digit := Bool.or_eq_true_iff.1 part
  · have := isLetter_bounds letter
    omega
  · have := isDigit_bounds digit
    omega

theorem isWordPart_of_isBlank (blank : isBlank c = true) : isWordPart c = false := by
  have outside : ∀ range ∈ blankRanges, range.2 < 48 ∨ 122 < range.1 := by decide
  obtain ⟨range, mem, within⟩ := List.any_eq_true.1 blank
  simp only [Bool.and_eq_true, decide_eq_true_eq] at within
  rw [Bool.eq_false_iff]
  intro part
  have := outside range mem
  have := isWordPart_bounds part
  omega

theorem ne_of_isBlank {d : Char} (blank : isBlank c = true) (solid : isBlank d = false) : c ≠ d := by
  rintro rfl
  rw [blank] at solid
  cases solid

end Text

namespace Token

/-- Operators and punctuation, the longer ones first. -/
def symbols : List (List Char × Kind) :=
  [(['=', '='], .equal), (['!', '='], .notEqual), (['>', '='], .greaterEqual), (['<', '='], .lessEqual),
    (['='], .assign), (['!'], .not), (['>'], .greater), (['<'], .less),
    (['('], .leftParen), ([')'], .rightParen), (['{'], .leftBrace), (['}'], .rightBrace),
    (['['], .leftSquare), ([']'], .rightSquare), (['.'], .dot), ([','], .comma), ([';'], .semicolon),
    (['+'], .plus), (['-'], .minus), (['*'], .times), (['/'], .divide)]

def keywords : List (String × Kind) :=
  [("and", .andWord), ("else", .elseWord), ("false", .falseWord), ("for", .forWord), ("fun", .funWord), ("if", .ifWord),
    ("nil", .nilWord), ("or", .orWord), ("print", .printWord), ("return", .returnWord), ("true", .trueWord),
    ("var", .varWord), ("while", .whileWord)]

def IsNumeral (digits : List Char) : Prop :=
  digits ≠ [] ∧ ∀ c ∈ digits, Text.isDigit c = true

def IsWord (word : List Char) : Prop :=
  ∃ c rest, word = c :: rest ∧ Text.isLetter c = true ∧ ∀ d ∈ rest, Text.isWordPart d = true

/-- The grammar of tokens. -/
inductive Lexeme : Kind → List Char → Prop
  | symbol {kind : Kind} {signs : List Char} (listed : (signs, kind) ∈ symbols) : Lexeme kind signs
  | whole {digits : List Char} (numeral : IsNumeral digits) : Lexeme .number digits
  | decimal {digits fraction : List Char} (numeral : IsNumeral digits) (numeral' : IsNumeral fraction) :
      Lexeme .number (digits ++ '.' :: fraction)
  | quoted {content : List Char} (plain : '"' ∉ content) : Lexeme .text ('"' :: content ++ ['"'])
  | keyword {kind : Kind} {word : List Char} (listed : (String.ofList word, kind) ∈ keywords) : Lexeme kind word
  | identifier {word : List Char} (parts : IsWord word) (free : ∀ kind, (String.ofList word, kind) ∉ keywords) :
      Lexeme .identifier word

theorem symbol?_eq (text : List Char) :
    symbol? text = (symbols.find? fun entry => entry.1.isPrefixOf text).map fun entry => (entry.2, entry.1.length) := by
  fun_cases symbol? text
  case case22 =>
    cases text with
    | nil => rfl
    | cons c rest =>
      rw [eq_comm, Option.map_eq_none_iff, List.find?_eq_none]
      simp_all [symbols, @eq_comm _ _ c]
  case case5 tail other | case6 tail other | case7 tail other | case8 tail other =>
    cases tail with
    | nil => rfl
    | cons d tail =>
      have apart : d ≠ '=' := fun same => other tail (same ▸ rfl)
      simp [symbols, List.isPrefixOf, apart.symm]
  all_goals rfl

theorem symbols_unique : ∀ entry ∈ symbols, ∀ other ∈ symbols, entry.1 = other.1 → entry.2 = other.2 := by decide

theorem symbols_plain : ∀ entry ∈ symbols, entry.2 ≠ .number ∧ entry.2 ≠ .text := by decide

theorem symbols_descending : symbols.Pairwise fun entry later => later.1.length ≤ entry.1.length := by decide

section Symbol

variable {text signs : List Char} {kind : Kind} {n : Nat}

theorem head_of_mem_symbols (listed : (signs, kind) ∈ symbols) :
    ∃ c rest, signs = c :: rest ∧ Text.isWordPart c = false ∧ c ≠ '"' := by
  have all : ∀ entry ∈ symbols, (entry.1.head?.any fun c => !Text.isWordPart c && c != '"') = true := by decide
  have here := all _ listed
  cases signs with
  | nil => cases here
  | cons c rest => exact ⟨c, rest, rfl, by simpa using here⟩

theorem isBlank_of_mem_symbols (listed : (signs, kind) ∈ symbols) {c : Char} (mem : c ∈ signs) : Text.isBlank c = false := by
  have all : ∀ entry ∈ symbols, (entry.1.all fun c => !Text.isBlank c) = true := by decide
  simpa using List.all_eq_true.1 (all _ listed) c mem

theorem symbol?_sound (h : symbol? text = some (kind, n)) :
    ∃ signs, (signs, kind) ∈ symbols ∧ signs <+: text ∧ signs.length = n := by
  rw [symbol?_eq, Option.map_eq_some_iff] at h
  obtain ⟨⟨signs, kind⟩, found, same⟩ := h
  cases same
  have opens := (List.find?_eq_some_iff_append.1 found).1
  exact ⟨signs, List.mem_of_find?_eq_some found, List.isPrefixOf_iff_prefix.1 opens, rfl⟩

theorem symbol?_complete (listed : (signs, kind) ∈ symbols) (opens : signs <+: text) :
    ∃ k n, symbol? text = some (k, n) ∧ signs.length ≤ n := by
  rw [symbol?_eq]
  cases found : symbols.find? fun entry => entry.1.isPrefixOf text with
  | none => exact absurd (List.isPrefixOf_iff_prefix.2 opens) (List.find?_eq_none.1 found _ listed)
  | some entry =>
    refine ⟨entry.2, entry.1.length, rfl, ?_⟩
    obtain ⟨-, before, after, split, passed⟩ := List.find?_eq_some_iff_append.1 found
    have descending := symbols_descending
    rw [split] at listed descending
    obtain mem | mem := List.mem_append.1 listed
    · exact absurd (passed _ mem) (by simpa using opens)
    · obtain rfl | mem := List.mem_cons.1 mem
      · exact Nat.le_refl _
      · exact (List.pairwise_cons.1 (List.pairwise_append.1 descending).2.1).1 _ mem

theorem symbol?_none {c : Char} (apart : Text.isWordPart c = true ∨ c = '"') (rest : List Char) :
    symbol? (c :: rest) = none := by
  cases found : symbol? (c :: rest) with
  | none => rfl
  | some symbol =>
    obtain ⟨signs, listed, ⟨more, split⟩, -⟩ := symbol?_sound found
    obtain ⟨d, tail, rfl, other, unquoted⟩ := head_of_mem_symbols listed
    obtain rfl : d = c := (List.cons.inj split).1
    obtain part | quote := apart
    · rw [part] at other
      cases other
    · exact absurd quote unquoted

end Symbol

section Number

variable {c : Char} {digits fraction : List Char} (more : List Char)

theorem front_digit (digit : Text.isDigit c = true) (rest : List Char) :
    front (c :: rest) = .token .number (numberLength (c :: rest)) := by
  have part : Text.isWordPart c = true := by rw [Text.isWordPart, digit, Bool.or_true]
  have unquoted : (c == '"') = false := by
    rw [beq_eq_false_iff_ne]
    rintro rfl
    cases digit
  rw [front, symbol?_none (.inl part), longFront, if_neg (by rw [unquoted]; decide), if_pos digit]

theorem front_numeral (h : IsNumeral digits) :
    front (digits ++ more) = .token .number
      (digits.length + ((more.takeWhile Text.isDigit).length + fractionLength (more.dropWhile Text.isDigit))) := by
  obtain ⟨nonempty, all⟩ := h
  have length : numberLength (digits ++ more) =
      digits.length + ((more.takeWhile Text.isDigit).length + fractionLength (more.dropWhile Text.isDigit)) := by
    rw [numberLength, List.takeWhile_append_of_pos all, List.dropWhile_append_of_pos all, List.length_append, Nat.add_assoc]
  rw [← length]
  obtain ⟨c, rest, rfl⟩ := List.exists_cons_of_ne_nil nonempty
  exact front_digit (all c List.mem_cons_self) _

theorem fractionLength_numeral (h : IsNumeral fraction) :
    fractionLength ('.' :: (fraction ++ more)) = 1 + fraction.length + (more.takeWhile Text.isDigit).length := by
  obtain ⟨nonempty, all⟩ := h
  obtain ⟨d, rest, rfl⟩ := List.exists_cons_of_ne_nil nonempty
  obtain ⟨digit, all⟩ := List.forall_mem_cons.1 all
  rw [List.cons_append, fractionLength, if_pos digit, List.takeWhile_append_of_pos all, List.length_append,
    List.length_cons]
  omega

theorem front_decimal (h : IsNumeral digits) (h' : IsNumeral fraction) :
    front (digits ++ '.' :: fraction ++ more) =
      .token .number ((digits ++ '.' :: fraction).length + (more.takeWhile Text.isDigit).length) := by
  have point : Text.isDigit '.' = false := by decide
  rw [List.append_assoc, List.cons_append, front_numeral _ h, List.takeWhile_cons, List.dropWhile_cons, point]
  simp only [Bool.false_eq_true, if_false, List.length_nil, fractionLength_numeral _ h', List.length_append, List.length_cons]
  congr 1
  omega

theorem exists_numeral (digit : Text.isDigit c = true) (rest : List Char) :
    ∃ lexeme, Lexeme .number lexeme ∧ lexeme <+: c :: rest ∧ lexeme.length = numberLength (c :: rest) := by
  have numeral : IsNumeral ((c :: rest).takeWhile Text.isDigit) :=
    ⟨by rw [List.takeWhile_cons, if_pos digit]; exact List.cons_ne_nil _ _, fun d mem => List.mem_takeWhile_imp mem⟩
  have split := List.takeWhile_append_dropWhile (p := Text.isDigit) (l := c :: rest)
  rw [numberLength]
  generalize (c :: rest).takeWhile Text.isDigit = digits at numeral split ⊢
  generalize (c :: rest).dropWhile Text.isDigit = behind at split ⊢
  rw [← split]
  fun_cases fractionLength behind with
  | case1 d tail digit' =>
    have numeral' : IsNumeral (d :: tail.takeWhile Text.isDigit) :=
      ⟨List.cons_ne_nil _ _, List.forall_mem_cons.2 ⟨digit', fun e mem => List.mem_takeWhile_imp mem⟩⟩
    refine ⟨_, .decimal numeral numeral', ?_, by simp; omega⟩
    rw [List.prefix_append_right_inj, List.cons_prefix_cons, List.cons_prefix_cons]
    exact ⟨rfl, rfl, List.takeWhile_prefix _⟩
  | case2 => exact ⟨digits, .whole numeral, List.prefix_append _ _, rfl⟩
  | case3 => exact ⟨digits, .whole numeral, List.prefix_append _ _, rfl⟩

end Number

section Word

theorem keywords_plain : ∀ entry ∈ keywords, entry.2 ≠ .number ∧ entry.2 ≠ .text := by decide

theorem ofWord_of_mem : ∀ entry ∈ keywords, Kind.ofWord entry.1 = entry.2 := by decide

theorem ofWord_cases (word : String) :
    (word, Kind.ofWord word) ∈ keywords ∨ Kind.ofWord word = .identifier ∧ ∀ kind, (word, kind) ∉ keywords := by
  unfold Kind.ofWord
  split
  case h_14 => right; simp_all [keywords]
  all_goals left; decide

variable {c : Char} {word : List Char} (more : List Char)

theorem isWord_of_mem {kind : Kind} (listed : (String.ofList word, kind) ∈ keywords) : IsWord word := by
  have all : ∀ entry ∈ keywords,
      (entry.1.toList.head?.any Text.isLetter && entry.1.toList.tail.all Text.isWordPart) = true := by decide
  have here := all _ listed
  rw [String.toList_ofList] at here
  cases word with
  | nil => cases here
  | cons c rest =>
    obtain ⟨letter, parts⟩ := Bool.and_eq_true_iff.1 here
    exact ⟨c, rest, rfl, letter, List.all_eq_true.1 parts⟩

theorem Lexeme.of_isWord (h : IsWord word) : Lexeme (.ofWord (String.ofList word)) word := by
  obtain listed | ⟨other, free⟩ := ofWord_cases (String.ofList word)
  · exact .keyword listed
  · rw [other]
    exact .identifier h free

theorem front_letter (letter : Text.isLetter c = true) (rest : List Char) :
    front (c :: rest) =
      .token (.ofWord (String.ofList ((c :: rest).takeWhile Text.isWordPart))) (wordLength (c :: rest)) := by
  have part : Text.isWordPart c = true := by rw [Text.isWordPart, letter, Bool.true_or]
  have unquoted : (c == '"') = false := by
    rw [beq_eq_false_iff_ne]
    rintro rfl
    cases letter
  have digit := Text.isDigit_of_isLetter letter
  rw [front, symbol?_none (.inl part), longFront, if_neg (by rw [unquoted]; decide), if_neg (by rw [digit]; decide),
    if_pos letter, wordLength, ← List.prefix_iff_eq_take.1 (List.takeWhile_prefix _)]

theorem front_word (h : IsWord word) :
    front (word ++ more) = .token (.ofWord (String.ofList (word ++ more.takeWhile Text.isWordPart)))
      (word.length + (more.takeWhile Text.isWordPart).length) := by
  obtain ⟨c, rest, rfl, letter, parts⟩ := h
  have all : ∀ d ∈ c :: rest, Text.isWordPart d = true :=
    List.forall_mem_cons.2 ⟨by rw [Text.isWordPart, letter, Bool.true_or], parts⟩
  rw [List.cons_append, front_letter letter, wordLength, ← List.cons_append, List.takeWhile_append_of_pos all,
    List.length_append]

theorem isWord_takeWhile (letter : Text.isLetter c = true) (rest : List Char) :
    IsWord ((c :: rest).takeWhile Text.isWordPart) := by
  have part : Text.isWordPart c = true := by rw [Text.isWordPart, letter, Bool.true_or]
  rw [List.takeWhile_cons, if_pos part]
  exact ⟨c, _, rfl, letter, fun d mem => List.mem_takeWhile_imp mem⟩

end Word

section Quoted

variable {content rest : List Char} (more : List Char)

theorem takeWhile_quote (plain : '"' ∉ content) :
    (content ++ more).takeWhile (· != '"') = content ++ more.takeWhile (· != '"') :=
  List.takeWhile_append_of_pos fun c mem => by
    rw [bne_iff_ne]
    rintro rfl
    exact plain mem

theorem front_quote (rest : List Char) :
    front ('"' :: rest) = match quotedLength? ('"' :: rest) with
      | some length => .token .text length
      | none => .unterminated := by
  rw [front, symbol?_none (.inr rfl)]
  rfl

theorem front_quoted (plain : '"' ∉ content) :
    front ('"' :: content ++ ['"'] ++ more) = .token .text ('"' :: content ++ ['"']).length := by
  have found : quotedLength? ('"' :: (content ++ '"' :: more)) = some (content.length + 2) := by
    have quote : ('"' :: more).takeWhile (· != '"') = [] := rfl
    rw [quotedLength?, List.drop_one, List.tail_cons, takeWhile_quote _ plain, quote, List.append_nil, if_pos (by simp)]
  have shape : '"' :: content ++ ['"'] ++ more = '"' :: (content ++ '"' :: more) := by simp
  rw [shape, front_quote, found]
  simp

theorem front_unclosed (plain : '"' ∉ rest) : front ('"' :: rest) = .unterminated := by
  have none : quotedLength? ('"' :: rest) = none := by
    have whole := takeWhile_quote [] plain
    rw [List.append_nil, List.takeWhile_nil, List.append_nil] at whole
    rw [quotedLength?, List.drop_one, List.tail_cons, whole, if_neg (by simp)]
  rw [front_quote, none]

theorem quote_cases (rest : List Char) :
    (∃ content more, '"' ∉ content ∧ rest = content ++ '"' :: more) ∨ '"' ∉ rest := by
  by_cases mem : '"' ∈ rest
  · obtain ⟨content, more, same, plain⟩ := List.eq_append_cons_of_mem mem
    exact .inl ⟨content, more, plain, same⟩
  · exact .inr mem

end Quoted

section Front

variable {text lexeme more : List Char} {kind : Kind} {n : Nat}

theorem Lexeme.exists_front (h : Lexeme kind lexeme) (opens : lexeme <+: text) :
    ∃ k n, front text = .token k n ∧ lexeme.length ≤ n := by
  obtain ⟨more, rfl⟩ := opens
  cases h with
  | symbol listed =>
    obtain ⟨k, n, found, long⟩ := symbol?_complete listed (List.prefix_append lexeme more)
    obtain ⟨c, rest, rfl, -⟩ := head_of_mem_symbols listed
    rw [List.cons_append] at found ⊢
    exact ⟨k, n, by rw [front, found], long⟩
  | whole numeral => exact ⟨_, _, front_numeral more numeral, Nat.le_add_right _ _⟩
  | decimal numeral numeral' => exact ⟨_, _, front_decimal more numeral numeral', Nat.le_add_right _ _⟩
  | quoted plain => exact ⟨_, _, front_quoted more plain, Nat.le_refl _⟩
  | keyword listed => exact ⟨_, _, front_word more (isWord_of_mem listed), Nat.le_add_right _ _⟩
  | identifier parts free => exact ⟨_, _, front_word more parts, Nat.le_add_right _ _⟩

theorem symbol?_cut {signs : List Char} (listed : (signs, kind) ∈ symbols) (cut : ∀ c ∈ more.head?, Text.isBlank c = true) :
    symbol? (signs ++ more) = some (kind, signs.length) := by
  obtain ⟨k, n, found, long⟩ := symbol?_complete listed (List.prefix_append signs more)
  obtain ⟨other, listed', opens, rfl⟩ := symbol?_sound found
  obtain ⟨tail, rfl⟩ := List.prefix_of_prefix_length_le (List.prefix_append signs more) opens long
  cases tail with
  | nil =>
    rw [List.append_nil] at listed' found
    obtain rfl : k = kind := symbols_unique _ listed' _ listed rfl
    exact found
  | cons c tail =>
    -- a longer symbol would contain the blank
    rw [List.prefix_append_right_inj] at opens
    obtain ⟨rest, rfl⟩ := opens
    have solid := isBlank_of_mem_symbols listed' (c := c) (by simp)
    rw [cut c rfl] at solid
    cases solid

def Ends (more : List Char) : Prop :=
  ∀ c ∈ more.head?, Text.isWordPart c = false ∧ c ≠ '.'

theorem Ends.of_cut (cut : ∀ c ∈ more.head?, Text.isBlank c = true) : Ends more := fun c mem =>
  ⟨Text.isWordPart_of_isBlank (cut c mem), Text.ne_of_isBlank (cut c mem) (by decide)⟩

/-- Before such a text, all lexemes but symbols are found as they are. -/
theorem Lexeme.front_ends (h : Lexeme kind lexeme) (other : (lexeme, kind) ∉ symbols) (ends : Ends more) :
    front (lexeme ++ more) = .token kind lexeme.length := by
  have takeWhile {p : Char → Bool} (stops : ∀ c, Text.isWordPart c = false → p c = false) : more.takeWhile p = [] := by
    cases more with
    | nil => rfl
    | cons c rest => rw [List.takeWhile_cons, stops c (ends c rfl).1, if_neg Bool.false_ne_true]
  have digits := takeWhile fun c part => (Bool.or_eq_false_iff.1 part).2
  have parts := takeWhile fun c part => part
  have word (parts' : IsWord lexeme) :
      front (lexeme ++ more) = .token (.ofWord (String.ofList lexeme)) lexeme.length := by
    rw [front_word more parts', parts, List.append_nil, List.length_nil, Nat.add_zero]
  cases h with
  | symbol listed => exact absurd listed other
  | whole numeral =>
    have rest : more.dropWhile Text.isDigit = more := by
      have split := List.takeWhile_append_dropWhile (p := Text.isDigit) (l := more)
      rwa [digits] at split
    have none : fractionLength more = 0 := by
      unfold fractionLength
      split
      · exact absurd rfl (ends _ rfl).2
      · rfl
    rw [front_numeral more numeral, digits, rest, none]
    rfl
  | decimal numeral numeral' =>
    rw [front_decimal more numeral numeral', digits]
    rfl
  | quoted plain => exact front_quoted more plain
  | keyword listed =>
    rw [word (isWord_of_mem listed), ofWord_of_mem _ listed]
  | identifier parts' free =>
    obtain listed | ⟨other, -⟩ := ofWord_cases (String.ofList lexeme)
    · exact absurd listed (free _)
    · rw [word parts', other]

theorem Lexeme.front_cut (h : Lexeme kind lexeme) (cut : ∀ c ∈ more.head?, Text.isBlank c = true) :
    front (lexeme ++ more) = .token kind lexeme.length := by
  by_cases listed : (lexeme, kind) ∈ symbols
  · have found := symbol?_cut listed cut
    obtain ⟨c, rest, rfl, -⟩ := head_of_mem_symbols listed
    rw [List.cons_append] at found ⊢
    rw [front, found]
  · exact h.front_ends listed (.of_cut cut)

theorem Lexeme.kind_unique {kind' : Kind} (h : Lexeme kind lexeme) (h' : Lexeme kind' lexeme) : kind = kind' := by
  have ends : ∀ c ∈ ([] : List Char).head?, Text.isBlank c = true := nofun
  have found := h.front_cut ends
  rw [h'.front_cut ends] at found
  cases found
  rfl

structure Longest (kind : Kind) (lexeme text : List Char) : Prop where
  valid : Lexeme kind lexeme
  opens : lexeme <+: text
  most : ∀ kind' other, Lexeme kind' other → other <+: text → other.length ≤ lexeme.length

/-- What stands at the front of a text, in terms of the grammar. -/
inductive Stands : List Char → Front → Prop
  | nothing : Stands [] .nothing
  | token {kind : Kind} {lexeme text : List Char} (longest : Longest kind lexeme text) :
      Stands text (.token kind lexeme.length)
  | unexpected {c : Char} {rest : List Char} (none : ∀ kind lexeme, Lexeme kind lexeme → ¬lexeme <+: c :: rest)
      (unquoted : c ≠ '"') : Stands (c :: rest) (.unexpected c)
  | unterminated {rest : List Char} (plain : '"' ∉ rest) : Stands ('"' :: rest) .unterminated

theorem longest_of_front (found : front text = .token kind n) (h : Lexeme kind lexeme) (opens : lexeme <+: text)
    (length : lexeme.length = n) : Longest kind lexeme text := by
  refine ⟨h, opens, fun kind' other h' opens' => ?_⟩
  obtain ⟨k, m, found', long⟩ := h'.exists_front opens'
  rw [found] at found'
  cases found'
  omega

theorem stands_of_token (found : front text = .token kind n) (h : Lexeme kind lexeme) (opens : lexeme <+: text)
    (length : lexeme.length = n) : Stands text (front text) := by
  rw [found, ← length]
  exact .token (longest_of_front found h opens length)

theorem stands_front (text : List Char) : Stands text (front text) := by
  cases text with
  | nil => exact .nothing
  | cons c rest =>
    by_cases quote : c = '"'
    · subst quote
      obtain ⟨content, more, plain, rfl⟩ | plain := quote_cases rest
      · have shape : '"' :: (content ++ '"' :: more) = '"' :: content ++ ['"'] ++ more := by simp
        rw [shape]
        exact stands_of_token (front_quoted more plain) (.quoted plain) (List.prefix_append _ _) rfl
      · rw [front_unclosed plain]
        exact .unterminated plain
    by_cases digit : Text.isDigit c = true
    · obtain ⟨lexeme, h, opens, length⟩ := exists_numeral digit rest
      exact stands_of_token (front_digit digit rest) h opens length
    by_cases letter : Text.isLetter c = true
    · exact stands_of_token (front_letter letter rest) (.of_isWord (isWord_takeWhile letter rest)) (List.takeWhile_prefix _) rfl
    cases found : symbol? (c :: rest) with
    | some symbol =>
      obtain ⟨signs, listed, opens, length⟩ := symbol?_sound found
      exact stands_of_token (by rw [front, found]) (.symbol listed) opens length
    | none =>
      have strange : front (c :: rest) = .unexpected c := by simp [front, found, longFront, quote, digit, letter]
      rw [strange]
      refine .unexpected (fun kind lexeme h opens => ?_) quote
      obtain ⟨k, n, found, -⟩ := h.exists_front opens
      rw [strange] at found
      cases found

theorem Longest.front (h : Longest kind lexeme text) : front text = .token kind lexeme.length := by
  obtain ⟨k, n, found, long⟩ := h.valid.exists_front h.opens
  have stands := stands_front text
  rw [found] at stands
  cases stands with
  | @token _ other _ longest =>
    -- what is found is not shorter, and no lexeme is longer
    have same : lexeme = other :=
      (List.prefix_of_prefix_length_le h.opens longest.opens long).eq_of_length_le (h.most _ _ longest.valid longest.opens)
    subst same
    rw [found, h.valid.kind_unique longest.valid]

theorem front_unexpected {c : Char} {rest : List Char} (none : ∀ kind lexeme, Lexeme kind lexeme → ¬lexeme <+: c :: rest)
    (unquoted : c ≠ '"') : front (c :: rest) = .unexpected c := by
  have stands := stands_front (c :: rest)
  generalize shape : front (c :: rest) = found at stands
  cases stands with
  | token longest => exact absurd longest.opens (none _ _ longest.valid)
  | unexpected => rfl
  | unterminated => exact absurd rfl unquoted

example : front ['1', '.', '2', '.', 'x'] = .token .number 3 := by decide

end Front

end Token
end Scriptlet
