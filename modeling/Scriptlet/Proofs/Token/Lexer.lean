import Scriptlet.Proofs.Decimal.Scientific
import Scriptlet.Proofs.Token.Lexeme

/-!
The lexer consumes a text one character at a time and slices its lexemes out by their bytes. No slice fails, and the items
are those that are found by whole lexemes.
-/

namespace Scriptlet

/-- A part of a text, given by bytes at which a character starts or the text ends. -/
structure Slice (text : String) (first last : Nat) (part : String) : Prop where
  ordered : first ≤ last
  starts : String.Pos.Raw.IsValid text ⟨first⟩
  ends : String.Pos.Raw.IsValid text ⟨last⟩
  bytes : text.toByteArray.extract first last = part.toByteArray

theorem Slice.eq_some {text part : String} {first last : Nat} (h : Slice text first last part) :
    Text.slice? text first last = some part := by
  rw [Text.slice?, dif_pos ⟨h.ordered, h.starts, h.ends⟩]
  exact congrArg some (String.toByteArray_inj.1 h.bytes)

theorem slice_append (before part after : String) :
    Slice (before ++ part ++ after) before.utf8ByteSize (before.utf8ByteSize + part.utf8ByteSize) part where
  ordered := Nat.le_add_right _ _
  starts := String.Pos.Raw.isValid_iff_exists_append.2 ⟨before, part ++ after, String.append_assoc, rfl⟩
  ends := by
    refine String.Pos.Raw.isValid_iff_exists_append.2 ⟨before ++ part, after, rfl, ?_⟩
    rw [String.Pos.Raw.ext_iff, String.byteIdx_rawEndPos, String.utf8ByteSize_append]
  bytes := by
    have none : after.toByteArray.extract (before.utf8ByteSize - (before.toByteArray ++ part.toByteArray).size)
        (before.utf8ByteSize + part.utf8ByteSize - (before.toByteArray ++ part.toByteArray).size) = .empty := by
      rw [ByteArray.size_append]
      simp
    rw [String.toByteArray_append, String.toByteArray_append, ByteArray.extract_append, none, ByteArray.append_empty]
    exact ByteArray.extract_append_eq_right rfl rfl

theorem slice_quoted (before content after : String) :
    Slice (before ++ ("\"" ++ content ++ "\"") ++ after) (before.utf8ByteSize + 1)
      (before.utf8ByteSize + ("\"" ++ content ++ "\"").utf8ByteSize - 1) content := by
  have slice := slice_append (before ++ "\"") content ("\"" ++ after)
  have shape : before ++ "\"" ++ content ++ ("\"" ++ after) = before ++ ("\"" ++ content ++ "\"") ++ after := by
    simp only [String.append_assoc]
  have quote : "\"".utf8ByteSize = 1 := rfl
  have first : (before ++ "\"").utf8ByteSize = before.utf8ByteSize + 1 := by rw [String.utf8ByteSize_append, quote]
  have last : (before ++ "\"").utf8ByteSize + content.utf8ByteSize =
      before.utf8ByteSize + ("\"" ++ content ++ "\"").utf8ByteSize - 1 := by
    rw [first, String.utf8ByteSize_append, String.utf8ByteSize_append, quote]
    omega
  rwa [shape, last, first] at slice

namespace Source

open Token

theorem advance_advance (s : Source) (n m : Nat) : (s.advance n).advance m = s.advance (n + m) := by
  simp only [advance, List.drop_drop, ← Position.advanceAll_append, List.take_add]

theorem next_advance {s : Source} {n : Nat}
    (gap : gapLength false s.rest = n + gapLength false (s.rest.drop n)) : (s.advance n).next = s.next := by
  rw [next, next, skipGap, skipGap, gap, ← advance_advance]
  rfl

theorem readFront_token {p : Position} {kind : Kind} {lexeme more : List Char}
    (found : front (lexeme ++ more) = .token kind lexeme.length) :
    readFront ⟨p, lexeme ++ more⟩ =
      (.token ⟨kind, String.ofList lexeme, payload? kind lexeme, p⟩, ⟨p.advanceAll lexeme, more⟩) := by
  rw [readFront, found]
  simp only [tokenOf, List.take_left, advance_append]

end Source

namespace Token

theorem gapLength_blanks (text : List Char) :
    gapLength false text =
      (text.takeWhile Text.isBlank).length + gapLength false (text.drop (text.takeWhile Text.isBlank).length) := by
  induction text with
  | nil => rfl
  | cons c rest ih =>
    by_cases blank : Text.isBlank c = true
    · rw [List.takeWhile_cons_of_pos blank, List.length_cons, List.drop_succ_cons, gapLength, if_neg Bool.false_ne_true,
        if_pos blank, ih, Nat.add_right_comm, Nat.add_comm 1]
    · rw [List.takeWhile_cons_of_neg blank, List.length_nil, List.drop_zero, Nat.zero_add]

theorem gapLength_line (text : List Char) :
    gapLength true text =
      (text.takeWhile (· != '\n')).length + gapLength false (text.drop (text.takeWhile (· != '\n')).length) := by
  induction text with
  | nil => rfl
  | cons c rest ih =>
    by_cases ends : c = '\n'
    · subst ends
      simp [gapLength]
    · have inside : (c != '\n') = true := bne_iff_ne.2 ends
      rw [List.takeWhile_cons, if_pos inside, List.length_cons, List.drop_succ_cons, gapLength, if_pos rfl, inside, ih,
        Nat.add_right_comm, Nat.add_comm 1]

theorem gapLength_slashes (rest : List Char) : gapLength false ('/' :: '/' :: rest) = 2 + gapLength true rest := by
  have slash : ('/' != '\n') = true := by decide
  simp [gapLength, slash]
  omega

theorem gapLength_eq_zero {c : Char} {rest : List Char} (blank : Text.isBlank c = false)
    (slashes : c = '/' → rest.head? ≠ some '/') : gapLength false (c :: rest) = 0 := by
  have apart : (c == '/' && rest.head? == some '/') = false := by
    rw [Bool.and_eq_false_imp]
    intro slash
    exact beq_eq_false_iff_ne.2 (slashes (beq_iff_eq.1 slash))
  simp [gapLength, blank, apart]

section Payload

variable {kind : Kind} {lexeme : List Char}

theorem numberValue_whole {digits : List Char} (numeral : IsNumeral digits) :
    numberValue digits = Decimal.ofParts digits [] := by
  rw [numberValue, List.takeWhile_eq_self_iff.2 numeral.2, List.dropWhile_eq_nil_iff.2 numeral.2, List.drop_nil]

theorem numberValue_decimal {digits fraction : List Char} (numeral : IsNumeral digits) :
    numberValue (digits ++ '.' :: fraction) = Decimal.ofParts digits fraction := by
  have point : Text.isDigit '.' = false := by decide
  rw [numberValue, List.takeWhile_append_of_pos numeral.2, List.dropWhile_append_of_pos numeral.2, List.takeWhile_cons,
    List.dropWhile_cons, point, if_neg Bool.false_ne_true, if_neg Bool.false_ne_true, List.append_nil, List.drop_one,
    List.tail_cons]

theorem payload?_none (number : kind ≠ .number) (text : kind ≠ .text) : payload? kind lexeme = none := by
  unfold payload?
  split
  · exact absurd rfl number
  · exact absurd rfl text
  · rfl

theorem payload?_quoted (content : List Char) :
    payload? .text ('"' :: content ++ ['"']) = some (.text (String.ofList content)) := by
  rw [payload?, List.cons_append, List.drop_one, List.tail_cons, List.dropLast_concat]

theorem ofWord_plain (word : String) : Kind.ofWord word ≠ .number ∧ Kind.ofWord word ≠ .text := by
  unfold Kind.ofWord
  split <;> decide

theorem Lexeme.read? (h : Lexeme .number lexeme) : Decimal.read? (String.ofList lexeme) = some (numberValue lexeme) := by
  generalize same : Kind.number = kind at h
  cases h with
  | symbol listed => exact absurd same.symm (symbols_plain _ listed).1
  | whole numeral => rw [numberValue_whole numeral, Decimal.read?_whole numeral.2 numeral.1]
  | decimal numeral numeral' =>
    rw [numberValue_decimal numeral, Decimal.read?_parts numeral.2 numeral.1 numeral'.2 numeral'.1]
  | quoted => cases same
  | keyword listed => exact absurd same.symm (keywords_plain _ listed).1
  | identifier => cases same

end Payload

section Front

variable {c : Char} {kind followed alone : Kind}

theorem symbol?_of_single (h : single? c = some kind) (rest : List Char) : symbol? (c :: rest) = some (kind, 1) := by
  unfold single? at h
  split at h <;> cases h <;> rfl

theorem symbol?_of_double (h : double? c = some (followed, alone)) (rest : List Char) :
    symbol? (c :: rest) = some (if rest.head? = some '=' then (followed, 2) else (alone, 1)) := by
  unfold double? at h
  cases rest with
  | nil => split at h <;> cases h <;> rfl
  | cons d rest =>
    by_cases equals : d = '='
    · subst equals
      split at h <;> cases h <;> rfl
    · split at h <;> cases h <;> simp [symbol?, equals]

theorem symbol?_of_neither (single : single? c = none) (double : double? c = none) (other : c ≠ '/') (rest : List Char) :
    symbol? (c :: rest) = none := by
  unfold symbol?
  split
  case h_22 => rfl
  all_goals
    next same =>
      obtain ⟨rfl, -⟩ := List.cons.inj same
      first | (cases single; done) | (cases double; done) | exact absurd rfl other

theorem payload?_single (h : single? c = some kind) (lexeme : List Char) : payload? kind lexeme = none := by
  unfold single? at h
  split at h <;> cases h <;> rfl

theorem payload?_double (h : double? c = some (followed, alone)) (lexeme : List Char) :
    payload? followed lexeme = none ∧ payload? alone lexeme = none := by
  unfold double? at h
  split at h <;> cases h <;> exact ⟨rfl, rfl⟩

end Front

end Token

namespace Lexer

open Token

def source (l : Lexer) : Source :=
  ⟨l.current, l.left⟩

/-- A lexer that has consumed two parts of a text, the second for the lexeme that it is at. -/
structure Reads (text : String) (before lexeme : List Char) (l : Lexer) : Prop where
  input : l.input = text
  whole : text.toList = before ++ (lexeme ++ l.left)
  start : l.start = Position.start.advanceAll before
  current : l.current = l.start.advanceAll lexeme

section Reads

variable {l m : Lexer} {text : String} {before lexeme taken : List Char}

theorem reads_ofString (text : String) : Reads text [] [] (ofString text) :=
  ⟨rfl, rfl, rfl, rfl⟩

theorem Reads.took (h : Reads text before lexeme l) (took : Took l taken m) : Reads text before (lexeme ++ taken) m where
  input := took.input.trans h.input
  whole := by rw [h.whole, took.left, List.append_assoc]
  start := took.start.trans h.start
  current := by rw [took.current, h.current, took.start, Position.advanceAll_append]

theorem Reads.begin (h : Reads text before lexeme l) : Reads text (before ++ lexeme) [] l.begin where
  input := h.input
  whole := by rw [h.whole, List.append_assoc]; rfl
  start := by rw [Position.advanceAll_append, ← h.start, ← h.current]; rfl
  current := rfl

theorem Reads.split (h : Reads text before lexeme l) :
    text = String.ofList before ++ String.ofList lexeme ++ String.ofList l.left := by
  rw [← String.toList_inj, h.whole]
  simp

theorem Reads.start_offset (h : Reads text before lexeme l) : l.start.offset = (String.ofList before).utf8ByteSize := by
  rw [h.start, (Position.advanceAll_ofList _ _).1]
  exact Nat.zero_add _

theorem Reads.current_offset (h : Reads text before lexeme l) :
    l.current.offset = (String.ofList before).utf8ByteSize + (String.ofList lexeme).utf8ByteSize := by
  rw [h.current, (Position.advanceAll_ofList _ _).1, h.start_offset]

theorem Reads.slice (h : Reads text before lexeme l) :
    Text.slice? l.input l.start.offset l.current.offset = some (String.ofList lexeme) := by
  have slice := slice_append (String.ofList before) (String.ofList lexeme) (String.ofList l.left)
  rw [← h.split, ← h.start_offset, h.start_offset, ← h.current_offset, ← h.start_offset] at slice
  rw [h.input]
  exact slice.eq_some

theorem Reads.token? (h : Reads text before lexeme l) (kind : Kind) :
    l.token? kind = some ⟨kind, String.ofList lexeme, none, l.start⟩ := by
  rw [Lexer.token?, h.slice]
  rfl

theorem Reads.emit (h : Reads text before lexeme l) (kind : Kind) :
    l.emit kind = some (.token ⟨kind, String.ofList lexeme, none, l.start⟩, l) := by
  rw [Lexer.emit, h.token?]
  rfl

theorem Reads.atEnd (h : Reads text before lexeme l) : l.atEnd = l.left.isEmpty := by
  have size := congrArg String.utf8ByteSize h.split
  rw [String.utf8ByteSize_append, String.utf8ByteSize_append] at size
  have empty : (String.ofList l.left).utf8ByteSize = 0 ↔ l.left = [] := by
    rw [String.utf8ByteSize_eq_zero_iff, ← String.toList_inj, String.toList_ofList, String.toList_empty]
  rw [Lexer.atEnd, h.input, h.current_offset, size, Bool.eq_iff_iff, List.isEmpty_iff, ← empty, decide_eq_true_iff]
  omega

theorem Took.source (took : Took l taken m) : m.source = l.source.advance taken.length := by
  rw [Lexer.source, Lexer.source, took.left, Source.advance_append, took.current]

/-- Scanning has found what stands at the front, and stops behind it. -/
def Finds (text : String) (s : Source) (result : Option (Item × Lexer)) : Prop :=
  ∃ rest before lexeme, result = some (s.readFront.1, rest) ∧ rest.source = s.readFront.2 ∧ Reads text before lexeme rest

theorem Reads.finds (h : Reads text before lexeme l) {p : Position} {rest : List Char} {kind : Kind}
    {payload : Option Payload} (start : l.start = p) (shape : rest = lexeme ++ l.left)
    (found : front rest = .token kind lexeme.length) (carries : payload? kind lexeme = payload) :
    Finds text ⟨p, rest⟩ (some (.token ⟨kind, String.ofList lexeme, payload, p⟩, l)) := by
  subst start shape carries
  have read := Source.readFront_token (p := l.start) found
  exact ⟨l, before, lexeme, by rw [read], by rw [read, ← h.current]; rfl, h⟩

theorem Reads.emit_finds (h : Reads text before lexeme l) {p : Position} {rest : List Char} {kind : Kind}
    (start : l.start = p) (shape : rest = lexeme ++ l.left) (found : front rest = .token kind lexeme.length)
    (plain : payload? kind lexeme = none) : Finds text ⟨p, rest⟩ (l.emit kind) := by
  rw [h.emit, start]
  exact h.finds start shape found plain

theorem Reads.slice_content {content : List Char} (h : Reads text before ('"' :: content ++ ['"']) l) :
    Text.slice? l.input (l.start.offset + 1) (l.current.offset - 1) = some (String.ofList content) := by
  have lexeme : String.ofList ('"' :: content ++ ['"']) = "\"" ++ String.ofList content ++ "\"" := by
    rw [← String.toList_inj]
    simp
  have slice := slice_quoted (String.ofList before) (String.ofList content) (String.ofList l.left)
  rw [← lexeme, ← h.split, ← h.current_offset, ← h.start_offset] at slice
  rw [h.input]
  exact slice.eq_some

end Reads

section Scan

variable {l m : Lexer} {text : String} {before content more : List Char} {c : Char}

theorem Took.left_eq (took : Took l content m) (split : l.left = content ++ more) : m.left = more :=
  (List.append_cancel_left (split.symm.trans took.left)).symm

theorem Took.left_dropWhile {p : Char → Bool} (took : Took l (l.left.takeWhile p) m) : m.left = l.left.dropWhile p :=
  took.left_eq List.takeWhile_append_dropWhile.symm

theorem expect_fst (l : Lexer) (c : Char) : (l.expect c).1 = true ↔ l.left.head? = some c := by
  rw [expect, first_peek]
  split <;> simp_all

theorem scanText_finds (h : Reads text before ['"'] l) : Finds text ⟨l.start, '"' :: l.left⟩ l.scanText := by
  have took := took_consumeWhile (· != '"') l
  simp only [scanText]
  obtain ⟨content, more, plain, closed⟩ | unclosed := quote_cases l.left
  · have inside : l.left.takeWhile (· != '"') = content := by
      rw [closed, takeWhile_quote _ plain]
      exact List.append_nil _
    rw [inside] at took
    generalize l.consumeWhile (· != '"') = m at took
    have left : m.left = ['"'] ++ more := took.left_eq closed
    obtain ⟨n, consumed, last⟩ := consume_of_left left
    have read : Reads text before ('"' :: content ++ ['"']) n := (h.took took).took last
    have going : m.atEnd = false := by
      rw [(h.took took).atEnd, left]
      rfl
    have start : n.start = l.start := last.start.trans took.start
    have shape : '"' :: l.left = '"' :: content ++ ['"'] ++ n.left := by
      rw [last.left_eq left, closed]
      simp
    rw [going, if_neg Bool.false_ne_true, consumed, read.slice_content, read.token?, start]
    exact read.finds start shape (shape ▸ front_quoted _ plain) (payload?_quoted content)
  · have all : l.left.takeWhile (· != '"') = l.left := by
      have whole := takeWhile_quote [] unclosed
      rwa [List.append_nil, List.takeWhile_nil, List.append_nil] at whole
    rw [all] at took
    generalize l.consumeWhile (· != '"') = m at took
    have left : m.left = [] := took.left_eq (List.append_nil _).symm
    have read := h.took took
    have ended : m.atEnd = true := by
      rw [read.atEnd, left]
      rfl
    rw [if_pos ended, took.start]
    refine ⟨m, before, _, ?_, ?_, read⟩
    · rw [Source.readFront, front_unclosed unclosed]
    · have behind := Source.advance_append l.start ('"' :: l.left) []
      rw [List.append_nil] at behind
      rw [Source.readFront, front_unclosed unclosed, source, left, read.current, took.start]
      exact behind.symm

theorem took_consumeNumber (l : Lexer) :
    Took l (l.left.takeWhile Text.isDigit ++
      (l.left.dropWhile Text.isDigit).take (fractionLength (l.left.dropWhile Text.isDigit))) l.consumeNumber := by
  have digits := (took_consumeWhile Text.isDigit l).trans (took_peek _)
  rw [List.append_nil] at digits
  have left := digits.left_dropWhile
  have waits : (l.consumeWhile Text.isDigit).peek.first = (l.left.dropWhile Text.isDigit).head? := by
    rw [first_peek, (took_consumeWhile Text.isDigit l).left_dropWhile]
  refine digits.trans ?_
  simp only [consumeNumber]
  generalize (l.consumeWhile Text.isDigit).peek = m at left waits
  rw [← left] at waits ⊢
  have looked := took_peekNext m
  have second (point : m.left.head? = some '.') : m.peekNext.second = m.left.tail.head? := by
    have peeked : m.peek.left = m.left := (took_peek m).left_eq rfl
    rw [peekNext, second_peekBehind ((first_peek m).trans point), peeked]
  generalize shape : m.left = behind at left waits second ⊢
  fun_cases fractionLength behind with
  | case1 d rest digit =>
    obtain ⟨n, consumed, point⟩ := consume_of_left (looked.left_eq shape)
    have more := took_consumeWhile Text.isDigit n
    rw [point.left_eq (looked.left_eq shape), List.takeWhile_cons_of_pos digit] at more
    have any : m.peekNext.second.any Text.isDigit = true := by
      rw [second rfl]
      exact digit
    rw [if_pos (show m.first = some '.' from waits), if_pos any, consumed]
    have taken : ('.' :: d :: rest).take (2 + (rest.takeWhile Text.isDigit).length) = '.' :: d :: rest.takeWhile Text.isDigit := by
      rw [Nat.add_comm, List.take_succ_cons, List.take_succ_cons, ← List.prefix_iff_eq_take.1 (List.takeWhile_prefix _)]
    rw [taken]
    exact (looked.trans point).trans more
  | case2 d rest other =>
    have none : ¬ m.peekNext.second.any Text.isDigit = true := by
      rw [second rfl]
      exact other
    rw [if_pos (show m.first = some '.' from waits), if_neg none]
    exact looked
  | case3 _ other =>
    split
    · next point =>
      have point := waits.symm.trans point
      have none : ¬ m.peekNext.second.any Text.isDigit = true := by
        obtain ⟨more, rfl⟩ := List.head?_eq_some_iff.1 point
        cases more with
        | nil => simp [second rfl]
        | cons d rest => exact absurd rfl (other d rest)
      rw [if_neg none]
      exact looked
    · exact .refl m

theorem scanNumber_finds (h : Reads text before [c] l) (digit : Text.isDigit c = true) :
    Finds text ⟨l.start, c :: l.left⟩ l.scanNumber := by
  have took := took_consumeNumber l
  have found := front_digit digit l.left
  obtain ⟨lexeme, valid, opens, length⟩ := exists_numeral digit l.left
  rw [← length] at found
  have size : numberLength (c :: l.left) = (c :: (l.left.takeWhile Text.isDigit ++
      (l.left.dropWhile Text.isDigit).take (fractionLength (l.left.dropWhile Text.isDigit)))).length := by
    rw [numberLength, List.takeWhile_cons_of_pos digit, List.dropWhile_cons_of_pos digit, List.length_cons, List.length_cons,
      List.length_append, List.length_take_of_le (fractionLength_le _), Nat.add_right_comm]
  generalize l.left.takeWhile Text.isDigit ++ _ = taken at took size
  have opens' : c :: taken <+: c :: l.left := ⟨l.consumeNumber.left, congrArg _ took.left.symm⟩
  obtain rfl : lexeme = c :: taken := by
    rw [List.prefix_iff_eq_take.1 opens, List.prefix_iff_eq_take.1 opens', length, size]
  have read : Reads text before (c :: taken) l.consumeNumber := h.took took
  simp only [scanNumber, read.token?, Option.bind_eq_bind, Option.bind_some, valid.read?, took.start]
  exact read.finds took.start (congrArg _ took.left) found rfl

theorem scanWord_finds (h : Reads text before [c] l) (letter : Text.isLetter c = true) :
    Finds text ⟨l.start, c :: l.left⟩ l.scanWord := by
  have part : Text.isWordPart c = true := by rw [Text.isWordPart, letter, Bool.true_or]
  have took := took_consumeWhile Text.isWordPart l
  have whole : (c :: l.left).takeWhile Text.isWordPart = c :: l.left.takeWhile Text.isWordPart :=
    List.takeWhile_cons_of_pos part
  have found := front_letter letter l.left
  rw [wordLength, whole] at found
  have read : Reads text before (c :: l.left.takeWhile Text.isWordPart) (l.consumeWhile Text.isWordPart) := h.took took
  simp only [scanWord, read.slice]
  have plain := ofWord_plain (String.ofList (c :: l.left.takeWhile Text.isWordPart))
  exact read.emit_finds took.start (congrArg _ took.left) found (payload?_none plain.1 plain.2)

theorem scanFrom_finds (h : Reads text before [c] l) (other : c ≠ '/') : Finds text ⟨l.start, c :: l.left⟩ (l.scanFrom c) := by
  unfold scanFrom
  split
  · next kind single =>
    refine h.emit_finds rfl rfl ?_ (payload?_single single _)
    rw [front, symbol?_of_single single]
    rfl
  next single =>
  split
  · next followed alone double =>
    have took := took_expect l '='
    have plain := payload?_double double
    by_cases equals : l.left.head? = some '='
    · rw [if_pos equals] at took
      rw [if_pos ((expect_fst l '=').2 equals)]
      refine (h.took took).emit_finds took.start (congrArg _ took.left) ?_ (plain _).1
      rw [front, symbol?_of_double double, if_pos equals]
      rfl
    · rw [if_neg equals] at took
      rw [if_neg (mt (expect_fst l '=').1 equals)]
      refine (h.took took).emit_finds took.start (congrArg _ took.left) ?_ (plain _).2
      rw [front, symbol?_of_double double, if_neg equals]
      rfl
  next double =>
  split
  · next quote =>
    obtain rfl := beq_iff_eq.1 quote
    exact scanText_finds h
  next unquoted =>
  split
  · next digit => exact scanNumber_finds h digit
  next solid =>
  split
  · next letter => exact scanWord_finds h letter
  · next strange =>
    have found : front (c :: l.left) = .unexpected c := by
      rw [front, symbol?_of_neither single double other]
      simp only [longFront]
      rw [if_neg unquoted, if_neg solid, if_neg strange]
    refine ⟨l, before, [c], ?_, ?_, h⟩
    · rw [Source.readFront, found]
    · rw [Source.readFront, found, source, h.current]
      rfl

end Scan

theorem Reads.skipBlanks {l : Lexer} {text : String} {before lexeme : List Char} (h : Reads text before lexeme l) :
    Reads text (before ++ (lexeme ++ l.left.takeWhile Text.isBlank)) [] l.skipBlanks.begin ∧
      (∀ c ∈ l.skipBlanks.begin.left.head?, Text.isBlank c = false) ∧ l.skipBlanks.begin.source.next = l.source.next := by
  have took := took_consumeWhile Text.isBlank l
  refine ⟨(h.took took).begin, fun c head => ?_, ?_⟩
  · have stop := List.head?_dropWhile_not Text.isBlank l.left
    rw [← took.left_dropWhile, show (l.consumeWhile Text.isBlank).left.head? = some c from head] at stop
    simpa using stop
  · change (l.consumeWhile Text.isBlank).source.next = l.source.next
    rw [took.source]
    exact Source.next_advance (gapLength_blanks l.left)

theorem Finds.next {text : String} {s : Source} {result : Option (Item × Lexer)} (h : Finds text s result)
    (solid : gapLength false s.rest = 0) :
    ∃ rest before lexeme, result = some (s.next.1, rest) ∧ rest.source = s.next.2 ∧ Reads text before lexeme rest := by
  have same : s.next = s.readFront := by
    rw [Source.next, Source.skipGap, solid]
    rfl
  rw [same]
  obtain ⟨rest, before, lexeme, found, left, read⟩ := h
  exact ⟨rest, before, lexeme, found, left, read⟩

theorem next_skipLine {l behind : Lexer} (slash : Took l ['/'] behind) (comment : behind.left.head? = some '/') :
    (behind.expect '/').2.skipLine.source.next = l.source.next ∧ ∃ taken, Took l taken (behind.expect '/').2.skipLine := by
  have second := took_expect behind '/'
  rw [if_pos comment] at second
  have opened := slash.trans second
  have line := took_consumeWhile (· != '\n') (behind.expect '/').2
  refine ⟨?_, _, opened.trans line⟩
  change ((behind.expect '/').2.consumeWhile _).source.next = _
  rw [line.source, opened.source, Source.advance_advance]
  refine Source.next_advance (s := l.source) ?_
  change gapLength false l.left = _ + gapLength false (l.left.drop _)
  rw [opened.left, ← List.drop_drop, List.drop_left, Nat.add_assoc, ← gapLength_line]
  exact gapLength_slashes _

theorem scanToken_eq {l : Lexer} {text : String} {before lexeme : List Char} (h : Reads text before lexeme l) :
    ∃ rest before' lexeme', l.scanToken = some (l.source.next.1, rest) ∧ rest.source = l.source.next.2 ∧
      Reads text before' lexeme' rest := by
  -- by the comments that are passed over before the item
  fun_induction scanToken l generalizing before lexeme with
  | case1 l ended consumed =>
    obtain ⟨read, -, same⟩ := h.skipBlanks
    generalize l.skipBlanks.begin = b at *
    have left : b.left = [] := by
      cases left : b.left with
      | nil => rfl
      | cons c more =>
        obtain ⟨m, consumed', -⟩ := consume_of_left left
        cases consumed.symm.trans consumed'
    cases (consume_of_left_nil left).symm.trans consumed
    have here : ended.source = ⟨ended.start, []⟩ := by
      rw [source, left, read.current]
      rfl
    rw [← same, here, read.emit]
    exact ⟨ended, _, _, rfl, here, read⟩
  | case2 l c behind consumed slash comment ih =>
    obtain ⟨read, -, same⟩ := h.skipBlanks
    generalize l.skipBlanks.begin = b at *
    obtain rfl := beq_iff_eq.1 slash
    obtain ⟨passed, taken, took⟩ := next_skipLine (took_consume consumed) ((expect_fst behind '/').1 comment)
    obtain ⟨rest, before', lexeme', scanned, left, read'⟩ := ih (read.took took)
    rw [passed, same] at scanned left
    exact ⟨rest, before', lexeme', scanned, left, read'⟩
  | case3 l c behind consumed slash alone =>
    obtain ⟨read, solid, same⟩ := h.skipBlanks
    generalize l.skipBlanks.begin = b at *
    obtain rfl := beq_iff_eq.1 slash
    have first := took_consume consumed
    have second := took_expect behind '/'
    have head := mt (expect_fst behind '/').2 alone
    rw [if_neg head] at second
    have took := first.trans second
    rw [← same]
    refine Finds.next (Reads.emit_finds (read.took took) ?_ took.left ?_ rfl) ?_
    · rw [took.start, read.current]
      rfl
    · rw [took.left]
      rfl
    · change gapLength false b.left = 0
      rw [first.left]
      exact gapLength_eq_zero (by decide) fun _ => head
  | case4 l c behind consumed other =>
    obtain ⟨read, solid, same⟩ := h.skipBlanks
    generalize l.skipBlanks.begin = b at *
    have took := took_consume consumed
    have apart : c ≠ '/' := bne_iff_ne.1 (by simpa using other)
    have here : b.source = ⟨behind.start, c :: behind.left⟩ := by
      rw [source, took.left, took.start, read.current]
      rfl
    rw [← same, here]
    refine (scanFrom_finds (read.took took) apart).next ?_
    exact gapLength_eq_zero (solid c (took.left ▸ rfl)) fun slash => absurd slash apart

theorem scanAll_eq {l : Lexer} {text : String} {before lexeme : List Char} (h : Reads text before lexeme l) :
    l.scanAll = some l.source.items := by
  fun_induction scanAll l generalizing before lexeme with
  | case1 l none =>
    obtain ⟨rest, _, _, scanned, -⟩ := scanToken_eq h
    cases none.symm.trans scanned
  | case2 l item rest scanned goes ih =>
    obtain ⟨rest, before', lexeme', scanned', left, read⟩ := scanToken_eq h
    cases scanned.symm.trans scanned'
    rw [ih read, left, Source.items.eq_def l.source, dif_pos goes]
    rfl
  | case3 l item rest scanned ends =>
    obtain ⟨rest, before', lexeme', scanned', -⟩ := scanToken_eq h
    cases scanned.symm.trans scanned'
    rw [Source.items, dif_neg ends]

theorem take_eq {l : Lexer} {text : String} {before lexeme : List Char} (h : Reads text before lexeme l) (n : Nat) :
    l.take n = some (l.source.take n) := by
  induction n generalizing l before lexeme with
  | zero => rfl
  | succ n ih =>
    obtain ⟨rest, before', lexeme', scanned, left, read⟩ := scanToken_eq h
    rw [take, scanned]
    change (do let more ← rest.take n; some (l.source.next.1 :: more)) = _
    rw [ih read, left]
    rfl

end Lexer

open Token

theorem scan?_eq (text : String) : scan? text = some (.ofItems (Source.ofString text).items) := by
  rw [scan?, Lexer.scanAll_eq (Lexer.reads_ofString text)]
  rfl

theorem scan_eq (text : String) : scan text = .ofItems (Source.ofString text).items := by
  rw [scan, scan?_eq]
  rfl

theorem scan_tokens (text : String) : (scan text).tokens = (Source.ofString text).items.filterMap Item.token? :=
  congrArg Scan.tokens (scan_eq text)

theorem scan_faults (text : String) : (scan text).faults = (Source.ofString text).items.filterMap Item.fault? :=
  congrArg Scan.faults (scan_eq text)

theorem tokens_eq (text : String) :
    ∃ body last, (scan text).tokens = body ++ [last] ∧ last.kind = .endMark ∧ ∀ t ∈ body, t.kind ≠ .endMark := by
  obtain ⟨before, last, same, ends, inside⟩ := (Source.ofString text).items_eq
  refine ⟨before.filterMap Item.token?, last, ?_, ends, fun t mem => ?_⟩
  · rw [scan_tokens, same, List.filterMap_append]
    rfl
  · obtain ⟨item, here, found⟩ := List.mem_filterMap.1 mem
    have inner := inside item here
    cases item with
    | token t' =>
      cases found
      simpa [Item.isEnd] using inner
    | fault => cases found

end Scriptlet
