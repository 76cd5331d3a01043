import Scriptlet.Proofs.Decimal.Numeral
import Scriptlet.Proofs.Grammar.Operator
import Scriptlet.Proofs.Grammar.Placement
import Scriptlet.Proofs.Token.Layout
import Scriptlet.Tree.Printer

namespace Scriptlet

open Token

namespace Rendering

def token? (text : List Char) : Option (Token × List Char) :=
  match front text with
  | .token kind length => some (Source.tokenOf ⟨.start, text⟩ kind length, text.drop length)
  | _ => none

def kind? (text : List Char) : Option Kind :=
  (token? text).map fun found => found.1.kind

def after? (sign : String) (text : List Char) : Option (List Char) :=
  text.dropPrefix? sign.toList

def closing : Token := ⟨.rightParen, ")", none, .start⟩

def bracket : Token := ⟨.leftSquare, "[", none, .start⟩

def keyword : Token := ⟨.returnWord, "return", none, .start⟩

def atom? (t : Token) : Option Expr :=
  match Grammar.Operand.ofToken t with
  | .constant value => some (.constant value)
  | .variable => some (.read 0 t)
  | _ => none

def word? : String → List Expr → Option Expr
  | "group", [inner] => some (.group inner)
  | "call", callee :: arguments => some (.call callee closing arguments)
  | "index", [target, place] => some (.index target bracket place)
  | _, _ => none

def node? (head : Token) (operands : List Expr) : Option Expr :=
  match head.kind, operands with
  | .identifier, operands => word? head.lexeme operands
  | .assign, [.read _ name, value] => some (.assign 0 name value)
  | .andWord, [left, right] | .orWord, [left, right] => some (.logical head left right)
  | _, [operand] => some (.unary head operand)
  | _, [left, right] => some (.binary head left right)
  | _, _ => none

mutual

def expr? : Nat → List Char → Option (Expr × List Char)
  | 0, _ => none
  | n + 1, text => do
    let (t, rest) ← token? text
    if t.kind = .leftParen then
      let (head, rest) ← token? rest
      let (operands, rest) ← operands? n rest
      return (← node? head operands, rest)
    else return (← atom? t, rest)

def operands? : Nat → List Char → Option (List Expr × List Char)
  | 0, _ => none
  | n + 1, text =>
    match after? ")" text with
    | some rest => some ([], rest)
    | none => do
      let (e, rest) ← expr? n (← after? " " text)
      let (es, rest) ← operands? n rest
      return (e :: es, rest)

end

def between? (n : Nat) (before behind : String) (text : List Char) : Option (Expr × List Char) := do
  let (e, rest) ← expr? n (← after? before text)
  return (e, ← after? behind rest)

def clause? (n : Nat) (before : String) (text : List Char) : Option (Option Expr × List Char) :=
  match after? ";" text with
  | some rest => some (none, rest)
  | none => do
    let (e, rest) ← between? n before ";" text
    return (some e, rest)

def names? : Nat → List Char → Option (List Token × List Char)
  | 0, _ => none
  | n + 1, text => do
    let (name, rest) ← token? text
    match after? ", " rest with
    | some rest =>
      let (names, rest) ← names? n rest
      return (name :: names, rest)
    | none => return ([name], ← after? ")" rest)

def parameters? (n : Nat) (text : List Char) : Option (List Token × List Char) :=
  match after? ")" text with
  | some rest => some ([], rest)
  | none => names? n text

mutual

def stmt? : Nat → List Char → Option (Stmt × List Char)
  | 0, _ => none
  | n + 1, text => do
    let (t, rest) ← token? text
    match t.kind with
    | .printWord =>
      let (e, rest) ← between? n " " ";" rest
      return (.print e, rest)
    | .varWord =>
      let (name, rest) ← token? (← after? " " rest)
      let (initial, rest) ← clause? n " = " rest
      return (.declare name initial, rest)
    | .leftBrace =>
      let (body, rest) ← body? n rest
      return (.block body, rest)
    | .ifWord =>
      let (condition, rest) ← between? n " (" ") " rest
      let (yes, rest) ← stmt? n rest
      match after? " else " rest with
      | some rest =>
        let (no, rest) ← stmt? n rest
        return (.ifElse condition yes no, rest)
      | none => return (.ifThen condition yes, rest)
    | .whileWord =>
      let (condition, rest) ← between? n " (" ") " rest
      let (body, rest) ← stmt? n rest
      return (.loop condition body, rest)
    | .funWord =>
      let (name, rest) ← token? (← after? " " rest)
      let (names, rest) ← parameters? n (← after? "(" rest)
      let (body, rest) ← body? n (← after? " \x7b" rest)
      return (.function name names body, rest)
    | .returnWord =>
      let (value, rest) ← clause? n " " rest
      return (.leave t value, rest)
    | _ =>
      let (e, rest) ← between? n "" ";" text
      return (.expression e, rest)

/-- The statements of a block behind its opening brace; without any there are two blanks between the braces. -/
def body? : Nat → List Char → Option (List Stmt × List Char)
  | 0, _ => none
  | n + 1, text =>
    match after? "  \x7d" text with
    | some rest => some ([], rest)
    | none => stmts? n text

def stmts? : Nat → List Char → Option (List Stmt × List Char)
  | 0, _ => none
  | n + 1, text =>
    match after? " \x7d" text with
    | some rest => some ([], rest)
    | none => do
      let (stmt, rest) ← stmt? n (← after? " " text)
      let (stmts, rest) ← stmts? n rest
      return (stmt :: stmts, rest)

end

end Rendering

structure Token.Spelled (t : Token) : Prop where
  lexeme : Lexeme t.kind t.lexeme.toList
  payload : t.payload = payload? t.kind t.lexeme.toList

def Token.IsName (t : Token) : Prop :=
  t.kind = .identifier ∧ t.Spelled

def Constant.Spelled : Constant → Prop
  | .nil | .boolean _ => True
  | .number value => Decimal.signOf value = false ∧ Decimal.rankOf value < Decimal.topmost
  | .text content => '"' ∉ content.toList

mutual

def Expr.Spelled : Expr → Prop
  | .constant value => value.Spelled
  | .read _ name => name.IsName
  | .assign _ name value => name.IsName ∧ value.Spelled
  | .binary operator left right =>
    operator.Spelled ∧ operator.kind ∈ binaryOperators ∧ left.Spelled ∧ right.Spelled
  | .logical operator left right =>
    operator.Spelled ∧ operator.kind ∈ logicalOperators ∧ left.Spelled ∧ right.Spelled
  | .unary operator operand => operator.Spelled ∧ operator.kind ∈ unaryOperators ∧ operand.Spelled
  | .group inner => inner.Spelled
  | .call callee paren arguments => callee.Spelled ∧ paren.unplaced = Rendering.closing ∧ SpelledIn arguments
  | .index target bracket place => target.Spelled ∧ bracket.unplaced = Rendering.bracket ∧ place.Spelled

def Expr.SpelledIn : List Expr → Prop
  | [] => True
  | e :: rest => e.Spelled ∧ SpelledIn rest

end

def Stmt.dangles : Stmt → Bool
  | .ifThen .. => true
  | .ifElse _ _ no => no.dangles
  | .loop _ body => body.dangles
  | _ => false

mutual

def Stmt.Spelled : Stmt → Prop
  | .expression e | .print e => e.Spelled
  | .declare name initial => name.IsName ∧ ∀ e ∈ initial, e.Spelled
  | .block body => SpelledIn body
  | .ifThen condition yes => condition.Spelled ∧ yes.Spelled
  | .ifElse condition yes no => condition.Spelled ∧ yes.Spelled ∧ yes.dangles = false ∧ no.Spelled
  | .loop condition body => condition.Spelled ∧ body.Spelled
  | .function name parameters body => name.IsName ∧ (∀ t ∈ parameters, t.IsName) ∧ SpelledIn body
  | .leave keyword value => keyword.unplaced = Rendering.keyword ∧ ∀ e ∈ value, e.Spelled

def Stmt.SpelledIn : List Stmt → Prop
  | [] => True
  | stmt :: rest => stmt.Spelled ∧ SpelledIn rest

end

namespace Rendering

section Token

variable {t : Token} {kind : Kind} {lexeme more text rest : List Char}

theorem token?_of_front (found : front (lexeme ++ more) = .token kind lexeme.length) :
    token? (lexeme ++ more) = some (⟨kind, String.ofList lexeme, payload? kind lexeme, .start⟩, more) := by
  rw [token?, found]
  simp [Source.tokenOf]

theorem unplaced_of_spelled (h : t.Spelled) :
    (⟨t.kind, String.ofList t.lexeme.toList, payload? t.kind t.lexeme.toList, .start⟩ : Token) = t.unplaced := by
  rw [Token.unplaced, String.ofList_toList, ← h.payload]

theorem token?_name (h : t.IsName) (ends : Ends more) : token? (t.lexeme.toList ++ more) = some (t.unplaced, more) := by
  have other : (t.lexeme.toList, t.kind) ∉ symbols := by
    have all : ∀ entry ∈ symbols, entry.2 ≠ .identifier := by decide
    exact fun listed => all _ listed h.1
  rw [token?_of_front (h.2.lexeme.front_ends other ends), unplaced_of_spelled h.2]

theorem token?_paren (rest : List Char) : token? ('(' :: rest) = some (⟨.leftParen, "(", none, .start⟩, rest) :=
  rfl

theorem token?_brace (rest : List Char) : token? ('{' :: rest) = some (⟨.leftBrace, "\x7b", none, .start⟩, rest) :=
  rfl

theorem token?_keyword (word : String) (kind : Kind) (listed : (word, kind) ∈ keywords) (ends : Ends more) :
    token? (word.toList ++ more) = some (⟨kind, word, none, .start⟩, more) := by
  have other : (word.toList, kind) ∉ symbols := by
    have apart : ∀ entry ∈ keywords, entry.2 ∉ symbols.map Prod.snd := by decide
    exact fun symbol => apart _ listed (List.mem_map_of_mem symbol)
  have lexeme : Lexeme kind word.toList := .keyword (String.ofList_toList ▸ listed)
  have plain := keywords_plain _ listed
  rw [token?_of_front (lexeme.front_ends other ends), String.ofList_toList, payload?_none plain.1 plain.2]

theorem kind?_keyword (word : String) (kind : Kind) (listed : (word, kind) ∈ keywords) (ends : Ends more) :
    kind? (word.toList ++ more) = some kind := by
  rw [kind?, token?_keyword word kind listed ends]
  rfl

theorem token?_operator (h : t.Spelled) (rest : List Char) :
    token? (t.lexeme.toList ++ ' ' :: rest) = some (t.unplaced, ' ' :: rest) := by
  have cut : ∀ c ∈ (' ' :: rest).head?, Text.isBlank c = true := by
    rintro c ⟨⟩
    decide
  rw [token?_of_front (h.lexeme.front_cut cut), unplaced_of_spelled h]

theorem after?_append (sign : String) (more : List Char) : after? sign (sign.toList ++ more) = some more :=
  List.dropPrefix?_append_of_beq more BEq.rfl

theorem after?_blank (more : List Char) : after? " " (' ' :: more) = some more :=
  after?_append " " more

theorem prefix_of_after? {sign : String} (h : after? sign text = some rest) : text = sign.toList ++ rest := by
  obtain ⟨opening, rfl, same⟩ := List.dropPrefix?_eq_some_iff.1 h
  rw [eq_of_beq same]

theorem after?_eq_none (sign : String) (read : Option Kind) (signs : ∀ more, kind? (sign.toList ++ more) = read)
    (opens : kind? text = some kind) (apart : read ≠ some kind) : after? sign text = none := by
  cases found : after? sign text with
  | none => rfl
  | some more =>
    rw [prefix_of_after? found, signs more] at opens
    exact absurd opens apart

theorem kind?_name (h : t.IsName) (ends : Ends more) : kind? (t.lexeme.toList ++ more) = some .identifier := by
  rw [kind?, token?_name h ends]
  exact congrArg some h.1

end Token

section Constant

theorem carries_of_spells {q : ℚ} {text : List Char} {x : Float} (h : Decimal.Spells q text)
    (rounds : Decimal.Rounds q x) : Lexeme .number text ∧ Carries .number text (some (.number x)) := by
  cases h with
  | whole nonempty digits value =>
    subst value
    exact ⟨.whole ⟨nonempty, digits⟩, .whole ⟨nonempty, digits⟩ rounds⟩
  | parts nonempty nonempty' digits digits' value =>
    subst value
    have before : IsNumeral _ := ⟨nonempty, digits⟩
    have behind : IsNumeral _ := ⟨nonempty', digits'⟩
    exact ⟨.decimal before behind, .decimal before behind rounds⟩

def literals : List Kind :=
  [.nilWord, .trueWord, .falseWord, .number, .text]

theorem exists_literal {value : Constant} (h : value.Spelled) :
    ∃ t, (∀ more, Ends more → token? (value.render.toList ++ more) = some (t, more)) ∧ t.kind ∈ literals ∧
      Grammar.Operand.ofToken t = .constant value := by
  have plain {kind : Kind} {text : List Char} (mem : kind ∈ literals) : (text, kind) ∉ symbols := by
    have all : ∀ entry ∈ symbols, entry.2 ∉ literals := by decide
    exact fun listed => all _ listed mem
  cases value with
  | nil => exact ⟨_, fun _ => token?_keyword "nil" .nilWord (by decide), by decide, rfl⟩
  | boolean value =>
    cases value with
    | true => exact ⟨_, fun _ => token?_keyword "true" .trueWord (by decide), by decide, rfl⟩
    | false => exact ⟨_, fun _ => token?_keyword "false" .falseWord (by decide), by decide, rfl⟩
  | number value =>
    obtain ⟨q, spells, rounds⟩ := Decimal.exists_spells_numeral h.1 h.2
    obtain ⟨lexeme, carries⟩ := carries_of_spells spells rounds
    refine ⟨_, fun more ends => token?_of_front (lexeme.front_ends (plain (by decide)) ends), by simp [literals], ?_⟩
    have carried : payload? .number (Constant.number value).render.toList = some (.number value) :=
      carries.eq_payload?.symm
    rw [carried]
    rfl
  | text content =>
    have text : (Constant.text content).render.toList = '"' :: content.toList ++ ['"'] := by simp [Constant.render]
    have lexeme := Lexeme.quoted h
    rw [text]
    refine ⟨_, fun more ends => token?_of_front (lexeme.front_ends (plain (by decide)) ends), by simp [literals], ?_⟩
    rw [payload?_quoted, String.ofList_toList]
    rfl

end Constant

section Expression

/-- An expression is read back from its text, whatever follows, unless a word or a number would go on there. -/
def ReadsExpr (e : Expr) : Prop :=
  ∀ n more, e.render.toList.length ≤ n → Ends more →
    expr? n (e.render.toList ++ more) = some (e.view Token.unplaced, more)

def operandTexts (es : List Expr) : List Char :=
  es.flatMap fun e => ' ' :: e.render.toList

theorem toList_renderArguments (es : List Expr) : (Expr.renderArguments es).toList = operandTexts es := by
  induction es with
  | nil => rfl
  | cons e es ih => simp [Expr.renderArguments, operandTexts, ih]

theorem ends_cons {c : Char} (stops : Text.isWordPart c = false ∧ c ≠ '.') (more : List Char) : Ends (c :: more) := by
  rintro d ⟨⟩
  exact stops

theorem operands?_eq {es : List Expr} (each : ∀ e ∈ es, ReadsExpr e) {n : Nat} (enough : (operandTexts es).length < n)
    (more : List Char) :
    operands? n (operandTexts es ++ ')' :: more) = some (es.map (Expr.view Token.unplaced), more) := by
  induction es generalizing n with
  | nil =>
    obtain ⟨n, rfl⟩ := Nat.exists_eq_succ_of_ne_zero (Nat.ne_zero_of_lt enough)
    have closed : after? ")" (')' :: more) = some more := after?_append ")" more
    rw [operandTexts, List.flatMap_nil, List.nil_append, operands?, closed]
    rfl
  | cons e es ih =>
    obtain ⟨n, rfl⟩ := Nat.exists_eq_succ_of_ne_zero (Nat.ne_zero_of_lt enough)
    obtain ⟨first, others⟩ := List.forall_mem_cons.1 each
    have text : operandTexts (e :: es) = ' ' :: (e.render.toList ++ operandTexts es) := by simp [operandTexts]
    rw [text, List.length_cons, List.length_append] at enough
    have ends : Ends (operandTexts es ++ ')' :: more) := by
      cases es with
      | nil => exact ends_cons (by decide) _
      | cons => exact ends_cons (by decide) _
    have closed (rest : List Char) : after? ")" (' ' :: rest) = none := rfl
    rw [text, List.cons_append, List.append_assoc, operands?, closed, after?_blank]
    simp only [Option.bind_eq_bind, Option.bind_some, first n _ (Nat.le_of_lt_succ (by omega)) ends,
      ih others (n := n) (by omega)]
    rfl

theorem readsExpr_node {e : Expr} (head : List Char) (t : Token) (es : List Expr)
    (text : e.render.toList = '(' :: (head ++ (operandTexts es ++ [')']))) (nonempty : es ≠ [])
    (read : ∀ rest, token? (head ++ ' ' :: rest) = some (t, ' ' :: rest))
    (node : node? t (es.map (Expr.view Token.unplaced)) = some (e.view Token.unplaced))
    (each : ∀ e ∈ es, ReadsExpr e) : ReadsExpr e := by
  intro n more enough _
  rw [text] at enough ⊢
  obtain ⟨n, rfl⟩ : ∃ k, n = k + 1 := ⟨n - 1, by simp at enough; omega⟩
  have inside : token? (head ++ (operandTexts es ++ ')' :: more)) = some (t, operandTexts es ++ ')' :: more) := by
    obtain ⟨e, es, rfl⟩ := List.exists_cons_of_ne_nil nonempty
    exact read _
  have operands := operands?_eq each (n := n) (by simp at enough; omega) more
  simp [expr?, token?_paren, inside, operands, node]

theorem readsExpr_atom {e : Expr} {t : Token}
    (read : ∀ more, Ends more → token? (e.render.toList ++ more) = some (t, more))
    (other : t.kind ≠ .leftParen) (atom : atom? t = some (e.view Token.unplaced)) : ReadsExpr e := by
  intro n more enough ends
  cases n with
  | zero =>
    have none : e.render.toList = [] := List.length_eq_zero_iff.1 (Nat.le_zero.1 enough)
    have read := read [] (by simp [Ends])
    rw [none] at read
    cases read
  | succ n => simp [expr?, read more ends, other, atom]

theorem readsExpr_name {name : Token} (h : name.IsName) (id : UseId) : ReadsExpr (.read id name) := by
  have kind : name.unplaced.kind = .identifier := h.1
  refine readsExpr_atom (fun more ends => token?_name h ends) ?_ ?_
  · rw [kind]
    decide
  · rw [atom?, Grammar.Operand.ofToken_eq_variable.2 kind]
    rfl

variable {t : Token}

theorem node?_binary (h : t.kind ∈ binaryOperators) (left right : Expr) :
    node? t [left, right] = some (.binary t left right) := by
  obtain ⟨kind, _, _, _⟩ := t
  simp only [binaryOperators, List.mem_cons, List.not_mem_nil, or_false] at h
  obtain rfl | rfl | rfl | rfl | rfl | rfl | rfl | rfl | rfl | rfl := h <;> rfl

theorem node?_logical (h : t.kind ∈ logicalOperators) (left right : Expr) :
    node? t [left, right] = some (.logical t left right) := by
  obtain ⟨kind, _, _, _⟩ := t
  simp only [logicalOperators, List.mem_cons, List.not_mem_nil, or_false] at h
  obtain rfl | rfl := h <;> rfl

theorem node?_unary (h : t.kind ∈ unaryOperators) (operand : Expr) : node? t [operand] = some (.unary t operand) := by
  obtain ⟨kind, _, _, _⟩ := t
  simp only [unaryOperators, List.mem_cons, List.not_mem_nil, or_false] at h
  obtain rfl | rfl := h <;> rfl

mutual

theorem readsExpr (e : Expr) (h : e.Spelled) : ReadsExpr e := by
  match e with
  | .constant value =>
    obtain ⟨t, read, kind, constant⟩ := exists_literal h
    refine readsExpr_atom read ?_ (by rw [atom?, constant]; rfl)
    exact fun opening => absurd (opening ▸ kind) (by decide)
  | .read id name => exact readsExpr_name h id
  | .assign id name value =>
    refine readsExpr_node ['='] ⟨.assign, "=", none, .start⟩ [.read id name, value] ?_ (by simp) (fun _ => rfl) ?_ ?_
    · simp [Expr.render, operandTexts]
    · simp [node?, Expr.map]
    · simp [readsExpr_name h.1, readsExpr value h.2]
  | .binary operator left right =>
    refine readsExpr_node operator.lexeme.toList operator.unplaced [left, right] ?_ (by simp) (token?_operator h.1) ?_ ?_
    · simp [Expr.render, operandTexts]
    · exact node?_binary (t := operator.unplaced) h.2.1 _ _
    · simp [readsExpr left h.2.2.1, readsExpr right h.2.2.2]
  | .logical operator left right =>
    refine readsExpr_node operator.lexeme.toList operator.unplaced [left, right] ?_ (by simp) (token?_operator h.1) ?_ ?_
    · simp [Expr.render, operandTexts]
    · exact node?_logical (t := operator.unplaced) h.2.1 _ _
    · simp [readsExpr left h.2.2.1, readsExpr right h.2.2.2]
  | .unary operator operand =>
    refine readsExpr_node operator.lexeme.toList operator.unplaced [operand] ?_ (by simp) (token?_operator h.1) ?_ ?_
    · simp [Expr.render, operandTexts]
    · exact node?_unary (t := operator.unplaced) h.2.1 _
    · simp [readsExpr operand h.2.2]
  | .group inner =>
    refine readsExpr_node "group".toList ⟨.identifier, "group", none, .start⟩ [inner] ?_ (by simp) (fun _ => rfl) ?_ ?_
    · simp [Expr.render, operandTexts]
    · simp [node?, word?, Expr.map]
    · simpa using readsExpr inner h
  | .call callee paren arguments =>
    refine readsExpr_node "call".toList ⟨.identifier, "call", none, .start⟩ (callee :: arguments) ?_ (by simp)
      (fun _ => rfl) ?_ ?_
    · simp [Expr.render, operandTexts, toList_renderArguments]
    · simp [node?, word?, Expr.map, h.2.1]
    · exact List.forall_mem_cons.2 ⟨readsExpr callee h.1, readsExprs arguments h.2.2⟩
  | .index target bracket place =>
    refine readsExpr_node "index".toList ⟨.identifier, "index", none, .start⟩ [target, place] ?_ (by simp)
      (fun _ => rfl) ?_ ?_
    · simp [Expr.render, operandTexts]
    · simp [node?, word?, Expr.map, h.2.1]
    · simp [readsExpr target h.1, readsExpr place h.2.2]

theorem readsExprs (es : List Expr) (h : Expr.SpelledIn es) : ∀ e ∈ es, ReadsExpr e := by
  match es with
  | [] => simp
  | e :: rest => exact List.forall_mem_cons.2 ⟨readsExpr e h.1, readsExprs rest h.2⟩

end

end Expression

end Rendering

end Scriptlet
