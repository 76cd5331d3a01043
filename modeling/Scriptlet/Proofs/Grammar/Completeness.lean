import Scriptlet.Proofs.Grammar.Soundness
import Scriptlet.Proofs.Grammar.Recovery

namespace Scriptlet.Grammar

open Outcome Episode Cursor

/-- The kinds of token that a phrase begins with; none are given for a phrase that may be empty. -/
def Phrase.first : Phrase → List Token.Kind
  | .operand _ => operand
  | .expression _ | .operation .. | .series _ => expression
  | .names _ => [.identifier]
  | .variable _ => [.varWord]
  | .statement .. => statement
  | .declaration _ => .varWord :: .funWord :: statement
  | .initial _ => .semicolon :: .varWord :: expression
  | .arguments _ | .clause _ | .parameters _ | .declarations _ => []
where
  operand := [.falseWord, .trueWord, .nilWord, .number, .text, .identifier, .leftParen]
  expression := .minus :: .not :: operand
  statement := .printWord :: .returnWord :: .ifWord :: .whileWord :: .forWord :: .leftBrace :: expression

attribute [simp] Phrase.first Phrase.first.operand Phrase.first.expression Phrase.first.statement

def Begins (kinds : List Token.Kind) (r : List Token) : Prop :=
  ∃ t rest, r = t :: rest ∧ t.kind ∈ kinds

theorem Begins.append {kinds : List Token.Kind} {ts : List Token} (h : Begins kinds ts) (r : List Token) :
    Begins kinds (ts ++ r) := by
  obtain ⟨t, rest, rfl, hk⟩ := h
  exact ⟨t, rest ++ r, rfl, hk⟩

theorem Begins.mono {kinds kinds' : List Token.Kind} {ts : List Token} (h : Begins kinds ts) (sub : kinds ⊆ kinds') :
    Begins kinds' ts := by
  obtain ⟨t, rest, rfl, hk⟩ := h
  exact ⟨t, rest, rfl, sub hk⟩

theorem Begins.apart {kinds others : List Token.Kind} {ts : List Token} (h : Begins kinds ts)
    (apart : ∀ kind ∈ kinds, kind ∉ others) : ¬Begins others ts := by
  rintro ⟨t, rest, rfl, hk⟩
  obtain ⟨_, _, ⟨⟩, hk'⟩ := h
  exact apart _ hk' hk

theorem Begins.cons {kind : Token.Kind} {kinds : List Token.Kind} {t : Token} {rest : List Token}
    (hk : t.kind = kind) (h : kind ∈ kinds) : Begins kinds (t :: rest) :=
  ⟨t, rest, rfl, hk ▸ h⟩

theorem Literal.first {t : Token} {value : Constant} (h : Literal t value) : t.kind ∈ Phrase.first.operand := by
  cases h <;> simp_all

theorem Derives.begins {phrase : Phrase} {ts : List Token} (h : Derives phrase ts) :
    phrase.first = [] ∨ Begins phrase.first ts := by
  have found {kinds : List Token.Kind} {ts : List Token} (ne : kinds ≠ []) (h : kinds = [] ∨ Begins kinds ts) :
      Begins kinds ts := h.resolve_left ne
  induction h with
  | assign hk => exact .inr (.cons hk (by simp))
  | expression _ ih => exact ih
  | tighter _ ih => exact ih
  | binary _ _ _ ih => exact .inr ((found (by simp) ih).append _)
  | unary hk => exact .inr ⟨_, _, rfl, by rcases hk with hk | hk <;> simp [hk]⟩
  | operand _ ih => exact .inr ((found (by simp) ih).mono (by simp))
  | constant hl => exact .inr ⟨_, _, rfl, hl.first⟩
  | read hk => exact .inr (.cons hk (by simp))
  | group hk => exact .inr (.cons hk (by simp))
  | call _ _ _ _ _ ih => exact .inr ((found (by simp) ih).append _)
  | index _ _ _ _ ih => exact .inr ((found (by simp) ih).append _)
  | last _ ih => exact ih
  | next _ _ _ ih => exact .inr ((found (by simp) ih).append _)
  | lastName hk => exact .inr (.cons hk (by simp))
  | nextName hk => exact .inr (.cons hk (by simp))
  | bare hk => exact .inr (.cons hk (by simp))
  | defined hk => exact .inr (.cons hk (by simp))
  | noInitial hk => exact .inr (.cons hk (by simp))
  | initialVariable _ ih => exact .inr ((found (by simp) ih).mono (by simp))
  | initialExpression _ _ ih => exact .inr (((found (by simp) ih).mono (by simp)).append _)
  | evaluate _ _ ih => exact .inr (((found (by simp) ih).mono (by simp)).append _)
  | print hk => exact .inr (.cons hk (by simp))
  | leave hk => exact .inr (.cons hk (by simp))
  | block hk => exact .inr (.cons hk (by simp))
  | ifThen hk => exact .inr (.cons hk (by simp))
  | ifElse hk => exact .inr (.cons hk (by simp))
  | loop hk => exact .inr (.cons hk (by simp))
  | forLoop hk => exact .inr (.cons hk (by simp))
  | declare _ ih => exact .inr ((found (by simp) ih).mono (by simp))
  | function hk => exact .inr (.cons hk (by simp))
  | statement _ ih => exact .inr ((found (by simp) ih).mono (by simp))
  | _ => exact .inl rfl

def Cursor.At (r : List Token) (c : Cursor) : Prop :=
  c.rest = r ∧ c.Calm

namespace Cursor.At

variable {c : Cursor} {t : Token} {r : List Token}

theorem sees (h : c.At (t :: r)) (kind : Token.Kind) : c.sees kind = (t.kind == kind) :=
  sees_cons h.1 kind

theorem sees_of_begins {kind : Token.Kind} (h : c.At r) (b : Begins [kind] r) : c.sees kind = true := by
  obtain ⟨t, rest, rfl, hk⟩ := b
  simpa [h.sees] using hk

theorem not_sees {kinds : List Token.Kind} (h : c.At r) (b : Begins kinds r) {kind : Token.Kind}
    (other : kind ∉ kinds) : c.sees kind = false := by
  obtain ⟨t, rest, rfl, hk⟩ := b
  rw [h.sees, beq_eq_false_iff_ne]
  rintro rfl
  exact other hk

theorem advance (h : c.At (t :: r)) : c.advance.At r := by
  rw [advance_cons h.1]
  exact ⟨rfl, h.2⟩

theorem previous_advance (h : c.At (t :: r)) : c.advance.previous = t := by
  rw [advance_cons h.1]

theorem expect_eq (h : c.At (t :: r)) (slot : Slot) (hk : t.kind = slot.kind) : c.expect slot = c.advance :=
  expect_of_sees (by simp [h.sees, hk])

theorem expect (h : c.At (t :: r)) (slot : Slot) (hk : t.kind = slot.kind) : (c.expect slot).At r := by
  rw [h.expect_eq slot hk]
  exact h.advance

theorem previous_expect (h : c.At (t :: r)) (slot : Slot) (hk : t.kind = slot.kind) :
    (c.expect slot).previous = t := by
  rw [h.expect_eq slot hk, h.previous_advance]

end Cursor.At

theorem limit_of_lt {count : Nat} (few : count < maxArguments) (fault : Fault) (c : Cursor) :
    Reader.limit count fault c = some ((), c) := by
  simp [Reader.limit, Nat.not_le.2 few, Reader.pure_run]

def Stops (tiers : List Tier) (r : List Token) : Prop :=
  ∀ t rest, r = t :: rest →
    t.kind ≠ .leftParen ∧ t.kind ≠ .leftSquare ∧ ∀ tier ∈ tiers, t.kind ∉ tier.operators

def endings : List Token.Kind :=
  [.semicolon, .rightParen, .rightSquare, .comma]

theorem Stops.of_begins {r : List Token} (h : Begins (.assign :: endings) r) {tiers : List Tier}
    (all : tiers <:+ Tier.all) : Stops tiers r := by
  obtain ⟨t, rest, rfl, hk⟩ := h
  have table : ∀ kind ∈ Token.Kind.assign :: endings, kind ≠ .leftParen ∧ kind ≠ .leftSquare ∧
      ∀ tier ∈ Tier.all, kind ∉ tier.operators := by decide
  obtain ⟨paren, square, operator⟩ := table _ hk
  rintro _ _ ⟨⟩
  exact ⟨paren, square, fun tier ht => operator tier (all.subset ht)⟩

theorem Stops.of_operator {tier : Tier} {tighter : List Tier} (all : tier :: tighter <:+ Tier.all)
    {operator : Token} (hk : operator.kind ∈ tier.operators) (r : List Token) : Stops tighter (operator :: r) := by
  have plain : ∀ tier ∈ Tier.all, ∀ kind ∈ tier.operators, kind ≠ .leftParen ∧ kind ≠ .leftSquare := by decide
  have apart : Tier.all.Pairwise fun tier other => ∀ kind ∈ tier.operators, kind ∉ other.operators := by decide
  obtain ⟨paren, square⟩ := plain tier (all.subset List.mem_cons_self) _ hk
  rintro _ _ ⟨⟩
  refine ⟨paren, square, fun other ho => ?_⟩
  exact (List.pairwise_cons.1 (apart.sublist all.sublist)).1 other ho _ hk

theorem Stops.tail {tier : Tier} {tighter : List Tier} {r : List Token} (h : Stops (tier :: tighter) r) :
    Stops tighter r := by
  intro t rest hr
  obtain ⟨paren, square, operator⟩ := h t rest hr
  exact ⟨paren, square, fun other ho => operator other (List.mem_cons_of_mem _ ho)⟩

theorem operationRest_of_stops {tier : Tier} {tighter : List Tier} {r : List Token} (stops : Stops (tier :: tighter) r)
    {c : Cursor} (hc : c.At r) (n : Nat) (left : Expr) :
    Ensures (operationRest n tier tighter left c) fun e d => e = left ∧ d = c := by
  cases n with
  | zero => exact .none
  | succ n =>
    have none : tier.operators.any c.sees = false := by
      rw [List.any_eq_false]
      intro kind hk seen
      obtain ⟨t, rest, hrest, rfl⟩ := sees_iff.1 seen
      exact (stops t rest (hc.1.symm.trans hrest)).2.2 tier List.mem_cons_self hk
    rw [operationRest_succ, none]
    exact .some ⟨rfl, rfl⟩

theorem suffixes_of_stops {r : List Token} (stops : Stops [] r) {c : Cursor} (hc : c.At r) (n : Nat) (target : Expr) :
    Ensures (suffixes n target c) fun e d => e = target ∧ d = c := by
  cases n with
  | zero => exact .none
  | succ n =>
    have unseen {kind : Token.Kind} (h : ∀ t rest, r = t :: rest → t.kind ≠ kind) : c.sees kind = false := by
      refine Bool.eq_false_iff.2 fun seen => ?_
      obtain ⟨t, rest, hrest, hk⟩ := sees_iff.1 seen
      exact h t rest (hc.1.symm.trans hrest) hk
    rw [suffixes_succ, unseen fun t rest hr => (stops t rest hr).1, unseen fun t rest hr => (stops t rest hr).2.1]
    exact .some ⟨rfl, rfl⟩

/-- The reader behaves on some tokens as the phrase that they spell demands. -/
def Completes (ts : List Token) : Phrase → Prop
  | .expression e => ∀ (c : Cursor) r n, c.At (ts ++ r) → Begins endings r →
    Ensures (expression n c) fun a d => a.unnumbered = e.unnumbered ∧ d.At r
  | .operation [] e => ∀ (c : Cursor) r n, c.At (ts ++ r) → Stops [] r →
    Ensures (unary n c) fun a d => a.unnumbered = e.unnumbered ∧ d.At r
  | .operation (tier :: tighter) e => tier :: tighter <:+ Tier.all → ∀ (c : Cursor) r n, c.At (ts ++ r) →
    Stops tighter r →
    Ensures (operation n (tier :: tighter) c) fun a d => ∃ m left c', left.unnumbered = e.unnumbered ∧ c'.At r ∧
      operationRest m tier tighter left c' = some (a, d)
  | .operand e => ∀ (c : Cursor) r n, c.At (ts ++ r) →
    Ensures (andThen (primary n c) fun callee d => suffixes n callee d) fun a d =>
      ∃ m left c', left.unnumbered = e.unnumbered ∧ c'.At r ∧ suffixes m left c' = some (a, d)
  | .series es => ∀ (c : Cursor) r n count, c.At (ts ++ r) → Begins [.rightParen] r →
    es.length + count ≤ maxArguments + 1 →
    Ensures (arguments n count c) fun a d => a.map Expr.unnumbered = es.map Expr.unnumbered ∧ d.At r
  | .arguments es => ∀ (c : Cursor) r n, c.At (ts ++ r) → Begins [.rightParen] r → es.length ≤ maxArguments →
    Ensures (if c.sees .rightParen then some ([], c) else arguments n 1 c) fun a d =>
      a.map Expr.unnumbered = es.map Expr.unnumbered ∧ d.At r
  | .clause e? => ∀ (c : Cursor) r n closing, c.At (ts ++ r) → closing ∈ endings → Begins [closing] r →
    Ensures (expressionUnless n closing c) fun a d => a.map Expr.unnumbered = e?.map Expr.unnumbered ∧ d.At r
  | .names names => ∀ (c : Cursor) r n count, c.At (ts ++ r) → Begins [.rightParen] r →
    names.length + count ≤ maxArguments →
    Ensures (parameters n count c) fun a d => a = names ∧ d.At r
  | .parameters names => ∀ (c : Cursor) r n, c.At (ts ++ r) → Begins [.rightParen] r → names.length ≤ maxArguments →
    Ensures (if c.sees .rightParen then some ([], c) else parameters n 0 c) fun a d => a = names ∧ d.At r
  | .variable stmt => ∀ (c : Cursor) r n, c.At (ts ++ r) →
    Ensures (variableDeclaration n c.advance) fun a d => a.unnumbered = stmt.unnumbered ∧ d.At r
  | .initial stmt? => ∀ (c : Cursor) r n, c.At (ts ++ r) →
    Ensures (forInitial n c) fun a d => a.map Stmt.unnumbered = stmt?.map Stmt.unnumbered ∧ d.At r
  | .statement dangling stmt => ∀ (c : Cursor) r n, c.At (ts ++ r) → (dangling = true → ¬Begins [.elseWord] r) →
    Ensures (statement n c) fun a d => a.unnumbered = stmt.unnumbered ∧ d.At r
  | .declaration stmt => ∀ (c : Cursor) r n, c.At (ts ++ r) → ¬Begins [.elseWord] r →
    Ensures (anyDeclaration n c) fun a d => a.unnumbered = stmt.unnumbered ∧ d.At r
  | .declarations program => ∀ (c : Cursor) r n nested, c.At (ts ++ r) →
    r = [] ∨ nested = true ∧ Begins [.rightBrace] r →
    Ensures (declarations n nested c) fun a d => a.map Stmt.unnumbered = program.map Stmt.unnumbered ∧ d.At r

namespace Completes

section Expressions

variable {e : Expr} {ts us : List Token}

theorem operand (h : Completes ts (.operand e)) (first : Begins Phrase.first.operand ts) :
    Completes ts (.operation [] e) := by
  intro c r n hc stops
  cases n with
  | zero => exact .none
  | succ n =>
    have plain : [Token.Kind.minus, .not].any c.sees = false := by
      simp [hc.not_sees (first.append r)]
    rw [unary_succ, plain]
    intro a d run
    obtain ⟨m, left, c', same, hc', rest⟩ := h c r n hc a d run
    obtain ⟨rfl, rfl⟩ := suffixes_of_stops stops hc' m left a d rest
    exact ⟨same, hc'⟩

theorem operation {tiers : List Tier} (h : Completes ts (.operation tiers e)) (all : tiers <:+ Tier.all)
    {c : Cursor} {r : List Token} (hc : c.At (ts ++ r)) (stops : Stops tiers r) (n : Nat) :
    Ensures (operation n tiers c) fun a d => a.unnumbered = e.unnumbered ∧ d.At r := by
  cases tiers with
  | nil =>
    cases n with
    | zero => exact .none
    | succ n => exact h c r n hc stops
  | cons tier tighter =>
    intro a d run
    obtain ⟨m, left, c', same, hc', rest⟩ := h all c r n hc stops.tail a d run
    obtain ⟨rfl, rfl⟩ := operationRest_of_stops stops hc' m left a d rest
    exact ⟨same, hc'⟩

theorem tighter {tier : Tier} {tighter : List Tier} (h : Completes ts (.operation tighter e)) :
    Completes ts (.operation (tier :: tighter) e) := by
  intro all c r n hc stops
  cases n with
  | zero => exact .none
  | succ n =>
    rw [operation_cons]
    refine (h.operation ((List.suffix_cons _ _).trans all) hc stops n).andThen fun left d ⟨same, hd⟩ => ?_
    exact fun a f run => ⟨n, left, d, same, hd, run⟩

theorem binary {tier : Tier} {tighter : List Tier} {left right : Expr} {operator : Token}
    (hl : Completes ts (.operation (tier :: tighter) left)) (hk : operator.kind ∈ tier.operators)
    (hr : Completes us (.operation tighter right)) :
    Completes (ts ++ operator :: us) (.operation (tier :: tighter) (tier.node operator left right)) := by
  intro all c r n hc stops a d run
  rw [List.append_assoc] at hc
  obtain ⟨m, l, c', same, hc', rest⟩ := hl all c _ n hc (.of_operator all hk _) a d run
  cases m with
  | zero => cases rest
  | succ m =>
    have seen : tier.operators.any c'.sees = true := List.any_eq_true.2 ⟨_, hk, by simp [hc'.sees]⟩
    rw [operationRest_succ, if_pos seen] at rest
    obtain ⟨r', d', run, rest⟩ := andThen_eq_some.1 rest
    obtain ⟨same', hd'⟩ :=
      hr.operation ((List.suffix_cons _ _).trans all) hc'.advance stops m r' d' run
    refine ⟨m, _, d', ?_, hd', rest⟩
    rw [hc'.previous_advance]
    unfold Tier.node
    split <;> simp_all [Expr.map]

theorem unary {operator : Token} (hk : operator.kind = .minus ∨ operator.kind = .not)
    (h : Completes ts (.operation [] e)) : Completes (operator :: ts) (.operation [] (.unary operator e)) := by
  intro c r n hc stops
  cases n with
  | zero => exact .none
  | succ n =>
    have seen : [Token.Kind.minus, .not].any c.sees = true := by simp [hc.sees, hk]
    rw [unary_succ, if_pos seen]
    refine (h c.advance r n hc.advance stops).andThen fun a d ⟨same, hd⟩ => .some ⟨?_, hd⟩
    rw [hc.previous_advance]
    simp [Expr.map, same]

theorem constant {t : Token} {value : Constant} (h : Literal t value) : Completes [t] (.operand (.constant value)) := by
  intro c r n hc
  cases n with
  | zero => exact .none
  | succ n =>
    simp only [primary_succ, hc.1, List.cons_append, List.nil_append, h.ofToken, some_andThen]
    exact fun a d run => ⟨_, _, _, rfl, hc.advance, run⟩

theorem read {id : UseId} {name : Token} (h : name.kind = .identifier) :
    Completes [name] (.operand (.read id name)) := by
  intro c r n hc
  cases n with
  | zero => exact .none
  | succ n =>
    simp only [primary_succ, hc.1, List.cons_append, List.nil_append, Operand.ofToken_eq_variable.2 h, some_andThen]
    intro a d run
    refine ⟨_, _, _, ?_, ?_, run⟩
    · simp [Expr.map]
    · exact hc.advance

theorem group {opening closing : Token} (hk : opening.kind = .leftParen) (h : Completes ts (.expression e))
    (hk' : closing.kind = .rightParen) : Completes (opening :: ts ++ [closing]) (.operand (.group e)) := by
  intro c r n hc
  cases n with
  | zero => exact .none
  | succ n =>
    simp only [List.cons_append, List.append_assoc, List.nil_append] at hc
    simp only [primary_succ, hc.1, Operand.ofToken_eq_group.2 hk, andThen_assoc, some_andThen]
    refine (h c.advance _ n hc.advance (.cons hk' (by decide))).andThen fun inner d ⟨same, hd⟩ => ?_
    exact fun a f run => ⟨_, _, _, by simp [Expr.map, same], hd.expect .groupEnd hk', run⟩

theorem call {callee : Expr} {es : List Expr} {opening closing : Token} (h : Completes ts (.operand callee))
    (hk : opening.kind = .leftParen) (hes : Completes us (.arguments es)) (few : es.length ≤ maxArguments)
    (hk' : closing.kind = .rightParen) :
    Completes (ts ++ (opening :: us ++ [closing])) (.operand (.call callee closing es)) := by
  intro c r n hc a d run
  simp only [List.append_assoc, List.cons_append, List.nil_append] at hc
  obtain ⟨m, left, c', same, hc', rest⟩ := h c _ n hc a d run
  cases m with
  | zero => cases rest
  | succ m =>
    rw [suffixes_succ, if_pos (by simp [hc'.sees, hk])] at rest
    obtain ⟨es', d', run, rest⟩ := andThen_eq_some.1 rest
    obtain ⟨same', hd'⟩ := hes c'.advance _ m hc'.advance (.cons hk' (by simp)) few es' d' run
    refine ⟨m, _, _, ?_, hd'.expect .argumentsEnd hk', rest⟩
    simp [Expr.map, same, same', hd'.previous_expect .argumentsEnd hk']

theorem index {target place : Expr} {opening closing : Token} (h : Completes ts (.operand target))
    (hk : opening.kind = .leftSquare) (hp : Completes us (.expression place)) (hk' : closing.kind = .rightSquare) :
    Completes (ts ++ (opening :: us ++ [closing])) (.operand (.index target opening place)) := by
  intro c r n hc a d run
  simp only [List.append_assoc, List.cons_append, List.nil_append] at hc
  obtain ⟨m, left, c', same, hc', rest⟩ := h c _ n hc a d run
  cases m with
  | zero => cases rest
  | succ m =>
    rw [suffixes_succ, if_neg (by simp [hc'.sees, hk]), if_pos (by simp [hc'.sees, hk])] at rest
    obtain ⟨place', d', run, rest⟩ := andThen_eq_some.1 rest
    obtain ⟨same', hd'⟩ := hp c'.advance _ m hc'.advance (.cons hk' (by decide)) place' d' run
    refine ⟨m, _, _, ?_, hd'.expect .indexEnd hk', rest⟩
    simp [Expr.map, same, same', hc'.previous_advance]

theorem expression (h : Completes ts (.operation Tier.all e)) : Completes ts (.expression e) := by
  intro c r n hc ends
  cases n with
  | zero => exact .none
  | succ n =>
    rw [expression_succ]
    have stops : Stops Tier.all r := .of_begins (ends.mono (List.subset_cons_self _ _)) List.suffix_rfl
    refine (h.operation List.suffix_rfl hc stops n).andThen fun a d ⟨same, hd⟩ => ?_
    rw [hd.not_sees ends (by decide)]
    exact .some ⟨same, hd⟩

theorem of_operand (h : Completes ts (.operand e)) (first : Begins Phrase.first.operand ts) (tiers : List Tier) :
    Completes ts (.operation tiers e) := by
  induction tiers with
  | nil => exact h.operand first
  | cons tier tiers ih => exact ih.tighter

theorem assign {id : UseId} {name equals : Token} {value : Expr} (hn : name.kind = .identifier)
    (hk : equals.kind = .assign) (h : Completes ts (.expression value)) :
    Completes (name :: equals :: ts) (.expression (.assign id name value)) := by
  intro c r n hc ends
  cases n with
  | zero => exact .none
  | succ n =>
    rw [expression_succ]
    have target : Completes [name] (.operation Tier.all (.read id name)) :=
      (read hn).of_operand (.cons hn (by decide)) Tier.all
    have stops : Stops Tier.all (equals :: (ts ++ r)) := .of_begins (.cons hk (by decide)) List.suffix_rfl
    refine (target.operation List.suffix_rfl hc stops n).andThen fun a d ⟨same, hd⟩ => ?_
    rw [if_pos (by simp [hd.sees, hk])]
    refine (h d.advance r n hd.advance ends).andThen fun value' f ⟨same', hf⟩ => ?_
    cases a with
    | read id' name' =>
      refine .some ⟨?_, hf⟩
      simp only [Expr.map, id_eq, Expr.read.injEq, true_and] at same
      simp [Expr.map, same, same']
    | _ => simp [Expr.map] at same

theorem last (h : Completes ts (.expression e)) : Completes ts (.series [e]) := by
  intro c r n count hc ends few
  cases n with
  | zero => exact .none
  | succ n =>
    rw [arguments_succ]
    refine (h c r n hc (ends.mono (by decide))).andThen fun a d ⟨same, hd⟩ => ?_
    rw [hd.not_sees ends (by decide)]
    exact .some ⟨by simp [same], hd⟩

theorem next {es : List Expr} {comma : Token} (h : Completes ts (.expression e)) (hk : comma.kind = .comma)
    (hes : Completes us (.series es)) (some : es ≠ []) : Completes (ts ++ comma :: us) (.series (e :: es)) := by
  intro c r n count hc ends few
  cases n with
  | zero => exact .none
  | succ n =>
    rw [List.append_assoc] at hc
    rw [arguments_succ]
    refine (h c _ n hc (.cons hk (by decide))).andThen fun a d ⟨same, hd⟩ => ?_
    simp only [List.length_cons] at few
    have := List.length_pos_iff.2 some
    rw [if_pos (by simp [hd.sees, hk]), limit_of_lt (by omega), some_andThen]
    refine (hes d.advance r n (count + 1) hd.advance ends (by omega)).andThen fun es' f ⟨same', hf⟩ => .some ⟨?_, hf⟩
    simp [same, same']

theorem noArguments : Completes [] (.arguments []) := by
  intro c r n hc ends few
  rw [hc.sees_of_begins ends]
  exact .some ⟨rfl, hc⟩

theorem arguments {es : List Expr} (h : Completes ts (.series es)) (first : Begins Phrase.first.expression ts) :
    Completes ts (.arguments es) := by
  intro c r n hc ends few
  rw [hc.not_sees (first.append r) (by decide)]
  exact h c r n 1 hc ends (by omega)

theorem noClause : Completes [] (.clause none) := by
  intro c r n closing hc _ ends
  rw [expressionUnless_run, hc.sees_of_begins ends]
  exact .some ⟨rfl, hc⟩

theorem clause (h : Completes ts (.expression e)) (first : Begins Phrase.first.expression ts) :
    Completes ts (.clause (some e)) := by
  intro c r n closing hc hk ends
  have apart : ∀ kind ∈ endings, kind ∉ Phrase.first.expression := by decide
  rw [expressionUnless_run, if_neg (by simp [hc.not_sees (first.append r) (apart closing hk)])]
  refine (h c r n hc (ends.mono (by simpa using hk))).andThen fun a d ⟨same, hd⟩ => .some ⟨?_, hd⟩
  simp [same]

end Expressions

section Statements

variable {stmt : Stmt} {ts us : List Token}

theorem lastName {name : Token} (hn : name.kind = .identifier) : Completes [name] (.names [name]) := by
  intro c r n count hc ends few
  cases n with
  | zero => exact .none
  | succ n =>
    simp only [List.length_cons, List.length_nil] at few
    have hd := hc.expect .parameterName hn
    rw [parameters_succ, limit_of_lt (by omega), some_andThen, if_neg (by simp [hd.not_sees ends])]
    exact .some ⟨by rw [hc.previous_expect .parameterName hn], hd⟩

theorem nextName {name comma : Token} {names : List Token} (hn : name.kind = .identifier) (hk : comma.kind = .comma)
    (h : Completes ts (.names names)) : Completes (name :: comma :: ts) (.names (name :: names)) := by
  intro c r n count hc ends few
  cases n with
  | zero => exact .none
  | succ n =>
    simp only [List.length_cons] at few
    have hd := hc.expect .parameterName hn
    rw [parameters_succ, limit_of_lt (by omega), some_andThen, if_pos (by simp [hd.sees, hk])]
    refine (h _ r n (count + 1) hd.advance ends (by omega)).andThen fun names' f ⟨same, hf⟩ => .some ⟨?_, hf⟩
    rw [hc.previous_expect .parameterName hn, same]

theorem noParameters : Completes [] (.parameters []) := by
  intro c r n hc ends few
  rw [if_pos (hc.sees_of_begins ends)]
  exact .some ⟨rfl, hc⟩

theorem parameters {names : List Token} (h : Completes ts (.names names)) (first : Begins [.identifier] ts) :
    Completes ts (.parameters names) := by
  intro c r n hc ends few
  rw [if_neg (by simp [hc.not_sees (first.append r)])]
  exact h c r n 0 hc ends few

theorem bare {keyword name close : Token} (hn : name.kind = .identifier) (hk : close.kind = .semicolon) :
    Completes [keyword, name, close] (.variable (.declare name none)) := by
  intro c r n hc
  have hd := hc.advance.expect .variableName hn
  rw [variableDeclaration_run, if_neg (by simp [hd.sees, hk]), some_andThen]
  exact .some ⟨by rw [hc.advance.previous_expect .variableName hn], hd.expect .declarationEnd hk⟩

theorem defined {keyword name equals close : Token} {e : Expr} (hn : name.kind = .identifier)
    (he : equals.kind = .assign) (h : Completes ts (.expression e)) (hk : close.kind = .semicolon) :
    Completes (keyword :: name :: equals :: ts ++ [close]) (.variable (.declare name (some e))) := by
  intro c r n hc
  simp only [List.cons_append, List.append_assoc, List.nil_append] at hc
  have hd := hc.advance.expect .variableName hn
  rw [variableDeclaration_run, if_pos (by simp [hd.sees, he]), andThen_assoc]
  refine (h _ _ n hd.advance (.cons hk (by decide))).andThen fun a f ⟨same, hf⟩ => ?_
  refine .some ⟨?_, hf.expect .declarationEnd hk⟩
  simp [Stmt.map, hc.advance.previous_expect .variableName hn, same]

theorem expressionStatement {e : Expr} {close : Token} (h : Completes ts (.expression e))
    (hk : close.kind = .semicolon) {c : Cursor} {r : List Token} (hc : c.At (ts ++ [close] ++ r)) (n : Nat) :
    Ensures (expressionStatement n c) fun a d => a.unnumbered = Stmt.unnumbered (.expression e) ∧ d.At r := by
  rw [List.append_assoc] at hc
  rw [expressionStatement_run]
  refine (h c _ n hc (.cons hk (by decide))).andThen fun a d ⟨same, hd⟩ => .some ⟨?_, hd.expect .expressionEnd hk⟩
  simp [Stmt.map, same]

theorem noInitial {close : Token} (hk : close.kind = .semicolon) : Completes [close] (.initial none) := by
  intro c r n hc
  rw [forInitial_run, if_pos (by simp [hc.sees, hk])]
  exact .some ⟨rfl, hc.advance⟩

theorem initialVariable (h : Completes ts (.variable stmt)) (first : Begins [.varWord] ts) :
    Completes ts (.initial (some stmt)) := by
  intro c r n hc
  rw [forInitial_run, if_neg (by simp [hc.not_sees (first.append r)]),
    if_pos (hc.sees_of_begins (first.append r))]
  exact (h c r n hc).andThen fun a d ⟨same, hd⟩ => .some ⟨by simp [same], hd⟩

theorem initialExpression {e : Expr} {close : Token} (h : Completes ts (.expression e))
    (first : Begins Phrase.first.expression ts) (hk : close.kind = .semicolon) :
    Completes (ts ++ [close]) (.initial (some (.expression e))) := by
  intro c r n hc
  have begins := (first.append [close]).append r
  rw [forInitial_run, if_neg (by simp [hc.not_sees begins]), if_neg (by simp [hc.not_sees begins])]
  exact (h.expressionStatement hk hc n).andThen fun a d ⟨same, hd⟩ => .some ⟨by simp [same], hd⟩

theorem evaluate {e : Expr} {close : Token} (h : Completes ts (.expression e))
    (first : Begins Phrase.first.expression ts) (hk : close.kind = .semicolon) :
    Completes (ts ++ [close]) (.statement false (.expression e)) := by
  intro c r n hc _
  cases n with
  | zero => exact .none
  | succ n =>
    have begins := (first.append [close]).append r
    have other {kind : Token.Kind} (h : kind ∉ Phrase.first.expression) : ¬c.sees kind = true := by
      simp [hc.not_sees begins h]
    rw [statement_succ, if_neg (other (by decide)), if_neg (other (by decide)), if_neg (other (by decide)),
      if_neg (other (by decide)), if_neg (other (by decide)), if_neg (other (by decide))]
    exact h.expressionStatement hk hc n

theorem print {keyword close : Token} {e : Expr} (hk : keyword.kind = .printWord) (h : Completes ts (.expression e))
    (hk' : close.kind = .semicolon) : Completes (keyword :: ts ++ [close]) (.statement false (.print e)) := by
  intro c r n hc _
  cases n with
  | zero => exact .none
  | succ n =>
    simp only [List.cons_append, List.append_assoc, List.nil_append] at hc
    rw [statement_succ, if_pos (by simp [hc.sees, hk]), printStatement_run]
    refine (h _ _ n hc.advance (.cons hk' (by decide))).andThen fun a d ⟨same, hd⟩ => ?_
    exact .some ⟨by simp [Stmt.map, same], hd.expect .printEnd hk'⟩

theorem leave {keyword close : Token} {e? : Option Expr} (hk : keyword.kind = .returnWord)
    (h : Completes ts (.clause e?)) (hk' : close.kind = .semicolon) :
    Completes (keyword :: ts ++ [close]) (.statement false (.leave keyword e?)) := by
  intro c r n hc _
  cases n with
  | zero => exact .none
  | succ n =>
    simp only [List.cons_append, List.append_assoc, List.nil_append] at hc
    rw [statement_succ, if_neg (by simp [hc.sees, hk]), if_pos (by simp [hc.sees, hk]), returnStatement_run]
    refine (h _ _ n .semicolon hc.advance (by decide) (.cons hk' (by decide))).andThen fun a d ⟨same, hd⟩ => ?_
    exact .some ⟨by simp [Stmt.map, same, hc.previous_advance], hd.expect .returnEnd hk'⟩

theorem enclosed {body : List Stmt} {closing : Token} (h : Completes ts (.declarations body))
    (hk : closing.kind = .rightBrace) {c : Cursor} {r : List Token} (hc : c.At (ts ++ closing :: r)) (n : Nat) :
    Ensures (Grammar.block n c) fun a d => a.map Stmt.unnumbered = body.map Stmt.unnumbered ∧ d.At r := by
  cases n with
  | zero => exact .none
  | succ n =>
    have hc : ({ c with depth := c.depth + 1 } : Cursor).At (ts ++ closing :: r) := hc
    rw [block_succ]
    refine (h _ _ n true hc (.inr ⟨rfl, .cons hk (by simp)⟩)).andThen fun a d ⟨same, hd⟩ => ?_
    have hd : ({ d with depth := d.depth - 1 } : Cursor).At (closing :: r) := hd
    exact .some ⟨same, hd.expect .blockEnd hk⟩

theorem block {opening closing : Token} {body : List Stmt} (hk : opening.kind = .leftBrace)
    (h : Completes ts (.declarations body)) (hk' : closing.kind = .rightBrace) :
    Completes (opening :: ts ++ [closing]) (.statement false (.block body)) := by
  intro c r n hc _
  cases n with
  | zero => exact .none
  | succ n =>
    simp only [List.cons_append, List.append_assoc, List.nil_append] at hc
    have other {kind : Token.Kind} (h : kind ≠ .leftBrace) : ¬c.sees kind = true := by simp [hc.sees, hk, h.symm]
    rw [statement_succ, if_neg (other (by decide)), if_neg (other (by decide)), if_neg (other (by decide)),
      if_neg (other (by decide)), if_neg (other (by decide)), if_pos (by simp [hc.sees, hk])]
    refine (h.enclosed hk' hc.advance n).andThen fun a d ⟨same, hd⟩ => .some ⟨?_, hd⟩
    simp [Stmt.map, same]

theorem condition {e : Expr} {opening closing : Token} (start stop : Slot) (ho : opening.kind = start.kind)
    (h : Completes ts (.expression e)) (hk : closing.kind = stop.kind) (paren : stop.kind = .rightParen)
    {c : Cursor} {r : List Token} (hc : c.At (opening :: (ts ++ closing :: r))) (n : Nat) :
    Ensures (Grammar.expression n (c.expect start)) fun a d => a.unnumbered = e.unnumbered ∧ (d.expect stop).At r := by
  refine (h _ _ n (hc.expect start ho) (.cons (hk.trans paren) (by decide))).imp fun a d ⟨same, hd⟩ => ?_
  exact ⟨same, hd.expect stop hk⟩

theorem statement_if {keyword : Token} {c : Cursor} {r : List Token} (hc : c.At (keyword :: r))
    (hk : keyword.kind = .ifWord) (n : Nat) : Grammar.statement (n + 1) c = ifStatement n c.advance := by
  rw [statement_succ, if_neg (by simp [hc.sees, hk]), if_neg (by simp [hc.sees, hk]), if_pos (by simp [hc.sees, hk])]

theorem ifThen {keyword opening closing : Token} {e : Expr} {dangling : Bool} {yes : Stmt}
    (hk : keyword.kind = .ifWord) (ho : opening.kind = .leftParen) (h : Completes ts (.expression e))
    (hk' : closing.kind = .rightParen) (hy : Completes us (.statement dangling yes)) :
    Completes (keyword :: opening :: ts ++ closing :: us) (.statement true (.ifThen e yes)) := by
  intro c r n hc follows
  simp only [List.cons_append, List.append_assoc] at hc
  obtain _ | n := n
  · exact .none
  rw [statement_if hc hk]
  obtain _ | n := n
  · exact .none
  rw [ifStatement_succ]
  refine (condition .ifStart .ifEnd ho h hk' rfl hc.advance n).andThen fun a d ⟨same, hd⟩ => ?_
  refine (hy _ r n hd fun _ => follows rfl).andThen fun b f ⟨same', hf⟩ => ?_
  have unseen : ¬f.sees .elseWord = true := by
    intro seen
    obtain ⟨t, rest, hrest, ht⟩ := sees_iff.1 seen
    exact follows rfl ⟨t, rest, hf.1.symm.trans hrest, by simp [ht]⟩
  rw [if_neg unseen]
  exact .some ⟨by simp [Stmt.map, same, same'], hf⟩

theorem ifElse {keyword opening closing other : Token} {e : Expr} {dangling : Bool} {yes no : Stmt}
    {vs : List Token} (hk : keyword.kind = .ifWord) (ho : opening.kind = .leftParen)
    (h : Completes ts (.expression e)) (hk' : closing.kind = .rightParen) (hy : Completes us (.statement false yes))
    (he : other.kind = .elseWord) (hn : Completes vs (.statement dangling no)) :
    Completes (keyword :: opening :: ts ++ closing :: (us ++ other :: vs))
      (.statement dangling (.ifElse e yes no)) := by
  intro c r n hc follows
  simp only [List.cons_append, List.append_assoc] at hc
  obtain _ | n := n
  · exact .none
  rw [statement_if hc hk]
  obtain _ | n := n
  · exact .none
  rw [ifStatement_succ]
  refine (condition .ifStart .ifEnd ho h hk' rfl hc.advance n).andThen fun a d ⟨same, hd⟩ => ?_
  refine (hy _ _ n hd (by simp)).andThen fun b f ⟨same', hf⟩ => ?_
  rw [if_pos (by simp [hf.sees, he])]
  refine (hn _ r n hf.advance follows).andThen fun b f ⟨same'', hf⟩ => .some ⟨?_, hf⟩
  simp [Stmt.map, same, same', same'']

theorem loop {keyword opening closing : Token} {e : Expr} {dangling : Bool} {body : Stmt}
    (hk : keyword.kind = .whileWord) (ho : opening.kind = .leftParen) (h : Completes ts (.expression e))
    (hk' : closing.kind = .rightParen) (hb : Completes us (.statement dangling body)) :
    Completes (keyword :: opening :: ts ++ closing :: us) (.statement dangling (.loop e body)) := by
  intro c r n hc follows
  simp only [List.cons_append, List.append_assoc] at hc
  obtain _ | n := n
  · exact .none
  have other {kind : Token.Kind} (h : kind ≠ .whileWord) : ¬c.sees kind = true := by simp [hc.sees, hk, h.symm]
  rw [statement_succ, if_neg (other (by decide)), if_neg (other (by decide)), if_neg (other (by decide)),
    if_pos (by simp [hc.sees, hk])]
  obtain _ | n := n
  · exact .none
  rw [whileStatement_succ]
  refine (condition .whileStart .whileEnd ho h hk' rfl hc.advance n).andThen fun a d ⟨same, hd⟩ => ?_
  refine (hb _ r n hd follows).andThen fun b f ⟨same', hf⟩ => .some ⟨?_, hf⟩
  simp [Stmt.map, same, same']

theorem forLoop {keyword opening close closing : Token} {initial : Option Stmt} {test increment : Option Expr}
    {dangling : Bool} {body : Stmt} {vs ws : List Token} (hk : keyword.kind = .forWord)
    (ho : opening.kind = .leftParen) (hi : Completes ts (.initial initial)) (ht : Completes us (.clause test))
    (hs : close.kind = .semicolon) (hv : Completes vs (.clause increment)) (hk' : closing.kind = .rightParen)
    (hb : Completes ws (.statement dangling body)) :
    Completes (keyword :: opening :: ts ++ (us ++ close :: (vs ++ closing :: ws)))
      (.statement dangling (.forLoop initial test increment body)) := by
  intro c r n hc follows
  simp only [List.cons_append, List.append_assoc] at hc
  obtain _ | n := n
  · exact .none
  have other {kind : Token.Kind} (h : kind ≠ .forWord) : ¬c.sees kind = true := by simp [hc.sees, hk, h.symm]
  rw [statement_succ, if_neg (other (by decide)), if_neg (other (by decide)), if_neg (other (by decide)),
    if_neg (other (by decide)), if_pos (by simp [hc.sees, hk])]
  obtain _ | n := n
  · exact .none
  rw [forStatement_succ]
  refine (hi _ _ n (hc.advance.expect .forStart ho)).andThen fun first d ⟨sameFirst, hd⟩ => ?_
  refine (ht _ _ n .semicolon hd (by decide) (.cons hs (by simp))).andThen fun a d ⟨sameTest, hd⟩ => ?_
  have hd := hd.expect .forCondition hs
  refine (hv _ _ n .rightParen hd (by decide) (.cons hk' (by simp))).andThen fun b d ⟨sameStep, hd⟩ => ?_
  refine (hb _ r n (hd.expect .forEnd hk') follows).andThen fun s d ⟨sameBody, hd⟩ => .some ⟨?_, hd⟩
  simp only [Stmt.unnumbered, Stmt.view, Stmt.map_forLoop] at *
  rw [sameFirst, sameTest, sameStep, sameBody]

theorem statement {dangling : Bool} (h : Completes ts (.statement dangling stmt))
    (first : Begins Phrase.first.statement ts) : Completes ts (.declaration stmt) := by
  intro c r n hc follows
  obtain _ | n := n
  · exact .none
  have begins := first.append r
  rw [anyDeclaration_succ, if_neg (by simp [hc.not_sees begins]), if_neg (by simp [hc.not_sees begins])]
  exact h c r n hc fun _ => follows

theorem declare (h : Completes ts (.variable stmt)) (first : Begins [.varWord] ts) :
    Completes ts (.declaration stmt) := by
  intro c r n hc _
  obtain _ | n := n
  · exact .none
  rw [anyDeclaration_succ, if_pos (hc.sees_of_begins (first.append r))]
  exact h c r n hc

theorem function {keyword name opening closing left right : Token} {names : List Token} {body : List Stmt}
    (hk : keyword.kind = .funWord) (hn : name.kind = .identifier) (ho : opening.kind = .leftParen)
    (h : Completes ts (.parameters names)) (few : names.length ≤ maxArguments) (hk' : closing.kind = .rightParen)
    (hl : left.kind = .leftBrace) (hb : Completes us (.declarations body)) (hr : right.kind = .rightBrace) :
    Completes (keyword :: name :: opening :: ts ++ closing :: left :: us ++ [right])
      (.declaration (.function name names body)) := by
  intro c r n hc _
  simp only [List.cons_append, List.append_assoc, List.nil_append] at hc
  obtain _ | n := n
  · exact .none
  rw [anyDeclaration_succ, if_neg (by simp [hc.sees, hk]), if_pos (by simp [hc.sees, hk])]
  obtain _ | n := n
  · exact .none
  rw [functionDeclaration_succ]
  have hd := (hc.advance.expect .functionName hn).expect .parametersStart ho
  refine (h _ _ n hd (.cons hk' (by simp)) few).andThen fun names' e ⟨same, he⟩ => ?_
  have he := (he.expect .parametersEnd hk').expect .bodyStart hl
  refine (hb.enclosed hr he n).andThen fun body' f ⟨same', hf⟩ => .some ⟨?_, hf⟩
  simp [Stmt.map, same, same', hc.advance.previous_expect .functionName hn]

theorem kept (h : Completes ts (.declaration stmt)) {c : Cursor} {r : List Token} (hc : c.At (ts ++ r))
    (follows : ¬Begins [.elseWord] r) (n : Nat) :
    Ensures (declaration n c) fun stmt? d =>
      stmt?.toList.map Stmt.unnumbered = [stmt.unnumbered] ∧ d.At r := by
  obtain _ | n := n
  · exact .none
  rw [declaration_succ]
  have begun : ({ c with history := [] } : Cursor).At (ts ++ r) := ⟨hc.1, hc.2.1, rfl⟩
  refine (h _ r n begun follows).andThen fun a d ⟨same, rest, calm⟩ => ?_
  rw [calm.1, conclude_of_not_recovering calm.1]
  refine .some ⟨by simp [same], rest, calm.1, ?_⟩
  simp [flawlessIn, Episode.flawless, calm.2, hc.2.2]

theorem done : Completes [] (.declarations []) := by
  intro c r n nested hc stop
  obtain _ | n := n
  · exact .none
  have stops : (c.atEnd || nested && c.sees .rightBrace) = true := by
    obtain rfl | ⟨rfl, ends⟩ := stop
    · simp [atEnd, hc.1]
    · simp [hc.sees_of_begins ends]
  rw [declarations_succ, if_pos stops]
  exact .some ⟨rfl, hc⟩

theorem more {program : Program} (h : Completes ts (.declaration stmt))
    (first : Begins (Phrase.declaration stmt).first ts)
    (hp : Completes us (.declarations program)) (next : us = [] ∨ Begins (Phrase.declaration stmt).first us) :
    Completes (ts ++ us) (.declarations (stmt :: program)) := by
  intro c r n nested hc stop
  obtain _ | n := n
  · exact .none
  rw [List.append_assoc] at hc
  have begins := first.append (us ++ r)
  have goes : ¬(c.atEnd || nested && c.sees .rightBrace) = true := by
    obtain ⟨t, rest, hrest, -⟩ := id begins
    simp [hc.not_sees begins, hc.1, hrest]
  have follows : ¬Begins [.elseWord] (us ++ r) := by
    obtain rfl | next := next
    · obtain rfl | ⟨-, brace⟩ := stop
      · rintro ⟨t, rest, ⟨⟩, -⟩
      · exact brace.apart (by decide)
    · exact (next.append r).apart (by simp)
  rw [declarations_succ, if_neg goes]
  refine (h.kept hc follows n).andThen fun stmt? d ⟨same, hd⟩ => ?_
  refine (hp d r n nested hd stop).andThen fun program' e ⟨same', he⟩ => .some ⟨?_, he⟩
  simp [same, same']

end Statements

end Completes

theorem Derives.series_ne_nil {es : List Expr} {ts : List Token} (h : Derives (.series es) ts) : es ≠ [] := by
  cases h <;> simp

theorem Derives.declarations_begin {program : Program} {ts : List Token} (h : Derives (.declarations program) ts)
    (stmt : Stmt) : ts = [] ∨ Begins (Phrase.declaration stmt).first ts := by
  cases h with
  | done => exact .inl rfl
  | more h => exact .inr ((h.begins.resolve_left (by simp)).append _)

theorem Derives.completes {phrase : Phrase} {ts : List Token} (h : Derives phrase ts) : Completes ts phrase := by
  induction h with
  | assign hn hk _ ih => exact .assign hn hk ih
  | expression _ ih => exact .expression ih
  | tighter _ ih => exact .tighter ih
  | binary _ hk _ left right => exact .binary left hk right
  | unary hk _ ih => exact .unary hk ih
  | operand h ih => exact .operand ih (h.begins.resolve_left (by simp))
  | constant h => exact .constant h
  | read h => exact .read h
  | group hk _ hk' ih => exact .group hk ih hk'
  | call _ hk _ few hk' callee es => exact .call callee hk es few hk'
  | index _ hk _ hk' target place => exact .index target hk place hk'
  | last _ ih => exact .last ih
  | next _ hk hes first rest => exact .next first hk rest hes.series_ne_nil
  | noArguments => exact .noArguments
  | arguments h ih => exact .arguments ih (h.begins.resolve_left (by simp))
  | noClause => exact .noClause
  | clause h ih => exact .clause ih (h.begins.resolve_left (by simp))
  | lastName h => exact .lastName h
  | nextName hn hk _ ih => exact .nextName hn hk ih
  | noParameters => exact .noParameters
  | parameters h ih => exact .parameters ih (h.begins.resolve_left (by simp))
  | bare _ hn hk => exact .bare hn hk
  | defined _ hn he _ hk ih => exact .defined hn he ih hk
  | noInitial hk => exact .noInitial hk
  | initialVariable h ih => exact .initialVariable ih (h.begins.resolve_left (by simp))
  | initialExpression h hk ih => exact .initialExpression ih (h.begins.resolve_left (by simp)) hk
  | evaluate h hk ih => exact .evaluate ih (h.begins.resolve_left (by simp)) hk
  | print hk _ hk' ih => exact .print hk ih hk'
  | leave hk _ hk' ih => exact .leave hk ih hk'
  | block hk _ hk' ih => exact .block hk ih hk'
  | ifThen hk ho _ hk' _ condition yes => exact .ifThen hk ho condition hk' yes
  | ifElse hk ho _ hk' _ he _ condition yes no => exact .ifElse hk ho condition hk' yes he no
  | loop hk ho _ hk' _ condition body => exact .loop hk ho condition hk' body
  | forLoop hk ho _ _ hs _ hk' _ initial test step body => exact .forLoop hk ho initial test hs step hk' body
  | declare h ih => exact .declare ih (h.begins.resolve_left (by simp))
  | function hk hn ho _ few hk' hl _ hr names body => exact .function hk hn ho names few hk' hl body hr
  | statement h ih => exact .statement ih (h.begins.resolve_left (by simp))
  | done => exact .done
  | more h hp first rest => exact .more first (h.begins.resolve_left (by simp)) rest (hp.declarations_begin _)

end Scriptlet.Grammar
