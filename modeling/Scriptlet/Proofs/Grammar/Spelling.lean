import Scriptlet.Proofs.Grammar.Derivation
import Scriptlet.Proofs.Tree.Rendering

namespace Scriptlet

open Token

def Token.fixed : List (List Char × Kind) :=
  symbols ++ keywords.map fun entry => (entry.1.toList, entry.2)

theorem Token.Lexeme.eq_of_mem_fixed {kind : Kind} {lexeme signs : List Char} (h : Lexeme kind lexeme)
    (listed : (signs, kind) ∈ fixed) : lexeme = signs := by
  have unique : ∀ entry ∈ fixed, ∀ other ∈ fixed, entry.2 = other.2 → entry.1 = other.1 := by decide
  have others : ∀ entry ∈ fixed, entry.2 ∉ [Kind.number, .text, .identifier] := by decide
  cases h with
  | symbol listed' => exact unique _ (List.mem_append_left _ listed') _ listed rfl
  | keyword listed' =>
    have entry : (lexeme, kind) ∈ fixed := List.mem_append_right _ (List.mem_map.2 ⟨_, listed', by simp⟩)
    exact unique _ entry _ listed rfl
  | _ => exact absurd (by simp) (others _ listed)

theorem Token.Spelled.unplaced_eq {t : Token} (h : t.Spelled) {kind : Kind} (same : t.kind = kind) {signs : List Char}
    (listed : (signs, kind) ∈ fixed) : t.unplaced = ⟨kind, String.ofList signs, none, .start⟩ := by
  subst same
  have others : ∀ entry ∈ fixed, entry.2 ≠ .number ∧ entry.2 ≠ .text := by decide
  obtain ⟨number, text⟩ := others _ listed
  have lexeme := h.lexeme.eq_of_mem_fixed listed
  have payload := h.payload.trans (payload?_none number text)
  rw [Token.unplaced, ← lexeme, String.ofList_toList, payload]

def Token.Payload.isFinite : Payload → Bool
  | .number value => value.isFinite
  | .text _ => true

structure Token.Faithful (t : Token) : Prop where
  spelled : t.Spelled
  finite : t.payload.all Payload.isFinite = true

namespace Grammar

def Phrase.Spelled : Phrase → Prop
  | .expression e | .operand e => e.Spelled
  | .operation tiers e => tiers <:+ Tier.all → e.Spelled
  | .series es | .arguments es => Expr.SpelledIn es
  | .clause e? => ∀ e ∈ e?, e.Spelled
  | .names ts | .parameters ts => ∀ t ∈ ts, t.IsName
  | .variable stmt | .declaration stmt => stmt.Spelled
  | .initial stmt? => ∀ stmt ∈ stmt?, stmt.Spelled
  | .statement dangling stmt => stmt.Spelled ∧ (dangling = false → stmt.dangles = false)
  | .declarations program => Stmt.SpelledIn program

theorem spelled_number {text : List Char} {x : Float} (h : Carries .number text (some (.number x)))
    (finite : x.isFinite = true) : (Constant.number x).Spelled := by
  have rounded {q : ℚ} (rounds : Decimal.Rounds q x) : (Constant.number x).Spelled := by
    obtain ⟨most, sign, -⟩ := rounds.exists_rung
    exact ⟨sign, Decimal.rankOf_lt_of_isFinite sign most finite⟩
  cases h with
  | whole numeral rounds => exact rounded rounds
  | decimal numeral numeral' rounds => exact rounded rounds

theorem spelled_text {text : List Char} {content : String} (h : Lexeme .text text)
    (payload : payload? .text text = some (.text content)) : (Constant.text content).Spelled := by
  generalize same : Kind.text = kind at h
  cases h with
  | symbol listed => exact absurd same.symm (symbols_plain _ listed).2
  | quoted plain =>
    rw [payload?_quoted] at payload
    cases payload
    rw [Constant.Spelled, String.toList_ofList]
    exact plain
  | keyword listed => exact absurd same.symm (keywords_plain _ listed).2
  | _ => cases same

theorem Literal.spelled {t : Token} {value : Constant} (h : Literal t value) (valid : t.Faithful) : value.Spelled := by
  cases h with
  | no | yes | nil => trivial
  | @number payload kind carried =>
    have carries := carries_payload? valid.spelled.lexeme
    rw [← valid.spelled.payload, carried, kind] at carries
    generalize t.lexeme.toList = text at carries
    cases payload with
    | number x =>
      have finite := valid.finite
      rw [carried] at finite
      exact spelled_number carries finite
    | text content => cases carries
  | @text payload kind carried =>
    have lexeme := valid.spelled.lexeme
    have same := valid.spelled.payload
    rw [carried, kind] at same
    rw [kind] at lexeme
    cases payload with
    | number x => cases same
    | text content => exact spelled_text lexeme same.symm

theorem Tier.spelled_node {tier : Tier} {operator : Token} {left right : Expr} (h : tier ∈ Tier.all)
    (fits : operator.kind ∈ tier.operators) (spelled : operator.Spelled) (hl : left.Spelled) (hr : right.Spelled) :
    (tier.node operator left right).Spelled := by
  have sorts := Tier.operators_subset h
  unfold Tier.node
  split
  · next logical =>
    rw [if_pos logical] at sorts
    exact ⟨spelled, sorts fits, hl, hr⟩
  · next plain =>
    rw [if_neg plain] at sorts
    exact ⟨spelled, sorts fits, hl, hr⟩

theorem spelled_forLoop {initial : Option Stmt} {condition increment : Option Expr} {body : Stmt} {dangling : Bool}
    (first : ∀ stmt ∈ initial, stmt.Spelled) (holds : ∀ e ∈ condition, e.Spelled)
    (next : ∀ e ∈ increment, e.Spelled) (inner : body.Spelled ∧ (dangling = false → body.dangles = false)) :
    (Stmt.forLoop initial condition increment body).Spelled ∧
      (dangling = false → (Stmt.forLoop initial condition increment body).dangles = false) := by
  cases initial <;> cases condition <;> cases increment <;>
    simp_all [Stmt.forLoop, Stmt.Spelled, Stmt.SpelledIn, Stmt.dangles, Expr.Spelled, Constant.Spelled]

theorem Derives.spelled {phrase : Phrase} {ts : List Token} (h : Derives phrase ts) (valid : ∀ t ∈ ts, t.Faithful) :
    phrase.Spelled := by
  induction h with
  | assign kind _ _ ih =>
    simp only [List.forall_mem_cons] at valid
    obtain ⟨name, -, value⟩ := valid
    exact ⟨⟨kind, name.spelled⟩, ih value⟩
  | expression _ ih => exact ih valid (List.suffix_refl _)
  | tighter _ ih => exact fun all => ih valid ((List.suffix_cons _ _).trans all)
  | binary _ fits _ ihl ihr =>
    simp only [List.forall_mem_append, List.forall_mem_cons] at valid
    obtain ⟨left, operator, right⟩ := valid
    intro all
    have tighter := (List.suffix_cons _ _).trans all
    exact Tier.spelled_node (all.subset List.mem_cons_self) fits operator.spelled (ihl left all) (ihr right tighter)
  | unary fits _ ih =>
    simp only [List.forall_mem_cons] at valid
    obtain ⟨operator, operand⟩ := valid
    exact fun _ => ⟨operator.spelled, by simpa [unaryOperators] using fits, ih operand (List.nil_suffix)⟩
  | operand _ ih => exact fun _ => ih valid
  | constant literal => exact literal.spelled (valid _ List.mem_cons_self)
  | read kind => exact ⟨kind, (valid _ List.mem_cons_self).spelled⟩
  | group _ _ _ ih =>
    simp only [List.cons_append, List.forall_mem_cons, List.forall_mem_append] at valid
    obtain ⟨-, inner, -⟩ := valid
    exact ih inner
  | call _ _ _ _ kind ihc iha =>
    simp only [List.cons_append, List.forall_mem_append, List.forall_mem_cons] at valid
    obtain ⟨callee, -, arguments, paren, -⟩ := valid
    exact ⟨ihc callee, paren.spelled.unplaced_eq kind (by decide), iha arguments⟩
  | index _ kind _ _ iht ihp =>
    simp only [List.cons_append, List.forall_mem_append, List.forall_mem_cons] at valid
    obtain ⟨target, bracket, place, -⟩ := valid
    exact ⟨iht target, bracket.spelled.unplaced_eq kind (by decide), ihp place⟩
  | last _ ih => exact ⟨ih valid, trivial⟩
  | next _ _ _ ih ihs =>
    simp only [List.forall_mem_append, List.forall_mem_cons] at valid
    obtain ⟨first, -, rest⟩ := valid
    exact ⟨ih first, ihs rest⟩
  | noArguments => trivial
  | arguments _ ih => exact ih valid
  | noClause => simp [Phrase.Spelled]
  | clause _ ih => simpa [Phrase.Spelled] using ih valid
  | lastName kind => simpa [Phrase.Spelled] using ⟨kind, (valid _ List.mem_cons_self).spelled⟩
  | nextName kind _ _ ih =>
    simp only [List.forall_mem_cons] at valid
    obtain ⟨name, -, rest⟩ := valid
    exact List.forall_mem_cons.2 ⟨⟨kind, name.spelled⟩, ih rest⟩
  | noParameters => simp [Phrase.Spelled]
  | parameters _ ih => exact ih valid
  | bare _ kind _ =>
    simp only [List.forall_mem_cons] at valid
    obtain ⟨-, name, -⟩ := valid
    exact ⟨⟨kind, name.spelled⟩, by simp⟩
  | defined _ kind _ _ _ ih =>
    simp only [List.cons_append, List.forall_mem_cons, List.forall_mem_append] at valid
    obtain ⟨-, name, -, value, -⟩ := valid
    exact ⟨⟨kind, name.spelled⟩, by simpa using show Expr.Spelled _ from ih value⟩
  | noInitial _ => simp [Phrase.Spelled]
  | initialVariable _ ih => simpa [Phrase.Spelled] using ih valid
  | initialExpression _ _ ih =>
    simp only [List.forall_mem_append] at valid
    have value : Expr.Spelled _ := ih valid.1
    simpa [Phrase.Spelled, Stmt.Spelled] using value
  | evaluate _ _ ih =>
    simp only [List.forall_mem_append] at valid
    exact ⟨ih valid.1, fun _ => rfl⟩
  | print _ _ _ ih =>
    simp only [List.cons_append, List.forall_mem_cons, List.forall_mem_append] at valid
    obtain ⟨-, value, -⟩ := valid
    exact ⟨ih value, fun _ => rfl⟩
  | leave kind _ _ ih =>
    simp only [List.cons_append, List.forall_mem_cons, List.forall_mem_append] at valid
    obtain ⟨keyword, value, -⟩ := valid
    exact ⟨⟨keyword.spelled.unplaced_eq kind (by decide), ih value⟩, fun _ => rfl⟩
  | block _ _ _ ih =>
    simp only [List.cons_append, List.forall_mem_cons, List.forall_mem_append] at valid
    obtain ⟨-, body, -⟩ := valid
    exact ⟨ih body, fun _ => rfl⟩
  | ifThen _ _ _ _ _ ihc ihy =>
    simp only [List.cons_append, List.forall_mem_cons, List.forall_mem_append] at valid
    obtain ⟨-, -, condition, -, yes⟩ := valid
    exact ⟨⟨ihc condition, (ihy yes).1⟩, by simp⟩
  | ifElse _ _ _ _ _ _ _ ihc ihy ihn =>
    simp only [List.cons_append, List.forall_mem_cons, List.forall_mem_append] at valid
    obtain ⟨-, -, condition, -, yes, -, no⟩ := valid
    obtain ⟨first, settled⟩ := ihy yes
    obtain ⟨second, dangles⟩ := ihn no
    exact ⟨⟨ihc condition, first, settled rfl, second⟩, dangles⟩
  | loop _ _ _ _ _ ihc ihb =>
    simp only [List.cons_append, List.forall_mem_cons, List.forall_mem_append] at valid
    obtain ⟨-, -, condition, -, body⟩ := valid
    obtain ⟨inner, dangles⟩ := ihb body
    exact ⟨⟨ihc condition, inner⟩, dangles⟩
  | forLoop _ _ _ _ _ _ _ _ ihi ihc ihs ihb =>
    simp only [List.cons_append, List.forall_mem_cons, List.forall_mem_append] at valid
    obtain ⟨-, -, initial, condition, -, increment, -, body⟩ := valid
    exact spelled_forLoop (ihi initial) (ihc condition) (ihs increment) (ihb body)
  | declare _ ih => exact ih valid
  | function _ kind _ _ _ _ _ _ _ ihp ihb =>
    simp only [List.cons_append, List.forall_mem_cons, List.forall_mem_append] at valid
    obtain ⟨-, name, -, ⟨parameters, -, -, body⟩, -⟩ := valid
    exact ⟨⟨kind, name.spelled⟩, ihp parameters, ihb body⟩
  | statement _ ih => exact (ih valid).1
  | done => trivial
  | more _ _ ih ihs =>
    simp only [List.forall_mem_append] at valid
    exact ⟨ih valid.1, ihs valid.2⟩

end Grammar

end Scriptlet
