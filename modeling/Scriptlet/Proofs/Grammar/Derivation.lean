import Scriptlet.Proofs.Tree.Map
import Scriptlet.Grammar.Reader

namespace Scriptlet.Grammar

inductive Literal : Token → Constant → Prop
  | no {t : Token} : t.kind = .falseWord → Literal t (.boolean false)
  | yes {t : Token} : t.kind = .trueWord → Literal t (.boolean true)
  | nil {t : Token} : t.kind = .nilWord → Literal t .nil
  | number {t : Token} {payload : Token.Payload} :
      t.kind = .number → t.payload = some payload → Literal t (Constant.ofPayload payload)
  | text {t : Token} {payload : Token.Payload} :
      t.kind = .text → t.payload = some payload → Literal t (Constant.ofPayload payload)

inductive Phrase
  | expression (e : Expr)
  | operation (tiers : List Tier) (e : Expr)
  | operand (e : Expr)
  | series (es : List Expr)
  | arguments (es : List Expr)
  | clause (e? : Option Expr)
  | names (names : List Token)
  | parameters (names : List Token)
  | variable (stmt : Stmt)
  | initial (stmt? : Option Stmt)
  | statement (dangling : Bool) (stmt : Stmt)
  | declaration (stmt : Stmt)
  | declarations (program : Program)

inductive Derives : Phrase → List Token → Prop
  | assign {id : UseId} {name equals : Token} {value : Expr} {ts : List Token} :
      name.kind = .identifier → equals.kind = .assign → Derives (.expression value) ts →
      Derives (.expression (.assign id name value)) (name :: equals :: ts)
  | expression {e : Expr} {ts : List Token} :
      Derives (.operation Tier.all e) ts → Derives (.expression e) ts
  | tighter {tier : Tier} {tighter : List Tier} {e : Expr} {ts : List Token} :
      Derives (.operation tighter e) ts → Derives (.operation (tier :: tighter) e) ts
  | binary {tier : Tier} {tighter : List Tier} {operator : Token} {left right : Expr} {ts us : List Token} :
      Derives (.operation (tier :: tighter) left) ts → operator.kind ∈ tier.operators →
      Derives (.operation tighter right) us →
      Derives (.operation (tier :: tighter) (tier.node operator left right)) (ts ++ operator :: us)
  | unary {operator : Token} {e : Expr} {ts : List Token} :
      operator.kind = .minus ∨ operator.kind = .not → Derives (.operation [] e) ts →
      Derives (.operation [] (.unary operator e)) (operator :: ts)
  | operand {e : Expr} {ts : List Token} : Derives (.operand e) ts → Derives (.operation [] e) ts
  | constant {t : Token} {value : Constant} : Literal t value → Derives (.operand (.constant value)) [t]
  | read {id : UseId} {name : Token} : name.kind = .identifier → Derives (.operand (.read id name)) [name]
  | group {opening closing : Token} {e : Expr} {ts : List Token} :
      opening.kind = .leftParen → Derives (.expression e) ts → closing.kind = .rightParen →
      Derives (.operand (.group e)) (opening :: ts ++ [closing])
  | call {opening closing : Token} {callee : Expr} {es : List Expr} {ts us : List Token} :
      Derives (.operand callee) ts → opening.kind = .leftParen → Derives (.arguments es) us →
      es.length ≤ maxArguments → closing.kind = .rightParen →
      Derives (.operand (.call callee closing es)) (ts ++ (opening :: us ++ [closing]))
  | index {opening closing : Token} {target place : Expr} {ts us : List Token} :
      Derives (.operand target) ts → opening.kind = .leftSquare → Derives (.expression place) us →
      closing.kind = .rightSquare →
      Derives (.operand (.index target opening place)) (ts ++ (opening :: us ++ [closing]))
  | last {e : Expr} {ts : List Token} : Derives (.expression e) ts → Derives (.series [e]) ts
  | next {comma : Token} {e : Expr} {es : List Expr} {ts us : List Token} :
      Derives (.expression e) ts → comma.kind = .comma → Derives (.series es) us →
      Derives (.series (e :: es)) (ts ++ comma :: us)
  | noArguments : Derives (.arguments []) []
  | arguments {es : List Expr} {ts : List Token} : Derives (.series es) ts → Derives (.arguments es) ts
  | noClause : Derives (.clause none) []
  | clause {e : Expr} {ts : List Token} : Derives (.expression e) ts → Derives (.clause (some e)) ts
  | lastName {name : Token} : name.kind = .identifier → Derives (.names [name]) [name]
  | nextName {name comma : Token} {names ts : List Token} :
      name.kind = .identifier → comma.kind = .comma → Derives (.names names) ts →
      Derives (.names (name :: names)) (name :: comma :: ts)
  | noParameters : Derives (.parameters []) []
  | parameters {names ts : List Token} : Derives (.names names) ts → Derives (.parameters names) ts
  | bare {keyword name close : Token} :
      keyword.kind = .varWord → name.kind = .identifier → close.kind = .semicolon →
      Derives (.variable (.declare name none)) [keyword, name, close]
  | defined {keyword name equals close : Token} {e : Expr} {ts : List Token} :
      keyword.kind = .varWord → name.kind = .identifier → equals.kind = .assign → Derives (.expression e) ts →
      close.kind = .semicolon →
      Derives (.variable (.declare name (some e))) (keyword :: name :: equals :: ts ++ [close])
  | noInitial {close : Token} : close.kind = .semicolon → Derives (.initial none) [close]
  | initialVariable {stmt : Stmt} {ts : List Token} :
      Derives (.variable stmt) ts → Derives (.initial (some stmt)) ts
  | initialExpression {e : Expr} {close : Token} {ts : List Token} :
      Derives (.expression e) ts → close.kind = .semicolon →
      Derives (.initial (some (.expression e))) (ts ++ [close])
  | evaluate {e : Expr} {close : Token} {ts : List Token} :
      Derives (.expression e) ts → close.kind = .semicolon →
      Derives (.statement false (.expression e)) (ts ++ [close])
  | print {keyword close : Token} {e : Expr} {ts : List Token} :
      keyword.kind = .printWord → Derives (.expression e) ts → close.kind = .semicolon →
      Derives (.statement false (.print e)) (keyword :: ts ++ [close])
  | leave {keyword close : Token} {e? : Option Expr} {ts : List Token} :
      keyword.kind = .returnWord → Derives (.clause e?) ts → close.kind = .semicolon →
      Derives (.statement false (.leave keyword e?)) (keyword :: ts ++ [close])
  | block {opening closing : Token} {body : List Stmt} {ts : List Token} :
      opening.kind = .leftBrace → Derives (.declarations body) ts → closing.kind = .rightBrace →
      Derives (.statement false (.block body)) (opening :: ts ++ [closing])
  | ifThen {keyword opening closing : Token} {condition : Expr} {dangling : Bool} {yes : Stmt} {ts us : List Token} :
      keyword.kind = .ifWord → opening.kind = .leftParen → Derives (.expression condition) ts →
      closing.kind = .rightParen → Derives (.statement dangling yes) us →
      Derives (.statement true (.ifThen condition yes)) (keyword :: opening :: ts ++ closing :: us)
  | ifElse {keyword opening closing other : Token} {condition : Expr} {dangling : Bool} {yes no : Stmt}
      {ts us vs : List Token} :
      keyword.kind = .ifWord → opening.kind = .leftParen → Derives (.expression condition) ts →
      closing.kind = .rightParen → Derives (.statement false yes) us → other.kind = .elseWord →
      Derives (.statement dangling no) vs →
      Derives (.statement dangling (.ifElse condition yes no))
        (keyword :: opening :: ts ++ closing :: (us ++ other :: vs))
  | loop {keyword opening closing : Token} {condition : Expr} {dangling : Bool} {body : Stmt} {ts us : List Token} :
      keyword.kind = .whileWord → opening.kind = .leftParen → Derives (.expression condition) ts →
      closing.kind = .rightParen → Derives (.statement dangling body) us →
      Derives (.statement dangling (.loop condition body)) (keyword :: opening :: ts ++ closing :: us)
  | forLoop {keyword opening close closing : Token} {initial : Option Stmt} {condition increment : Option Expr}
      {dangling : Bool} {body : Stmt} {ts us vs ws : List Token} :
      keyword.kind = .forWord → opening.kind = .leftParen → Derives (.initial initial) ts →
      Derives (.clause condition) us → close.kind = .semicolon → Derives (.clause increment) vs →
      closing.kind = .rightParen → Derives (.statement dangling body) ws →
      Derives (.statement dangling (.forLoop initial condition increment body))
        (keyword :: opening :: ts ++ (us ++ close :: (vs ++ closing :: ws)))
  | declare {stmt : Stmt} {ts : List Token} : Derives (.variable stmt) ts → Derives (.declaration stmt) ts
  | function {keyword name opening closing left right : Token} {names : List Token} {body : List Stmt}
      {ts us : List Token} :
      keyword.kind = .funWord → name.kind = .identifier → opening.kind = .leftParen →
      Derives (.parameters names) ts → names.length ≤ maxArguments → closing.kind = .rightParen →
      left.kind = .leftBrace → Derives (.declarations body) us → right.kind = .rightBrace →
      Derives (.declaration (.function name names body))
        (keyword :: name :: opening :: ts ++ closing :: left :: us ++ [right])
  | statement {dangling : Bool} {stmt : Stmt} {ts : List Token} :
      Derives (.statement dangling stmt) ts → Derives (.declaration stmt) ts
  | done : Derives (.declarations []) []
  | more {stmt : Stmt} {program : Program} {ts us : List Token} :
      Derives (.declaration stmt) ts → Derives (.declarations program) us →
      Derives (.declarations (stmt :: program)) (ts ++ us)

theorem Operand.ofToken_eq_constant {t : Token} {value : Constant} (h : Operand.ofToken t = .constant value) :
    Literal t value := by
  unfold Operand.ofToken at h
  split at h <;> try cases h
  · next hk => exact .no hk
  · next hk => exact .yes hk
  · next hk => exact .nil hk
  · next hk =>
    split at h <;> cases h
    next payload => exact .number hk payload
  · next hk =>
    split at h <;> cases h
    next payload => exact .text hk payload

theorem Literal.ofToken {t : Token} {value : Constant} (h : Literal t value) :
    Operand.ofToken t = .constant value := by
  cases h <;> simp_all [Operand.ofToken]

theorem Operand.ofToken_eq_variable {t : Token} : Operand.ofToken t = .variable ↔ t.kind = .identifier := by
  constructor
  · intro h
    unfold Operand.ofToken at h
    split at h <;> try split at h
    all_goals first | assumption | cases h
  · intro h
    simp [Operand.ofToken, h]

theorem Operand.ofToken_eq_group {t : Token} : Operand.ofToken t = .group ↔ t.kind = .leftParen := by
  constructor
  · intro h
    unfold Operand.ofToken at h
    split at h <;> try split at h
    all_goals first | assumption | cases h
  · intro h
    simp [Operand.ofToken, h]

theorem Tier.node_ne_read {tier : Tier} {operator : Token} {left right : Expr} {id : UseId} {name : Token} :
    tier.node operator left right ≠ .read id name := by
  unfold node
  split <;> simp

theorem Derives.eq_name {phrase : Phrase} {ts : List Token} (h : Derives phrase ts) {id : UseId} {name : Token}
    (hp : phrase = .operand (.read id name) ∨ ∃ tiers, phrase = .operation tiers (.read id name)) :
    name.kind = .identifier ∧ ts = [name] := by
  induction h with
  | tighter _ ih =>
    obtain hp | ⟨tiers, hp⟩ := hp <;> cases hp
    exact ih (.inr ⟨_, rfl⟩)
  | binary =>
    obtain hp | ⟨tiers, hp⟩ := hp
    · cases hp
    · simp only [Phrase.operation.injEq] at hp
      exact absurd hp.2 Tier.node_ne_read
  | operand _ ih =>
    obtain hp | ⟨tiers, hp⟩ := hp <;> cases hp
    exact ih (.inl rfl)
  | read hk =>
    obtain hp | ⟨tiers, hp⟩ := hp <;> cases hp
    exact ⟨hk, rfl⟩
  | _ => obtain hp | ⟨tiers, hp⟩ := hp <;> cases hp

end Scriptlet.Grammar
