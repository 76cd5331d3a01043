import Scriptlet.Proofs.Grammar.Numbering
import Scriptlet.Proofs.Grammar.Soundness

namespace Scriptlet

def binaryOperators : List Token.Kind :=
  [.equal, .notEqual, .less, .lessEqual, .greater, .greaterEqual, .plus, .minus, .times, .divide]

def logicalOperators : List Token.Kind :=
  [.andWord, .orWord]

def unaryOperators : List Token.Kind :=
  [.minus, .not]

mutual

def Expr.Understood : Expr → Prop
  | .constant _ | .read .. => True
  | .assign _ _ value => value.Understood
  | .binary operator left right => operator.kind ∈ binaryOperators ∧ left.Understood ∧ right.Understood
  | .logical operator left right => operator.kind ∈ logicalOperators ∧ left.Understood ∧ right.Understood
  | .unary operator operand => operator.kind ∈ unaryOperators ∧ operand.Understood
  | .group inner => inner.Understood
  | .call callee _ arguments => callee.Understood ∧ UnderstoodIn arguments
  | .index target _ place => target.Understood ∧ place.Understood

def Expr.UnderstoodIn : List Expr → Prop
  | [] => True
  | e :: rest => e.Understood ∧ UnderstoodIn rest

end

mutual

def Stmt.Understood : Stmt → Prop
  | .expression e | .print e => e.Understood
  | .declare _ value | .leave _ value => ∀ e ∈ value, e.Understood
  | .block body | .function _ _ body => UnderstoodIn body
  | .ifThen condition yes => condition.Understood ∧ yes.Understood
  | .ifElse condition yes no => condition.Understood ∧ yes.Understood ∧ no.Understood
  | .loop condition body => condition.Understood ∧ body.Understood

def Stmt.UnderstoodIn : List Stmt → Prop
  | [] => True
  | stmt :: rest => stmt.Understood ∧ UnderstoodIn rest

end

theorem Stmt.understood_forLoop {initial : Option Stmt} {condition increment : Option Expr} {body : Stmt}
    (first : ∀ stmt ∈ initial, stmt.Understood) (holds : ∀ e ∈ condition, e.Understood)
    (next : ∀ e ∈ increment, e.Understood) (inner : body.Understood) :
    (Stmt.forLoop initial condition increment body).Understood := by
  cases initial <;> cases condition <;> cases increment <;>
    simp_all [Stmt.forLoop, Stmt.Understood, Stmt.UnderstoodIn, Expr.Understood]

namespace Grammar

open Outcome

theorem kind_previous_advance_any {c : Cursor} {kinds : List Token.Kind} (seen : kinds.any c.sees = true) :
    c.advance.previous.kind ∈ kinds := by
  obtain ⟨kind, mem, seen⟩ := List.any_eq_true.1 seen
  exact Cursor.kind_previous_advance seen ▸ mem

theorem Tier.operators_subset {tier : Tier} (h : tier ∈ Tier.all) :
    if tier.logical then tier.operators ⊆ logicalOperators else tier.operators ⊆ binaryOperators := by
  revert h
  revert tier
  decide

theorem Tier.understood_node {tier : Tier} {operator : Token} {left right : Expr} (h : tier ∈ Tier.all)
    (fits : operator.kind ∈ tier.operators) (hl : left.Understood) (hr : right.Understood) :
    (tier.node operator left right).Understood := by
  have sorts := Tier.operators_subset h
  unfold Tier.node
  split
  · next logical =>
    rw [if_pos logical] at sorts
    exact ⟨sorts fits, hl, hr⟩
  · next plain =>
    rw [if_neg plain] at sorts
    exact ⟨sorts fits, hl, hr⟩

structure UnderstoodExpressions (n : Nat) : Prop where
  expression : ∀ c, Ensures (expression n c) fun e _ => e.Understood
  operation : ∀ tiers c, tiers <:+ Tier.all → Ensures (operation n tiers c) fun e _ => e.Understood
  operationRest : ∀ tier tighter left c, tier :: tighter <:+ Tier.all → left.Understood →
    Ensures (operationRest n tier tighter left c) fun e _ => e.Understood
  unary : ∀ c, Ensures (unary n c) fun e _ => e.Understood
  suffixes : ∀ target c, target.Understood → Ensures (suffixes n target c) fun e _ => e.Understood
  arguments : ∀ count c, Ensures (arguments n count c) fun es _ => Expr.UnderstoodIn es
  primary : ∀ c, Ensures (primary n c) fun e _ => e.Understood

namespace UnderstoodExpressions

variable {n : Nat}

theorem expression_succ (ih : UnderstoodExpressions n) (c : Cursor) :
    Ensures (Grammar.expression (n + 1) c) fun e _ => e.Understood := by
  rw [Grammar.expression_succ]
  refine (ih.operation _ c List.suffix_rfl).andThen fun target d ht => ?_
  split
  · refine (ih.expression d.advance).andThen fun value e hv => ?_
    cases target with
    | read id name => exact .some hv
    | _ => exact .some ht
  · exact .some ht

theorem operation_succ (ih : UnderstoodExpressions n) (tiers : List Tier) (c : Cursor) (h : tiers <:+ Tier.all) :
    Ensures (Grammar.operation (n + 1) tiers c) fun e _ => e.Understood := by
  cases tiers with
  | nil => exact ih.unary c
  | cons tier tighter =>
    rw [operation_cons]
    refine (ih.operation tighter c ((List.suffix_cons _ _).trans h)).andThen fun left d hl => ?_
    exact ih.operationRest tier tighter left d h hl

theorem operationRest_succ (ih : UnderstoodExpressions n) (tier : Tier) (tighter : List Tier) (left : Expr) (c : Cursor)
    (h : tier :: tighter <:+ Tier.all) (hl : left.Understood) :
    Ensures (Grammar.operationRest (n + 1) tier tighter left c) fun e _ => e.Understood := by
  rw [Grammar.operationRest_succ]
  split
  · next seen =>
    refine (ih.operation tighter _ ((List.suffix_cons _ _).trans h)).andThen fun right d hr => ?_
    have fits := kind_previous_advance_any seen
    exact ih.operationRest tier tighter _ d h (Tier.understood_node (h.subset List.mem_cons_self) fits hl hr)
  · exact .some hl

theorem unary_succ (ih : UnderstoodExpressions n) (c : Cursor) :
    Ensures (Grammar.unary (n + 1) c) fun e _ => e.Understood := by
  rw [Grammar.unary_succ]
  split
  · next seen =>
    have fits := kind_previous_advance_any seen
    exact (ih.unary c.advance).andThen fun operand d ho => .some ⟨fits, ho⟩
  · exact (ih.primary c).andThen fun callee d hc => ih.suffixes callee d hc

theorem suffixes_succ (ih : UnderstoodExpressions n) (target : Expr) (c : Cursor) (ht : target.Understood) :
    Ensures (Grammar.suffixes (n + 1) target c) fun e _ => e.Understood := by
  rw [Grammar.suffixes_succ]
  split
  · refine Ensures.andThen (P := fun es _ => Expr.UnderstoodIn es) ?_ fun es d hes => ih.suffixes _ _ ⟨ht, hes⟩
    split
    · exact .some trivial
    · exact ih.arguments 1 c.advance
  · split
    · exact (ih.expression c.advance).andThen fun place d hp => ih.suffixes _ _ ⟨ht, hp⟩
    · exact .some ht

theorem arguments_succ (ih : UnderstoodExpressions n) (count : Nat) (c : Cursor) :
    Ensures (Grammar.arguments (n + 1) count c) fun es _ => Expr.UnderstoodIn es := by
  rw [Grammar.arguments_succ]
  refine (ih.expression c).andThen fun argument d ha => ?_
  split
  · refine (limit_nextId count _ d.advance).andThen fun _ e _ => ?_
    exact (ih.arguments (count + 1) e).andThen fun rest f hr => .some ⟨ha, hr⟩
  · exact .some ⟨ha, trivial⟩

theorem primary_succ (ih : UnderstoodExpressions n) (c : Cursor) :
    Ensures (Grammar.primary (n + 1) c) fun e _ => e.Understood := by
  rw [Grammar.primary_succ]
  split
  · exact .some trivial
  · split
    · exact .some trivial
    · exact .some trivial
    · exact (ih.expression c.advance).andThen fun inner d hi => .some hi
    · exact .some trivial

end UnderstoodExpressions

theorem understoodExpressions : ∀ n, UnderstoodExpressions n
  | 0 => ⟨fun _ => .none, fun _ _ _ => .none, fun _ _ _ _ _ _ => .none, fun _ => .none, fun _ _ _ => .none,
      fun _ _ => .none, fun _ => .none⟩
  | n + 1 =>
    have ih := understoodExpressions n
    ⟨ih.expression_succ, ih.operation_succ, ih.operationRest_succ, ih.unary_succ, ih.suffixes_succ,
      ih.arguments_succ, ih.primary_succ⟩

section Simple

variable (n : Nat) (c : Cursor)

theorem expression_understood : Ensures (expression n c) fun e _ => e.Understood :=
  (understoodExpressions n).expression c

theorem expressionUnless_understood (closing : Token.Kind) :
    Ensures (expressionUnless n closing c) fun e? _ => ∀ e ∈ e?, e.Understood := by
  rw [expressionUnless_run]
  split
  · exact .some (by simp)
  · exact (expression_understood n c).andThen fun e d he => .some (by simpa using he)

theorem expressionStatement_understood : Ensures (expressionStatement n c) fun stmt _ => stmt.Understood := by
  rw [expressionStatement_run]
  exact (expression_understood n c).andThen fun value d hv => .some hv

theorem printStatement_understood : Ensures (printStatement n c) fun stmt _ => stmt.Understood := by
  rw [printStatement_run]
  exact (expression_understood n c).andThen fun value d hv => .some hv

theorem returnStatement_understood : Ensures (returnStatement n c) fun stmt _ => stmt.Understood := by
  rw [returnStatement_run]
  exact (expressionUnless_understood n c _).andThen fun value d hv => .some hv

theorem variableDeclaration_understood : Ensures (variableDeclaration n c) fun stmt _ => stmt.Understood := by
  rw [variableDeclaration_run]
  refine Ensures.andThen (P := fun e? _ => ∀ e ∈ e?, Expr.Understood e) ?_ fun e? d he => .some he
  split
  · exact (expression_understood n _).andThen fun e d he => .some (by simpa using he)
  · exact .some (by simp)

theorem forInitial_understood : Ensures (forInitial n c) fun stmt? _ => ∀ stmt ∈ stmt?, stmt.Understood := by
  rw [forInitial_run]
  split
  · exact .some (by simp)
  · split
    · exact (variableDeclaration_understood n c.advance).andThen fun stmt d hs => .some (by simpa using hs)
    · exact (expressionStatement_understood n c).andThen fun stmt d hs => .some (by simpa using hs)

end Simple

structure UnderstoodStatements (n : Nat) : Prop where
  declaration : ∀ c, Ensures (declaration n c) fun stmt? _ => ∀ stmt ∈ stmt?, stmt.Understood
  anyDeclaration : ∀ c, Ensures (anyDeclaration n c) fun stmt _ => stmt.Understood
  functionDeclaration : ∀ c, Ensures (functionDeclaration n c) fun stmt _ => stmt.Understood
  statement : ∀ c, Ensures (statement n c) fun stmt _ => stmt.Understood
  ifStatement : ∀ c, Ensures (ifStatement n c) fun stmt _ => stmt.Understood
  whileStatement : ∀ c, Ensures (whileStatement n c) fun stmt _ => stmt.Understood
  forStatement : ∀ c, Ensures (forStatement n c) fun stmt _ => stmt.Understood
  block : ∀ c, Ensures (block n c) fun body _ => Stmt.UnderstoodIn body
  declarations : ∀ nested c, Ensures (declarations n nested c) fun body _ => Stmt.UnderstoodIn body

namespace UnderstoodStatements

variable {n : Nat}

theorem declaration_succ (ih : UnderstoodStatements n) (c : Cursor) :
    Ensures (Grammar.declaration (n + 1) c) fun stmt? _ => ∀ stmt ∈ stmt?, stmt.Understood := by
  rw [Grammar.declaration_succ]
  refine (ih.anyDeclaration _).andThen fun stmt d hs => .some ?_
  split
  · simp
  · simpa using hs

theorem anyDeclaration_succ (ih : UnderstoodStatements n) (c : Cursor) :
    Ensures (Grammar.anyDeclaration (n + 1) c) fun stmt _ => stmt.Understood := by
  rw [Grammar.anyDeclaration_succ]
  split
  · exact variableDeclaration_understood n _
  · split
    · exact ih.functionDeclaration _
    · exact ih.statement c

theorem functionDeclaration_succ (ih : UnderstoodStatements n) (c : Cursor) :
    Ensures (Grammar.functionDeclaration (n + 1) c) fun stmt _ => stmt.Understood := by
  rw [Grammar.functionDeclaration_succ]
  refine Ensures.andThen (P := fun _ _ => True) (fun _ _ _ => trivial) fun params d _ => ?_
  exact (ih.block _).andThen fun body e hb => .some hb

theorem statement_succ (ih : UnderstoodStatements n) (c : Cursor) :
    Ensures (Grammar.statement (n + 1) c) fun stmt _ => stmt.Understood := by
  rw [Grammar.statement_succ]
  split
  · exact printStatement_understood n _
  split
  · exact returnStatement_understood n _
  split
  · exact ih.ifStatement _
  split
  · exact ih.whileStatement _
  split
  · exact ih.forStatement _
  split
  · exact (ih.block _).andThen fun body d hb => .some hb
  · exact expressionStatement_understood n c

theorem ifStatement_succ (ih : UnderstoodStatements n) (c : Cursor) :
    Ensures (Grammar.ifStatement (n + 1) c) fun stmt _ => stmt.Understood := by
  rw [Grammar.ifStatement_succ]
  refine (expression_understood n _).andThen fun condition d hc => ?_
  refine (ih.statement _).andThen fun yes e hy => ?_
  split
  · exact (ih.statement _).andThen fun no f hn => .some ⟨hc, hy, hn⟩
  · exact .some ⟨hc, hy⟩

theorem whileStatement_succ (ih : UnderstoodStatements n) (c : Cursor) :
    Ensures (Grammar.whileStatement (n + 1) c) fun stmt _ => stmt.Understood := by
  rw [Grammar.whileStatement_succ]
  refine (expression_understood n _).andThen fun condition d hc => ?_
  exact (ih.statement _).andThen fun body e hb => .some ⟨hc, hb⟩

theorem forStatement_succ (ih : UnderstoodStatements n) (c : Cursor) :
    Ensures (Grammar.forStatement (n + 1) c) fun stmt _ => stmt.Understood := by
  rw [Grammar.forStatement_succ]
  refine (forInitial_understood n _).andThen fun initial d first => ?_
  refine (expressionUnless_understood n d _).andThen fun condition e holds => ?_
  refine (expressionUnless_understood n _ _).andThen fun increment f next => ?_
  exact (ih.statement _).andThen fun body g inner => .some (Stmt.understood_forLoop first holds next inner)

theorem block_succ (ih : UnderstoodStatements n) (c : Cursor) :
    Ensures (Grammar.block (n + 1) c) fun body _ => Stmt.UnderstoodIn body := by
  rw [Grammar.block_succ]
  exact (ih.declarations true _).andThen fun body d hb => .some hb

theorem declarations_succ (ih : UnderstoodStatements n) (nested : Bool) (c : Cursor) :
    Ensures (Grammar.declarations (n + 1) nested c) fun body _ => Stmt.UnderstoodIn body := by
  rw [Grammar.declarations_succ]
  split
  · exact .some trivial
  · refine (ih.declaration c).andThen fun stmt? d hs => ?_
    refine (ih.declarations nested d).andThen fun rest e hr => .some ?_
    cases stmt? with
    | none => exact hr
    | some stmt => exact ⟨hs stmt rfl, hr⟩

end UnderstoodStatements

theorem understoodStatements : ∀ n, UnderstoodStatements n
  | 0 => ⟨fun _ => .none, fun _ => .none, fun _ => .none, fun _ => .none, fun _ => .none, fun _ => .none,
      fun _ => .none, fun _ => .none, fun _ _ => .none⟩
  | n + 1 =>
    have ih := understoodStatements n
    ⟨ih.declaration_succ, ih.anyDeclaration_succ, ih.functionDeclaration_succ, ih.statement_succ,
      ih.ifStatement_succ, ih.whileStatement_succ, ih.forStatement_succ, ih.block_succ, ih.declarations_succ⟩

theorem read_understood (tokens : List Token) (nextId : UseId) : Stmt.UnderstoodIn (read tokens nextId).program := by
  obtain ⟨program, c, run, hread⟩ := read_run tokens nextId
  rw [hread]
  exact (understoodStatements _).declarations _ _ _ _ run

end Grammar
end Scriptlet
