import Scriptlet.Proofs.Grammar.Trail

/-!
The budget of a reading is never spent. Between two tokens the procedures nest at most sixteen deep, and every token
pays for thirty-two, so a budget of thirty-two for each token that is left, and a few more, is enough.
-/

namespace Scriptlet.Grammar

open Outcome

namespace Cursor

theorem length_advance {c : Cursor} {kind : Token.Kind} (h : c.sees kind = true) :
    c.advance.rest.length + 1 = c.rest.length := by
  obtain ⟨t, rest, hrest, -⟩ := sees_iff.1 h
  simp [hrest]

theorem length_advance_any {c : Cursor} {kinds : List Token.Kind} (h : kinds.any c.sees = true) :
    c.advance.rest.length + 1 = c.rest.length := by
  obtain ⟨kind, -, seen⟩ := List.any_eq_true.1 h
  exact length_advance seen

theorem length_expect_le (c : Cursor) (slot : Slot) : (c.expect slot).rest.length ≤ c.rest.length :=
  (c.rest_expect_suffix slot).length_le

theorem length_conclude_le (c : Cursor) (before : List Episode) :
    (c.conclude before).rest.length ≤ c.rest.length :=
  (c.rest_conclude_suffix before).length_le

def Within (c : Cursor) {α : Type} (_ : α) (d : Cursor) : Prop :=
  d.rest.length ≤ c.rest.length

def Behind (c : Cursor) {α : Type} (_ : α) (d : Cursor) : Prop :=
  d.rest.length ≤ c.rest.length - 1

end Cursor

open Cursor

theorem limit_succeeds (count : Nat) (fault : Fault) (c : Cursor) :
    Succeeds (Reader.limit count fault c) fun _ d => d.rest = c.rest := by
  unfold Reader.limit
  split <;> exact .some rfl

namespace Budget

structure Expressions (n : Nat) : Prop where
  expression : ∀ c, 32 * c.rest.length + 10 ≤ n → Succeeds (expression n c) c.Behind
  operation : ∀ tiers c, tiers.length ≤ 6 → 32 * c.rest.length + tiers.length + 3 ≤ n →
    Succeeds (operation n tiers c) c.Behind
  operationRest : ∀ tier tighter left c, tighter.length ≤ 5 → 32 * c.rest.length + 1 ≤ n →
    Succeeds (operationRest n tier tighter left c) c.Within
  unary : ∀ c, 32 * c.rest.length + 2 ≤ n → Succeeds (unary n c) c.Behind
  suffixes : ∀ target c, 32 * c.rest.length + 1 ≤ n → Succeeds (suffixes n target c) c.Within
  arguments : ∀ count c, 32 * c.rest.length + 11 ≤ n → Succeeds (arguments n count c) c.Behind
  primary : ∀ c, 32 * c.rest.length + 1 ≤ n → Succeeds (primary n c) c.Behind

variable {n : Nat}

theorem expression_succ (ih : Expressions n) (c : Cursor) (h : 32 * c.rest.length + 10 ≤ n + 1) :
    Succeeds (expression (n + 1) c) c.Behind := by
  rw [Grammar.expression_succ]
  refine (ih.operation Tier.all c (by decide) (by simp [Tier.all]; omega)).andThen fun target d hd => ?_
  unfold Behind at hd
  split
  · next seen =>
    have shorter := length_advance seen
    refine (ih.expression d.advance (by omega)).andThen fun value e he => ?_
    unfold Behind at he
    have behind : e.rest.length ≤ c.rest.length - 1 := by omega
    cases target <;> exact .some behind
  · exact .some hd

theorem operation_succ (ih : Expressions n) (tiers : List Tier) (c : Cursor) (few : tiers.length ≤ 6)
    (h : 32 * c.rest.length + tiers.length + 3 ≤ n + 1) : Succeeds (operation (n + 1) tiers c) c.Behind := by
  cases tiers with
  | nil => exact ih.unary c (by simp at h; omega)
  | cons tier tighter =>
    simp only [List.length_cons] at few h
    rw [operation_cons]
    refine (ih.operation tighter c (by omega) (by omega)).andThen fun left d hd => ?_
    unfold Behind at hd
    refine (ih.operationRest tier tighter left d (by omega) (by omega)).imp fun _ e he => ?_
    unfold Within at he
    unfold Behind
    omega

theorem operationRest_succ (ih : Expressions n) (tier : Tier) (tighter : List Tier) (left : Expr) (c : Cursor)
    (few : tighter.length ≤ 5) (h : 32 * c.rest.length + 1 ≤ n + 1) :
    Succeeds (operationRest (n + 1) tier tighter left c) c.Within := by
  rw [Grammar.operationRest_succ]
  split
  · next seen =>
    have shorter := length_advance_any seen
    refine (ih.operation tighter _ (by omega) (by omega)).andThen fun right d hd => ?_
    unfold Behind at hd
    refine (ih.operationRest tier tighter _ d few (by omega)).imp fun _ e he => ?_
    unfold Within at he ⊢
    omega
  · exact .some (Nat.le_refl _)

theorem unary_succ (ih : Expressions n) (c : Cursor) (h : 32 * c.rest.length + 2 ≤ n + 1) :
    Succeeds (unary (n + 1) c) c.Behind := by
  rw [Grammar.unary_succ]
  split
  · next seen =>
    have shorter := length_advance_any seen
    refine (ih.unary c.advance (by omega)).andThen fun operand d hd => .some ?_
    unfold Behind at hd ⊢
    omega
  · refine (ih.primary c (by omega)).andThen fun callee d hd => ?_
    unfold Behind at hd
    refine (ih.suffixes callee d (by omega)).imp fun _ e he => ?_
    unfold Within at he
    unfold Behind
    omega

theorem suffixes_succ (ih : Expressions n) (target : Expr) (c : Cursor) (h : 32 * c.rest.length + 1 ≤ n + 1) :
    Succeeds (suffixes (n + 1) target c) c.Within := by
  rw [Grammar.suffixes_succ]
  split
  · next seen =>
    have shorter := length_advance seen
    have args : Succeeds (if c.advance.sees .rightParen then some ([], c.advance) else arguments n 1 c.advance)
        c.advance.Within := by
      split
      · exact .some (Nat.le_refl _)
      · exact (ih.arguments 1 c.advance (by omega)).imp fun _ d hd => Nat.le_trans hd (Nat.sub_le _ _)
    refine args.andThen fun arguments d hd => ?_
    unfold Within at hd
    have ended := length_expect_le d .argumentsEnd
    refine (ih.suffixes _ _ (by omega)).imp fun _ e he => ?_
    unfold Within at he ⊢
    omega
  · split
    · next seen =>
      have shorter := length_advance seen
      refine (ih.expression c.advance (by omega)).andThen fun place d hd => ?_
      unfold Behind at hd
      have ended := length_expect_le d .indexEnd
      refine (ih.suffixes _ _ (by omega)).imp fun _ e he => ?_
      unfold Within at he ⊢
      omega
    · exact .some (Nat.le_refl _)

theorem arguments_succ (ih : Expressions n) (count : Nat) (c : Cursor) (h : 32 * c.rest.length + 11 ≤ n + 1) :
    Succeeds (arguments (n + 1) count c) c.Behind := by
  rw [Grammar.arguments_succ]
  refine (ih.expression c (by omega)).andThen fun argument d hd => ?_
  unfold Behind at hd
  split
  · next seen =>
    have shorter := length_advance seen
    refine (limit_succeeds count _ d.advance).andThen fun _ e he => ?_
    refine (ih.arguments (count + 1) e (by rw [he]; omega)).andThen fun rest f hf => .some ?_
    unfold Behind at hf ⊢
    rw [he] at hf
    omega
  · exact .some hd

theorem primary_succ (ih : Expressions n) (c : Cursor) (h : 32 * c.rest.length + 1 ≤ n + 1) :
    Succeeds (primary (n + 1) c) c.Behind := by
  rw [Grammar.primary_succ]
  split
  · next done => exact .some (by simp [Behind, done])
  · next t rest hrest =>
    have shorter : c.advance.rest.length ≤ c.rest.length - 1 := by simp
    have some_left : c.rest.length = rest.length + 1 := by simp [hrest]
    split
    · exact .some shorter
    · exact .some shorter
    · refine (ih.expression c.advance (by omega)).andThen fun inner d hd => .some ?_
      have ended := length_expect_le d .groupEnd
      unfold Behind at hd ⊢
      omega
    · exact .some shorter

theorem expressions : ∀ n, Expressions n
  | 0 => by constructor <;> intros <;> omega
  | n + 1 =>
    have ih := expressions n
    ⟨expression_succ ih, operation_succ ih, operationRest_succ ih, unary_succ ih, suffixes_succ ih,
      arguments_succ ih, primary_succ ih⟩

theorem expression {c : Cursor} (h : 32 * c.rest.length + 10 ≤ n) : Succeeds (Grammar.expression n c) c.Behind :=
  (expressions n).expression c h

theorem expressionUnless {c : Cursor} (closing : Token.Kind) (h : 32 * c.rest.length + 10 ≤ n) :
    Succeeds (expressionUnless n closing c) c.Within := by
  rw [expressionUnless_run]
  split
  · exact .some (Nat.le_refl _)
  · exact (expression h).andThen fun _ d hd => .some (Nat.le_trans hd (Nat.sub_le _ _))

theorem expressionStatement {c : Cursor} (h : 32 * c.rest.length + 10 ≤ n) :
    Succeeds (expressionStatement n c) c.Behind := by
  rw [expressionStatement_run]
  exact (expression h).andThen fun _ d hd => .some (Nat.le_trans (d.length_expect_le _) hd)

theorem printStatement {c : Cursor} (h : 32 * c.rest.length + 10 ≤ n) : Succeeds (printStatement n c) c.Behind := by
  rw [printStatement_run]
  exact (expression h).andThen fun _ d hd => .some (Nat.le_trans (d.length_expect_le _) hd)

theorem returnStatement {c : Cursor} (h : 32 * c.rest.length + 10 ≤ n) :
    Succeeds (returnStatement n c) c.Within := by
  rw [returnStatement_run]
  exact (expressionUnless _ h).andThen fun _ d hd => .some (Nat.le_trans (d.length_expect_le _) hd)

theorem variableDeclaration {c : Cursor} (h : 32 * c.rest.length + 10 ≤ n) :
    Succeeds (variableDeclaration n c) c.Within := by
  rw [variableDeclaration_run]
  have named := length_expect_le c .variableName
  refine Succeeds.andThen (P := c.Within) ?_ fun _ d hd => .some (Nat.le_trans (d.length_expect_le _) hd)
  split
  · next seen =>
    have shorter := length_advance seen
    refine (expression (by omega)).andThen fun _ d hd => .some ?_
    unfold Behind at hd
    unfold Within
    omega
  · exact .some named

theorem forInitial {c : Cursor} (h : 32 * c.rest.length + 10 ≤ n) : Succeeds (forInitial n c) c.Within := by
  rw [forInitial_run]
  split
  · exact .some (c.rest_advance_suffix.length_le)
  split
  · next seen =>
    have shorter := length_advance seen
    refine (variableDeclaration (by omega)).andThen fun _ d hd => .some ?_
    unfold Within at hd ⊢
    omega
  · exact (expressionStatement h).andThen fun _ d hd => .some (Nat.le_trans hd (Nat.sub_le _ _))

theorem parameters {c : Cursor} (count : Nat) (h : 32 * c.rest.length + 1 ≤ n) :
    Succeeds (parameters n count c) c.Within := by
  induction n generalizing count c with
  | zero => omega
  | succ n ih =>
    rw [parameters_succ]
    refine (limit_succeeds count _ c).andThen fun _ d hd => ?_
    have named := length_expect_le d .parameterName
    rw [hd] at named
    split
    · next seen =>
      have shorter := length_advance seen
      refine (ih (count + 1) (by omega)).andThen fun rest e he => .some ?_
      unfold Within at he ⊢
      omega
    · exact .some named

structure Statements (n : Nat) : Prop where
  declaration : ∀ c, 32 * c.rest.length + 13 ≤ n → Succeeds (declaration n c) c.Behind
  anyDeclaration : ∀ c, 32 * c.rest.length + 12 ≤ n → Succeeds (anyDeclaration n c) c.Behind
  functionDeclaration : ∀ c, 32 * c.rest.length + 16 ≤ n → Succeeds (functionDeclaration n c) c.Within
  statement : ∀ c, 32 * c.rest.length + 11 ≤ n → Succeeds (statement n c) c.Behind
  ifStatement : ∀ c, 32 * c.rest.length + 12 ≤ n → Succeeds (ifStatement n c) c.Within
  whileStatement : ∀ c, 32 * c.rest.length + 12 ≤ n → Succeeds (whileStatement n c) c.Within
  forStatement : ∀ c, 32 * c.rest.length + 12 ≤ n → Succeeds (forStatement n c) c.Within
  block : ∀ c, 32 * c.rest.length + 15 ≤ n → Succeeds (block n c) c.Within
  declarations : ∀ nested c, 32 * c.rest.length + 14 ≤ n → Succeeds (declarations n nested c) c.Within

theorem behind_of_within {α : Type} {o : Outcome α} {c : Cursor} {kind : Token.Kind} (seen : c.sees kind = true)
    (h : Succeeds o c.advance.Within) : Succeeds o c.Behind := by
  have shorter := length_advance seen
  refine h.imp fun _ d hd => ?_
  unfold Within at hd
  unfold Behind
  omega

theorem within_of_behind {α : Type} {o : Outcome α} {c : Cursor} (h : Succeeds o c.Behind) : Succeeds o c.Within :=
  h.imp fun _ _ hd => Nat.le_trans hd (Nat.sub_le _ _)

theorem declaration_succ (ih : Statements n) (c : Cursor) (h : 32 * c.rest.length + 13 ≤ n + 1) :
    Succeeds (declaration (n + 1) c) c.Behind := by
  rw [Grammar.declaration_succ]
  refine (ih.anyDeclaration _ (by change 32 * c.rest.length + 12 ≤ n; omega)).andThen fun stmt d hd => .some ?_
  exact Nat.le_trans (d.length_conclude_le _) hd

theorem anyDeclaration_succ (ih : Statements n) (c : Cursor) (h : 32 * c.rest.length + 12 ≤ n + 1) :
    Succeeds (anyDeclaration (n + 1) c) c.Behind := by
  rw [Grammar.anyDeclaration_succ]
  split
  · next seen =>
    have shorter := length_advance seen
    exact behind_of_within seen (variableDeclaration (by omega))
  split
  · next seen =>
    have shorter := length_advance seen
    exact behind_of_within seen (ih.functionDeclaration _ (by omega))
  · exact ih.statement c (by omega)

theorem functionDeclaration_succ (ih : Statements n) (c : Cursor) (h : 32 * c.rest.length + 16 ≤ n + 1) :
    Succeeds (functionDeclaration (n + 1) c) c.Within := by
  rw [Grammar.functionDeclaration_succ]
  have named := length_expect_le c .functionName
  have opened := length_expect_le (c.expect .functionName) .parametersStart
  refine Succeeds.andThen (P := c.Within) ?_ fun params d hd => ?_
  · split
    · exact .some (Nat.le_trans opened named)
    · refine (parameters 0 (by omega)).imp fun _ d hd => ?_
      unfold Within at hd ⊢
      omega
  · unfold Within at hd
    have closed := length_expect_le d .parametersEnd
    have begun := length_expect_le (d.expect .parametersEnd) .bodyStart
    refine (ih.block _ (by omega)).andThen fun body e he => .some ?_
    unfold Within at he ⊢
    omega

theorem statement_succ (ih : Statements n) (c : Cursor) (h : 32 * c.rest.length + 11 ≤ n + 1) :
    Succeeds (statement (n + 1) c) c.Behind := by
  rw [Grammar.statement_succ]
  have room {kind : Token.Kind} (seen : c.sees kind = true) : 32 * c.advance.rest.length + 15 ≤ n := by
    have shorter := length_advance seen
    omega
  split
  · next seen => exact behind_of_within seen (within_of_behind (printStatement (by have := room seen; omega)))
  split
  · next seen => exact behind_of_within seen (returnStatement (by have := room seen; omega))
  split
  · next seen => exact behind_of_within seen (ih.ifStatement _ (by have := room seen; omega))
  split
  · next seen => exact behind_of_within seen (ih.whileStatement _ (by have := room seen; omega))
  split
  · next seen => exact behind_of_within seen (ih.forStatement _ (by have := room seen; omega))
  split
  · next seen =>
    exact behind_of_within seen ((ih.block _ (room seen)).andThen fun body d hd => .some hd)
  · exact expressionStatement (by omega)

theorem ifStatement_succ (ih : Statements n) (c : Cursor) (h : 32 * c.rest.length + 12 ≤ n + 1) :
    Succeeds (ifStatement (n + 1) c) c.Within := by
  rw [Grammar.ifStatement_succ]
  have started := length_expect_le c .ifStart
  refine (expression (by omega)).andThen fun condition d hd => ?_
  unfold Behind at hd
  have tested := length_expect_le d .ifEnd
  refine (ih.statement _ (by omega)).andThen fun yes e he => ?_
  unfold Behind at he
  split
  · have left := e.rest_advance_suffix.length_le
    refine (ih.statement _ (by omega)).andThen fun no f hf => .some ?_
    unfold Behind at hf
    unfold Within
    omega
  · refine .some ?_
    unfold Within
    omega

theorem whileStatement_succ (ih : Statements n) (c : Cursor) (h : 32 * c.rest.length + 12 ≤ n + 1) :
    Succeeds (whileStatement (n + 1) c) c.Within := by
  rw [Grammar.whileStatement_succ]
  have started := length_expect_le c .whileStart
  refine (expression (by omega)).andThen fun condition d hd => ?_
  unfold Behind at hd
  have tested := length_expect_le d .whileEnd
  refine (ih.statement _ (by omega)).andThen fun body e he => .some ?_
  unfold Behind at he
  unfold Within
  omega

theorem forStatement_succ (ih : Statements n) (c : Cursor) (h : 32 * c.rest.length + 12 ≤ n + 1) :
    Succeeds (forStatement (n + 1) c) c.Within := by
  rw [Grammar.forStatement_succ]
  have started := length_expect_le c .forStart
  refine (forInitial (by omega)).andThen fun initial d hd => ?_
  unfold Within at hd
  refine (expressionUnless _ (by omega)).andThen fun condition e he => ?_
  unfold Within at he
  have tested := length_expect_le e .forCondition
  refine (expressionUnless _ (by omega)).andThen fun increment f hf => ?_
  unfold Within at hf
  have ended := length_expect_le f .forEnd
  refine (ih.statement _ (by omega)).andThen fun body g hg => .some ?_
  unfold Behind at hg
  unfold Within
  omega

theorem block_succ (ih : Statements n) (c : Cursor) (h : 32 * c.rest.length + 15 ≤ n + 1) :
    Succeeds (block (n + 1) c) c.Within := by
  rw [Grammar.block_succ]
  refine (ih.declarations true _ (by change 32 * c.rest.length + 14 ≤ n; omega)).andThen fun body d hd => .some ?_
  exact Nat.le_trans (length_expect_le _ _) hd

theorem declarations_succ (ih : Statements n) (nested : Bool) (c : Cursor) (h : 32 * c.rest.length + 14 ≤ n + 1) :
    Succeeds (declarations (n + 1) nested c) c.Within := by
  rw [Grammar.declarations_succ]
  split
  · exact .some (Nat.le_refl _)
  · next more =>
    have left : 0 < c.rest.length := by
      apply List.length_pos_iff.2
      intro done
      simp [done] at more
    refine (ih.declaration c (by omega)).andThen fun stmt? d hd => ?_
    unfold Behind at hd
    refine (ih.declarations nested d (by omega)).andThen fun rest e he => .some ?_
    unfold Within at he ⊢
    omega

theorem statements : ∀ n, Statements n
  | 0 => by constructor <;> intros <;> omega
  | n + 1 =>
    have ih := statements n
    ⟨declaration_succ ih, anyDeclaration_succ ih, functionDeclaration_succ ih, statement_succ ih,
      ifStatement_succ ih, whileStatement_succ ih, forStatement_succ ih, block_succ ih, declarations_succ ih⟩

end Budget

end Scriptlet.Grammar
