import Scriptlet.Proofs.Grammar.Procedure

/-!
A relation between cursors is a trail when it holds along each step that a procedure of the reader can take. Then it
holds along every run. The brace that closes a block is read in three places only: by the block it closes, by a function
whose own opening brace is missing, and by an operand that is missing. Each of them is a step of its own here.
-/

namespace Scriptlet.Grammar

open Outcome

def Cursor.leaveBlock (c : Cursor) : Cursor :=
  ({ c with depth := c.depth - 1 } : Cursor).expect .blockEnd

structure Cursor.Trail (R : Cursor → Cursor → Prop) : Prop where
  refl : ∀ c, R c c
  trans : ∀ {c d e}, R c d → R d e → R c e
  accept : ∀ {c kind}, c.sees kind = true → kind ≠ .leftBrace → kind ≠ .rightBrace → R c c.advance
  fresh : ∀ c, R c { c with nextId := c.nextId + 1 }
  expect : ∀ c slot, slot ≠ .bodyStart → slot ≠ .blockEnd → R c (c.expect slot)
  exceed : ∀ c {fault}, fault.needsRecovery = false → R c (c.report c.current fault)
  refuse : ∀ {c d}, c.sees .assign = true → R c.advance d → R c (d.report c.advance.previous .invalidTarget)
  lack : ∀ {c}, c.rest = [] → R c (c.report c.current .missingExpression)
  unknown : ∀ {c t rest fault}, c.rest = t :: rest → Operand.ofToken t = .unknown fault →
    R c (c.advance.report t fault)
  enclose : ∀ {c d}, c.sees .leftBrace = true → R { c.advance with depth := c.advance.depth + 1 } d →
    (d.rest = [] ∨ d.sees .rightBrace = true) → R c d.leaveBlock
  body : ∀ {c d}, R { c.expect .bodyStart with depth := (c.expect .bodyStart).depth + 1 } d →
    (d.rest = [] ∨ d.sees .rightBrace = true) → R c d.leaveBlock
  conclude : ∀ {c d}, R { c with history := [] } d → R c (d.conclude c.history)

/-- Most trails need not tell the steps apart. -/
theorem Cursor.Trail.ofSteps {R : Cursor → Cursor → Prop} (refl : ∀ c, R c c)
    (trans : ∀ {c d e}, R c d → R d e → R c e) (advance : ∀ c, R c c.advance)
    (report : ∀ c t fault, R c (c.report t fault)) (fresh : ∀ c, R c { c with nextId := c.nextId + 1 })
    (depth : ∀ c k, R c { c with depth := k })
    (conclude : ∀ {c d}, R { c with history := [] } d → R c (d.conclude c.history)) : Cursor.Trail R := by
  have expect (c : Cursor) (slot : Slot) : R c (c.expect slot) := by
    unfold Cursor.expect
    split
    · exact advance c
    · exact report c _ _
  have leave (c : Cursor) : R c c.leaveBlock := trans (depth c _) (expect _ _)
  exact
    { refl, trans, fresh, conclude
      accept := fun _ _ _ => advance _
      expect := fun c slot _ _ => expect c slot
      exceed := fun c _ _ => report c _ _
      refuse := fun _ h => trans (advance _) (trans h (report _ _ _))
      lack := fun _ => report _ _ _
      unknown := fun _ _ => trans (advance _) (report _ _ _)
      enclose := fun _ h _ => trans (advance _) (trans (depth _ _) (trans h (leave _)))
      body := fun h _ => trans (expect _ _) (trans (depth _ _) (trans h (leave _))) }

theorem Cursor.Trail.endMark : Cursor.Trail fun c d => d.endMark = c.endMark :=
  .ofSteps (fun _ => rfl) (fun h k => k.trans h) (fun c => c.endMark_advance) (fun _ _ _ => rfl) (fun _ => rfl)
    (fun _ _ => rfl) (fun h => (Cursor.endMark_conclude _ _).trans h)

theorem Cursor.Trail.depth : Cursor.Trail fun c d => d.depth = c.depth where
  refl _ := rfl
  trans h k := k.trans h
  accept _ _ _ := Cursor.depth_advance _
  fresh _ := rfl
  expect c slot _ _ := c.depth_expect slot
  exceed _ _ _ := rfl
  refuse _ h := h.trans (Cursor.depth_advance _)
  lack _ := rfl
  unknown _ _ := Cursor.depth_advance _
  enclose _ h _ := by simp [Cursor.leaveBlock, h]
  body h _ := by simp [Cursor.leaveBlock, h]
  conclude h := (Cursor.depth_conclude _ _).trans h

theorem Tier.not_brace {tier : Tier} (h : tier ∈ Tier.all) {kind : Token.Kind} (hk : kind ∈ tier.operators) :
    kind ≠ .leftBrace ∧ kind ≠ .rightBrace := by
  revert kind tier
  decide

theorem Operand.not_brace {t : Token} (h : ∀ fault, Operand.ofToken t ≠ .unknown fault) :
    t.kind ≠ .leftBrace ∧ t.kind ≠ .rightBrace := by
  constructor <;> intro hk <;> exact h .missingExpression (by simp [ofToken, hk])

namespace Cursor.Trail

variable {R : Cursor → Cursor → Prop} (trail : Cursor.Trail R)

include trail

theorem limit (count : Nat) {fault : Fault} (h : fault.needsRecovery = false) (c : Cursor) :
    Ensures (Reader.limit count fault c) fun _ d => R c d := by
  unfold Reader.limit
  split
  · exact .some (trail.exceed c h)
  · exact .some (trail.refl c)

structure Expressions (R : Cursor → Cursor → Prop) (n : Nat) : Prop where
  expression : ∀ c, Ensures (expression n c) fun _ d => R c d
  operation : ∀ tiers c, tiers <:+ Tier.all → Ensures (operation n tiers c) fun _ d => R c d
  operationRest : ∀ tier tighter left c, tier :: tighter <:+ Tier.all →
    Ensures (operationRest n tier tighter left c) fun _ d => R c d
  unary : ∀ c, Ensures (unary n c) fun _ d => R c d
  suffixes : ∀ target c, Ensures (suffixes n target c) fun _ d => R c d
  arguments : ∀ count c, Ensures (arguments n count c) fun _ d => R c d
  primary : ∀ c, Ensures (primary n c) fun _ d => R c d

variable {n : Nat}

theorem expression_succ (ih : Expressions R n) (c : Cursor) :
    Ensures (expression (n + 1) c) fun _ d => R c d := by
  rw [Grammar.expression_succ]
  refine (ih.operation _ c List.suffix_rfl).andThen fun target d hd => ?_
  split
  · next seen =>
    refine (ih.expression d.advance).andThen fun value e he => ?_
    cases target with
    | read id name =>
      have hv := trail.trans (trail.accept seen (by decide) (by decide)) he
      exact .some (trail.trans hd (trail.trans hv (trail.fresh e)))
    | _ => exact .some (trail.trans hd (trail.refuse seen he))
  · exact .some hd

theorem operation_succ (ih : Expressions R n) (tiers : List Tier) (c : Cursor) (h : tiers <:+ Tier.all) :
    Ensures (operation (n + 1) tiers c) fun _ d => R c d := by
  cases tiers with
  | nil => exact ih.unary c
  | cons tier tighter =>
    rw [operation_cons]
    refine (ih.operation tighter c ((List.suffix_cons _ _).trans h)).andThen fun left d hd => ?_
    exact (ih.operationRest tier tighter left d h).imp fun _ _ he => trail.trans hd he

theorem accept_any {kinds : List Token.Kind} {c : Cursor} (h : kinds.any c.sees = true)
    (plain : ∀ kind ∈ kinds, kind ≠ .leftBrace ∧ kind ≠ .rightBrace) : R c c.advance := by
  obtain ⟨kind, hk, seen⟩ := List.any_eq_true.1 h
  exact trail.accept seen (plain kind hk).1 (plain kind hk).2

theorem operationRest_succ (ih : Expressions R n) (tier : Tier) (tighter : List Tier) (left : Expr) (c : Cursor)
    (h : tier :: tighter <:+ Tier.all) :
    Ensures (operationRest (n + 1) tier tighter left c) fun _ d => R c d := by
  rw [Grammar.operationRest_succ]
  split
  · next seen =>
    have hc := trail.accept_any seen fun kind => Tier.not_brace (h.subset List.mem_cons_self)
    refine (ih.operation tighter _ ((List.suffix_cons _ _).trans h)).andThen fun right d hd => ?_
    refine (ih.operationRest tier tighter _ d h).imp fun _ _ he => ?_
    exact trail.trans hc (trail.trans hd he)
  · exact .some (trail.refl c)

theorem unary_succ (ih : Expressions R n) (c : Cursor) : Ensures (unary (n + 1) c) fun _ d => R c d := by
  rw [Grammar.unary_succ]
  split
  · next seen =>
    have hc := trail.accept_any seen (by decide)
    exact (ih.unary c.advance).andThen fun operand d hd => .some (trail.trans hc hd)
  · refine (ih.primary c).andThen fun callee d hd => ?_
    exact (ih.suffixes callee d).imp fun _ _ he => trail.trans hd he

theorem suffixes_succ (ih : Expressions R n) (target : Expr) (c : Cursor) :
    Ensures (suffixes (n + 1) target c) fun _ d => R c d := by
  rw [Grammar.suffixes_succ]
  split
  · next seen =>
    have hc := trail.accept seen (by decide) (by decide)
    have args : Ensures (if c.advance.sees .rightParen then some ([], c.advance) else arguments n 1 c.advance)
        fun _ d => R c.advance d := by
      split
      · exact .some (trail.refl _)
      · exact ih.arguments 1 c.advance
    refine args.andThen fun arguments d hd => (ih.suffixes _ _).imp fun _ _ he => ?_
    have hp := trail.expect d .argumentsEnd (by decide) (by decide)
    exact trail.trans hc (trail.trans hd (trail.trans hp he))
  · split
    · next seen =>
      have hc := trail.accept seen (by decide) (by decide)
      refine (ih.expression c.advance).andThen fun place d hd => (ih.suffixes _ _).imp fun _ _ he => ?_
      have hp := trail.expect d .indexEnd (by decide) (by decide)
      exact trail.trans hc (trail.trans hd (trail.trans hp he))
    · exact .some (trail.refl c)

theorem arguments_succ (ih : Expressions R n) (count : Nat) (c : Cursor) :
    Ensures (arguments (n + 1) count c) fun _ d => R c d := by
  rw [Grammar.arguments_succ]
  refine (ih.expression c).andThen fun argument d hd => ?_
  split
  · next seen =>
    refine (trail.limit count rfl d.advance).andThen fun _ e he => ?_
    refine (ih.arguments (count + 1) e).andThen fun rest f hf => .some ?_
    exact trail.trans hd (trail.trans (trail.accept seen (by decide) (by decide)) (trail.trans he hf))
  · exact .some hd

theorem primary_succ (ih : Expressions R n) (c : Cursor) : Ensures (primary (n + 1) c) fun _ d => R c d := by
  rw [Grammar.primary_succ]
  split
  · next done => exact .some (trail.lack done)
  · next t rest hrest =>
    have consume (plain : ∀ fault, Operand.ofToken t ≠ .unknown fault) : R c c.advance :=
      trail.accept (by simp [sees_cons hrest]) (Operand.not_brace plain).1 (Operand.not_brace plain).2
    split
    · next hk => exact .some (consume (by simp [hk]))
    · next hk => exact .some (trail.trans (consume (by simp [hk])) (trail.fresh _))
    · next hk =>
      refine (ih.expression c.advance).andThen fun inner d hd => .some ?_
      have hp := trail.expect d .groupEnd (by decide) (by decide)
      exact trail.trans (consume (by simp [hk])) (trail.trans hd hp)
    · next hk => exact .some (trail.unknown hrest hk)

theorem expressions : ∀ n, Expressions R n
  | 0 => ⟨fun _ => .none, fun _ _ _ => .none, fun _ _ _ _ _ => .none, fun _ => .none, fun _ _ => .none,
      fun _ _ => .none, fun _ => .none⟩
  | n + 1 =>
    have ih := expressions n
    ⟨trail.expression_succ ih, trail.operation_succ ih, trail.operationRest_succ ih, trail.unary_succ ih,
      trail.suffixes_succ ih, trail.arguments_succ ih, trail.primary_succ ih⟩

theorem expression (n : Nat) (c : Cursor) : Ensures (Grammar.expression n c) fun _ d => R c d :=
  (trail.expressions n).expression c

theorem expressionUnless (n : Nat) (closing : Token.Kind) (c : Cursor) :
    Ensures (expressionUnless n closing c) fun _ d => R c d := by
  rw [expressionUnless_run]
  split
  · exact .some (trail.refl c)
  · exact (trail.expression n c).andThen fun _ _ h => .some h

theorem expressionStatement (n : Nat) (c : Cursor) : Ensures (expressionStatement n c) fun _ d => R c d := by
  rw [expressionStatement_run]
  refine (trail.expression n c).andThen fun value d hd => .some ?_
  exact trail.trans hd (trail.expect d .expressionEnd (by decide) (by decide))

theorem printStatement (n : Nat) (c : Cursor) : Ensures (printStatement n c) fun _ d => R c d := by
  rw [printStatement_run]
  refine (trail.expression n c).andThen fun value d hd => .some ?_
  exact trail.trans hd (trail.expect d .printEnd (by decide) (by decide))

theorem returnStatement (n : Nat) (c : Cursor) : Ensures (returnStatement n c) fun _ d => R c d := by
  rw [returnStatement_run]
  refine (trail.expressionUnless n .semicolon c).andThen fun value d hd => .some ?_
  exact trail.trans hd (trail.expect d .returnEnd (by decide) (by decide))

theorem variableDeclaration (n : Nat) (c : Cursor) : Ensures (variableDeclaration n c) fun _ d => R c d := by
  rw [variableDeclaration_run]
  have name := trail.expect c .variableName (by decide) (by decide)
  refine Ensures.andThen (P := fun _ d => R c d) ?_ fun initial d hd => .some ?_
  · split
    · next seen =>
      refine (trail.expression n _).andThen fun e d hd => .some ?_
      exact trail.trans name (trail.trans (trail.accept seen (by decide) (by decide)) hd)
    · exact .some name
  · exact trail.trans hd (trail.expect d .declarationEnd (by decide) (by decide))

theorem forInitial (n : Nat) (c : Cursor) : Ensures (forInitial n c) fun _ d => R c d := by
  rw [forInitial_run]
  split
  · next seen => exact .some (trail.accept seen (by decide) (by decide))
  · split
    · next seen =>
      refine (trail.variableDeclaration n _).andThen fun stmt d hd => .some ?_
      exact trail.trans (trail.accept seen (by decide) (by decide)) hd
    · exact (trail.expressionStatement n c).andThen fun stmt d hd => .some hd

theorem parameters (n count : Nat) (c : Cursor) : Ensures (parameters n count c) fun _ d => R c d := by
  induction n generalizing count c with
  | zero => exact .none
  | succ n ih =>
    rw [parameters_succ]
    refine (trail.limit count rfl c).andThen fun _ d hd => ?_
    have name := trail.trans hd (trail.expect d .parameterName (by decide) (by decide))
    split
    · next seen =>
      refine (ih (count + 1) _).andThen fun rest e he => .some ?_
      exact trail.trans name (trail.trans (trail.accept seen (by decide) (by decide)) he)
    · exact .some name

structure Statements (R : Cursor → Cursor → Prop) (n : Nat) : Prop where
  declaration : ∀ c, Ensures (declaration n c) fun _ d => R c d
  anyDeclaration : ∀ c, Ensures (anyDeclaration n c) fun _ d => R c d
  functionDeclaration : ∀ c, Ensures (functionDeclaration n c) fun _ d => R c d
  statement : ∀ c, Ensures (statement n c) fun _ d => R c d
  ifStatement : ∀ c, Ensures (ifStatement n c) fun _ d => R c d
  whileStatement : ∀ c, Ensures (whileStatement n c) fun _ d => R c d
  forStatement : ∀ c, Ensures (forStatement n c) fun _ d => R c d
  block : ∀ c, Ensures (block n c) fun _ e => ∃ d, R { c with depth := c.depth + 1 } d ∧
    (d.rest = [] ∨ d.sees .rightBrace = true) ∧ e = d.leaveBlock
  declarations : ∀ nested c, Ensures (declarations n nested c) fun _ d => R c d ∧
    (d.rest = [] ∨ nested = true ∧ d.sees .rightBrace = true)

theorem declaration_succ (ih : Statements R n) (c : Cursor) :
    Ensures (declaration (n + 1) c) fun _ d => R c d := by
  rw [Grammar.declaration_succ]
  exact (ih.anyDeclaration _).andThen fun stmt d hd => .some (trail.conclude hd)

theorem anyDeclaration_succ (ih : Statements R n) (c : Cursor) :
    Ensures (anyDeclaration (n + 1) c) fun _ d => R c d := by
  rw [Grammar.anyDeclaration_succ]
  split
  · next seen =>
    exact (trail.variableDeclaration n _).imp fun _ _ hd =>
      trail.trans (trail.accept seen (by decide) (by decide)) hd
  · split
    · next seen =>
      exact (ih.functionDeclaration _).imp fun _ _ hd =>
        trail.trans (trail.accept seen (by decide) (by decide)) hd
    · exact ih.statement c

theorem functionDeclaration_succ (ih : Statements R n) (c : Cursor) :
    Ensures (functionDeclaration (n + 1) c) fun _ d => R c d := by
  rw [Grammar.functionDeclaration_succ]
  have name := trail.trans (trail.expect c .functionName (by decide) (by decide))
    (trail.expect (c.expect .functionName) .parametersStart (by decide) (by decide))
  refine Ensures.andThen (P := fun _ d => R c d) ?_ fun params d hd => ?_
  · split
    · exact .some name
    · exact (trail.parameters n 0 _).imp fun _ _ hd => trail.trans name hd
  · refine (ih.block _).andThen fun body f ⟨e, he, done, hf⟩ => .some ?_
    have ended := trail.trans hd (trail.expect d .parametersEnd (by decide) (by decide))
    exact hf ▸ trail.trans ended (trail.body he done)

theorem statement_succ (ih : Statements R n) (c : Cursor) :
    Ensures (statement (n + 1) c) fun _ d => R c d := by
  have after {kind : Token.Kind} (seen : c.sees kind = true) (left : kind ≠ .leftBrace) (right : kind ≠ .rightBrace)
      {o : Outcome Stmt} (h : Ensures o fun _ d => R c.advance d) : Ensures o fun _ d => R c d :=
    h.imp fun _ _ hd => trail.trans (trail.accept seen left right) hd
  rw [Grammar.statement_succ]
  split
  · next seen => exact after seen (by decide) (by decide) (trail.printStatement n _)
  split
  · next seen => exact after seen (by decide) (by decide) (trail.returnStatement n _)
  split
  · next seen => exact after seen (by decide) (by decide) (ih.ifStatement _)
  split
  · next seen => exact after seen (by decide) (by decide) (ih.whileStatement _)
  split
  · next seen => exact after seen (by decide) (by decide) (ih.forStatement _)
  split
  · next seen =>
    exact (ih.block _).andThen fun body e ⟨d, hd, done, he⟩ => .some (he ▸ trail.enclose seen hd done)
  · exact trail.expressionStatement n c

theorem ifStatement_succ (ih : Statements R n) (c : Cursor) :
    Ensures (ifStatement (n + 1) c) fun _ d => R c d := by
  rw [Grammar.ifStatement_succ]
  have start := trail.expect c .ifStart (by decide) (by decide)
  refine (trail.expression n _).andThen fun condition d hd => ?_
  have tested := trail.trans hd (trail.expect d .ifEnd (by decide) (by decide))
  refine (ih.statement _).andThen fun yes e he => ?_
  have branch := trail.trans start (trail.trans tested he)
  split
  · next seen =>
    refine (ih.statement _).andThen fun no f hf => .some ?_
    exact trail.trans branch (trail.trans (trail.accept seen (by decide) (by decide)) hf)
  · exact .some branch

theorem whileStatement_succ (ih : Statements R n) (c : Cursor) :
    Ensures (whileStatement (n + 1) c) fun _ d => R c d := by
  rw [Grammar.whileStatement_succ]
  have start := trail.expect c .whileStart (by decide) (by decide)
  refine (trail.expression n _).andThen fun condition d hd => ?_
  have tested := trail.trans hd (trail.expect d .whileEnd (by decide) (by decide))
  exact (ih.statement _).andThen fun body e he => .some (trail.trans start (trail.trans tested he))

theorem forStatement_succ (ih : Statements R n) (c : Cursor) :
    Ensures (forStatement (n + 1) c) fun _ d => R c d := by
  rw [Grammar.forStatement_succ]
  have start := trail.expect c .forStart (by decide) (by decide)
  refine (trail.forInitial n _).andThen fun initial d hd => ?_
  refine (trail.expressionUnless n _ d).andThen fun condition e he => ?_
  have tested := trail.trans he (trail.expect e .forCondition (by decide) (by decide))
  refine (trail.expressionUnless n _ _).andThen fun increment f hf => ?_
  have ended := trail.trans hf (trail.expect f .forEnd (by decide) (by decide))
  refine (ih.statement _).andThen fun body g hg => .some ?_
  exact trail.trans start (trail.trans hd (trail.trans tested (trail.trans ended hg)))

omit trail in
theorem block_succ (ih : Statements R n) (c : Cursor) :
    Ensures (block (n + 1) c) fun _ e => ∃ d, R { c with depth := c.depth + 1 } d ∧
      (d.rest = [] ∨ d.sees .rightBrace = true) ∧ e = d.leaveBlock := by
  rw [Grammar.block_succ]
  refine (ih.declarations true _).andThen fun body d ⟨hd, done⟩ => .some ⟨d, hd, ?_, rfl⟩
  exact done.imp_right And.right

theorem declarations_succ (ih : Statements R n) (nested : Bool) (c : Cursor) :
    Ensures (declarations (n + 1) nested c) fun _ d => R c d ∧
      (d.rest = [] ∨ nested = true ∧ d.sees .rightBrace = true) := by
  rw [Grammar.declarations_succ]
  split
  · next done => exact .some ⟨trail.refl c, by simpa using done⟩
  · refine (ih.declaration c).andThen fun stmt? d hd => ?_
    exact (ih.declarations nested d).andThen fun rest e he => .some ⟨trail.trans hd he.1, he.2⟩

theorem statements : ∀ n, Statements R n
  | 0 => ⟨fun _ => .none, fun _ => .none, fun _ => .none, fun _ => .none, fun _ => .none, fun _ => .none,
      fun _ => .none, fun _ => .none, fun _ _ => .none⟩
  | n + 1 =>
    have ih := statements n
    ⟨trail.declaration_succ ih, trail.anyDeclaration_succ ih, trail.functionDeclaration_succ ih,
      trail.statement_succ ih, trail.ifStatement_succ ih, trail.whileStatement_succ ih, trail.forStatement_succ ih,
      block_succ ih, trail.declarations_succ ih⟩

end Cursor.Trail
end Scriptlet.Grammar
