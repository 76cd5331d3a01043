import Scriptlet.Proofs.Grammar.Refinement
import Scriptlet.Proofs.Tree.Site

namespace Scriptlet.Grammar

open Outcome

structure Within (low high : Nat) (uses : List Use) : Prop where
  le : low ≤ high
  nodup : (uses.map Use.id).Nodup
  bounds : ∀ i : Nat, i ∈ uses.map Use.id → low ≤ i ∧ i < high

namespace Within

variable {a b c : Nat} {us vs : List Use}

theorem nil (h : a ≤ b) : Within a b [] :=
  ⟨h, List.nodup_nil, by simp⟩

theorem single (name : Token) (assigns : Bool) (a : Nat) : Within a (a + 1) [⟨a, name, assigns⟩] :=
  ⟨Nat.le_succ a, by simp, by simp⟩

theorem append (hu : Within a b us) (hv : Within b c vs) : Within a c (us ++ vs) where
  le := Nat.le_trans hu.le hv.le
  nodup := by
    rw [List.map_append, List.nodup_append]
    refine ⟨hu.nodup, hv.nodup, ?_⟩
    intro i hi j hj
    exact Nat.ne_of_lt (Nat.lt_of_lt_of_le (hu.bounds i hi).2 (hv.bounds j hj).1)
  bounds := by
    intro i mem
    have hab := hu.le
    have hbc := hv.le
    rw [List.map_append, List.mem_append] at mem
    rcases mem with mem | mem
    · have h := hu.bounds i mem
      omega
    · have h := hv.bounds i mem
      omega

theorem perm (h : Within a b us) (p : us.Perm vs) : Within a b vs where
  le := h.le
  nodup := (p.map Use.id).nodup_iff.1 h.nodup
  bounds := fun i mem => h.bounds i ((p.map Use.id).mem_iff.2 mem)

theorem later (h : Within b c us) (hab : a ≤ b) : Within a c us := by
  simpa using (nil hab).append h

theorem longer (h : Within a b us) (hbc : b ≤ c) : Within a c us := by
  simpa using h.append (nil hbc)

end Within

/-- What the procedures for expressions do with a budget. Those that continue an expression get it with the numbers that
it has taken. -/
structure NumberedExpressions (n : Nat) : Prop where
  expression : ∀ c, Ensures (expression n c) fun e d => Within c.nextId d.nextId e.uses
  operation : ∀ tiers c, Ensures (operation n tiers c) fun e d => Within c.nextId d.nextId e.uses
  operationRest : ∀ tier tighter left c a, Within a c.nextId left.uses →
    Ensures (operationRest n tier tighter left c) fun e d => Within a d.nextId e.uses
  unary : ∀ c, Ensures (unary n c) fun e d => Within c.nextId d.nextId e.uses
  suffixes : ∀ target c a, Within a c.nextId target.uses →
    Ensures (suffixes n target c) fun e d => Within a d.nextId e.uses
  arguments : ∀ count c, Ensures (arguments n count c) fun es d => Within c.nextId d.nextId (Expr.usesIn es)
  primary : ∀ c, Ensures (primary n c) fun e d => Within c.nextId d.nextId e.uses

theorem limit_nextId (count : Nat) (fault : Fault) (c : Cursor) :
    Ensures (Reader.limit count fault c) fun _ d => d.nextId = c.nextId := by
  unfold Reader.limit
  split <;> exact .some rfl

theorem Tier.uses_node (tier : Tier) (operator : Token) (left right : Expr) :
    (tier.node operator left right).uses = left.uses ++ right.uses := by
  unfold Tier.node
  split <;> simp [Expr.uses]

namespace NumberedExpressions

variable {n : Nat}

theorem expression_succ (ih : NumberedExpressions n) (c : Cursor) :
    Ensures (Grammar.expression (n + 1) c) fun e d => Within c.nextId d.nextId e.uses := by
  rw [Grammar.expression_succ]
  refine (ih.operation Tier.all c).andThen fun target d hd => ?_
  split
  · refine (ih.expression d.advance).andThen fun value e he => ?_
    rw [Cursor.nextId_advance] at he
    cases target with
    | read id name =>
      -- the number of the read that the assignment replaces is not used again
      have hv := he.later hd.le
      exact .some (hv.append (.single name true e.nextId))
    | _ => exact .some (hd.longer he.le)
  · exact .some hd

theorem operation_succ (ih : NumberedExpressions n) (tiers : List Tier) (c : Cursor) :
    Ensures (Grammar.operation (n + 1) tiers c) fun e d => Within c.nextId d.nextId e.uses := by
  cases tiers with
  | nil => exact ih.unary c
  | cons tier tighter =>
    rw [operation_cons]
    exact (ih.operation tighter c).andThen fun left d hd => ih.operationRest tier tighter left d _ hd

theorem operationRest_succ (ih : NumberedExpressions n) (tier : Tier) (tighter : List Tier) (left : Expr)
    (c : Cursor) (a : UseId) (h : Within a c.nextId left.uses) :
    Ensures (Grammar.operationRest (n + 1) tier tighter left c) fun e d => Within a d.nextId e.uses := by
  rw [Grammar.operationRest_succ]
  split
  · refine (ih.operation tighter c.advance).andThen fun right d hd => ?_
    rw [Cursor.nextId_advance] at hd
    apply ih.operationRest
    rw [Tier.uses_node]
    exact h.append hd
  · exact .some h

theorem unary_succ (ih : NumberedExpressions n) (c : Cursor) :
    Ensures (Grammar.unary (n + 1) c) fun e d => Within c.nextId d.nextId e.uses := by
  rw [Grammar.unary_succ]
  split
  · refine (ih.unary c.advance).andThen fun operand d hd => ?_
    rw [Cursor.nextId_advance] at hd
    exact .some hd
  · exact (ih.primary c).andThen fun callee d hd => ih.suffixes callee d _ hd

theorem suffixes_succ (ih : NumberedExpressions n) (target : Expr) (c : Cursor) (a : UseId)
    (h : Within a c.nextId target.uses) :
    Ensures (Grammar.suffixes (n + 1) target c) fun e d => Within a d.nextId e.uses := by
  rw [Grammar.suffixes_succ]
  split
  · refine Ensures.andThen (P := fun es d => Within c.nextId d.nextId (Expr.usesIn es)) ?_ fun es d hd => ?_
    · split
      · exact .some (.nil (by simp))
      · exact c.nextId_advance ▸ ih.arguments 1 c.advance
    · apply ih.suffixes
      simpa [Expr.uses] using h.append hd
  · split
    · refine (ih.expression c.advance).andThen fun place d hd => ih.suffixes _ _ a ?_
      rw [Cursor.nextId_advance] at hd
      simpa [Expr.uses] using h.append hd
    · exact .some h

theorem arguments_succ (ih : NumberedExpressions n) (count : Nat) (c : Cursor) :
    Ensures (Grammar.arguments (n + 1) count c) fun es d => Within c.nextId d.nextId (Expr.usesIn es) := by
  rw [Grammar.arguments_succ]
  refine (ih.expression c).andThen fun argument d hd => ?_
  split
  · refine (limit_nextId count _ d.advance).andThen fun _ e he => ?_
    refine (ih.arguments (count + 1) e).andThen fun rest f hf => .some ?_
    rw [he, Cursor.nextId_advance] at hf
    exact hd.append hf
  · exact .some (by simpa [Expr.usesIn] using hd)

theorem primary_succ (ih : NumberedExpressions n) (c : Cursor) :
    Ensures (Grammar.primary (n + 1) c) fun e d => Within c.nextId d.nextId e.uses := by
  rw [Grammar.primary_succ]
  split
  · exact .some (.nil (Nat.le_refl _))
  · next t rest _ =>
    split
    · exact .some (.nil (by simp))
    · exact .some (by simpa [Expr.uses] using Within.single t false c.nextId)
    · refine (ih.expression c.advance).andThen fun inner d hd => .some ?_
      simpa [Expr.uses] using hd
    · exact .some (.nil (by simp))

end NumberedExpressions

theorem numberedExpressions : ∀ n, NumberedExpressions n
  | 0 => ⟨fun _ => .none, fun _ _ => .none, fun _ _ _ _ _ _ => .none, fun _ => .none, fun _ _ _ _ => .none,
      fun _ _ => .none, fun _ => .none⟩
  | n + 1 =>
    have ih := numberedExpressions n
    ⟨ih.expression_succ, ih.operation_succ, ih.operationRest_succ, ih.unary_succ, ih.suffixes_succ,
      ih.arguments_succ, ih.primary_succ⟩

structure Numbered (c : Cursor) (stmt : Stmt) (d : Cursor) : Prop where
  within : Within c.nextId d.nextId stmt.uses
  plain : stmt.Plain

structure NumberedBranch (c : Cursor) (stmt : Stmt) (d : Cursor) : Prop extends Numbered c stmt d where
  branch : stmt.isDeclaration = false

structure NumberedAll (c : Cursor) (stmts : List Stmt) (d : Cursor) : Prop where
  within : Within c.nextId d.nextId (Stmt.usesIn stmts)
  plain : Stmt.PlainIn stmts

section Simple

variable (n : Nat) (c : Cursor)

theorem expression_within : Ensures (expression n c) fun e d => Within c.nextId d.nextId e.uses :=
  (numberedExpressions n).expression c

theorem expressionUnless_within (closing : Token.Kind) :
    Ensures (expressionUnless n closing c) fun e d => Within c.nextId d.nextId ((e.map Expr.uses).getD []) := by
  rw [expressionUnless_run]
  split
  · exact .some (.nil (Nat.le_refl _))
  · exact (expression_within n c).andThen fun e d hd => .some hd

theorem expressionStatement_numbered : Ensures (expressionStatement n c) (NumberedBranch c) := by
  rw [expressionStatement_run]
  refine (expression_within n c).andThen fun value d hd => .some ⟨⟨?_, trivial⟩, rfl⟩
  simpa [Stmt.uses] using hd

theorem printStatement_numbered : Ensures (printStatement n c) (NumberedBranch c) := by
  rw [printStatement_run]
  refine (expression_within n c).andThen fun value d hd => .some ⟨⟨?_, trivial⟩, rfl⟩
  simpa [Stmt.uses] using hd

theorem returnStatement_numbered : Ensures (returnStatement n c) (NumberedBranch c) := by
  rw [returnStatement_run]
  refine (expressionUnless_within n c _).andThen fun value d hd => .some ⟨⟨?_, trivial⟩, rfl⟩
  simpa [Stmt.uses] using hd

theorem variableDeclaration_numbered : Ensures (variableDeclaration n c) (Numbered c) := by
  rw [variableDeclaration_run]
  refine Ensures.andThen (P := fun e d => Within c.nextId d.nextId ((e.map Expr.uses).getD [])) ?_ fun e d hd => ?_
  · split
    · refine (expression_within n _).andThen fun e d hd => .some ?_
      simpa using hd
    · exact .some (.nil (by simp))
  · exact .some ⟨by simpa [Stmt.uses] using hd, trivial⟩

theorem forInitial_numbered :
    Ensures (forInitial n c) fun stmt? d =>
      Within c.nextId d.nextId ((stmt?.map Stmt.uses).getD []) ∧ ∀ stmt ∈ stmt?, stmt.Plain := by
  rw [forInitial_run]
  split
  · exact .some ⟨.nil (by simp), by simp⟩
  · split
    · refine (variableDeclaration_numbered n c.advance).andThen fun stmt d hd => .some ⟨?_, ?_⟩
      · simpa using hd.within
      · simpa using hd.plain
    · refine (expressionStatement_numbered n c).andThen fun stmt d hd => .some ⟨?_, ?_⟩
      · simpa using hd.within
      · simpa using hd.plain

theorem parameters_nextId (n count : Nat) (c : Cursor) :
    Ensures (parameters n count c) fun _ d => d.nextId = c.nextId := by
  induction n generalizing count c with
  | zero => exact .none
  | succ n ih =>
    rw [parameters_succ]
    refine (limit_nextId count _ c).andThen fun _ d hd => ?_
    split
    · exact (ih (count + 1) _).andThen fun rest e he => .some (by simpa [hd] using he)
    · exact .some (by simpa using hd)

end Simple

structure NumberedStatements (n : Nat) : Prop where
  declaration : ∀ c, Ensures (declaration n c) fun stmt? d => NumberedAll c stmt?.toList d
  anyDeclaration : ∀ c, Ensures (anyDeclaration n c) (Numbered c)
  functionDeclaration : ∀ c, Ensures (functionDeclaration n c) (Numbered c)
  statement : ∀ c, Ensures (statement n c) (NumberedBranch c)
  ifStatement : ∀ c, Ensures (ifStatement n c) (NumberedBranch c)
  whileStatement : ∀ c, Ensures (whileStatement n c) (NumberedBranch c)
  forStatement : ∀ c, Ensures (forStatement n c) (NumberedBranch c)
  block : ∀ c, Ensures (block n c) (NumberedAll c)
  declarations : ∀ nested c, Ensures (declarations n nested c) (NumberedAll c)

theorem Cursor.nextId_conclude (c : Cursor) (before : List Episode) : (c.conclude before).nextId = c.nextId := by
  unfold conclude
  split <;> rfl

namespace NumberedStatements

variable {n : Nat}

theorem declaration_succ (ih : NumberedStatements n) (c : Cursor) :
    Ensures (Grammar.declaration (n + 1) c) fun stmt? d => NumberedAll c stmt?.toList d := by
  rw [Grammar.declaration_succ]
  refine (ih.anyDeclaration _).andThen fun stmt d hd => .some ?_
  split
  · exact ⟨.nil (by simpa [Cursor.nextId_conclude] using hd.within.le), trivial⟩
  · exact ⟨by simpa [Cursor.nextId_conclude, Stmt.usesIn] using hd.within, hd.plain, trivial⟩

theorem anyDeclaration_succ (ih : NumberedStatements n) (c : Cursor) :
    Ensures (Grammar.anyDeclaration (n + 1) c) (Numbered c) := by
  rw [Grammar.anyDeclaration_succ]
  split
  · exact (variableDeclaration_numbered n _).imp fun _ _ hd => ⟨by simpa using hd.within, hd.plain⟩
  · split
    · exact (ih.functionDeclaration _).imp fun _ _ hd => ⟨by simpa using hd.within, hd.plain⟩
    · exact (ih.statement c).imp fun _ _ hd => hd.toNumbered

theorem functionDeclaration_succ (ih : NumberedStatements n) (c : Cursor) :
    Ensures (Grammar.functionDeclaration (n + 1) c) (Numbered c) := by
  rw [Grammar.functionDeclaration_succ]
  refine Ensures.andThen (P := fun _ d => d.nextId = c.nextId) ?_ fun params d hd => ?_
  · split
    · exact .some (by simp)
    · exact (parameters_nextId n 0 _).imp fun _ _ h => by simpa using h
  · refine (ih.block _).andThen fun body e he => .some ⟨?_, he.plain⟩
    simpa [hd, Stmt.uses] using he.within

theorem statement_succ (ih : NumberedStatements n) (c : Cursor) :
    Ensures (Grammar.statement (n + 1) c) (NumberedBranch c) := by
  have after {o : Outcome Stmt} (h : Ensures o (NumberedBranch c.advance)) : Ensures o (NumberedBranch c) :=
    h.imp fun _ _ hd => ⟨⟨by simpa using hd.within, hd.plain⟩, hd.branch⟩
  rw [Grammar.statement_succ]
  split
  · exact after (printStatement_numbered n _)
  split
  · exact after (returnStatement_numbered n _)
  split
  · exact after (ih.ifStatement _)
  split
  · exact after (ih.whileStatement _)
  split
  · exact after (ih.forStatement _)
  split
  · refine (ih.block _).andThen fun body d hd => .some ⟨⟨?_, hd.plain⟩, rfl⟩
    simpa [Stmt.uses] using hd.within
  · exact expressionStatement_numbered n c

theorem ifStatement_succ (ih : NumberedStatements n) (c : Cursor) :
    Ensures (Grammar.ifStatement (n + 1) c) (NumberedBranch c) := by
  rw [Grammar.ifStatement_succ]
  refine (expression_within n _).andThen fun condition d hd => ?_
  refine (ih.statement _).andThen fun yes e he => ?_
  rw [Cursor.nextId_expect] at hd
  have hyes := hd.append (d.nextId_expect .ifEnd ▸ he.within)
  split
  · refine (ih.statement _).andThen fun no f hf => .some ⟨⟨?_, ?_, ?_⟩, rfl⟩
    · exact hyes.append (e.nextId_advance ▸ hf.within)
    · exact ⟨he.branch, he.plain⟩
    · exact ⟨hf.branch, hf.plain⟩
  · exact .some ⟨⟨hyes, he.branch, he.plain⟩, rfl⟩

theorem whileStatement_succ (ih : NumberedStatements n) (c : Cursor) :
    Ensures (Grammar.whileStatement (n + 1) c) (NumberedBranch c) := by
  rw [Grammar.whileStatement_succ]
  refine (expression_within n _).andThen fun condition d hd => ?_
  refine (ih.statement _).andThen fun body e he => .some ⟨⟨?_, he.branch, he.plain⟩, rfl⟩
  rw [Cursor.nextId_expect] at hd
  exact hd.append (d.nextId_expect .whileEnd ▸ he.within)

theorem forStatement_succ (ih : NumberedStatements n) (c : Cursor) :
    Ensures (Grammar.forStatement (n + 1) c) (NumberedBranch c) := by
  rw [Grammar.forStatement_succ]
  refine (forInitial_numbered n _).andThen fun initial d ⟨hd, first⟩ => ?_
  refine (expressionUnless_within n d _).andThen fun condition e he => ?_
  refine (expressionUnless_within n _ _).andThen fun increment f hf => ?_
  refine (ih.statement _).andThen fun body g hg => .some ⟨⟨?_, ?_⟩, ?_⟩
  · rw [Cursor.nextId_expect] at hd hf
    have clauses := (hd.append he).append hf
    exact (clauses.append (f.nextId_expect .forEnd ▸ hg.within)).perm (Stmt.uses_forLoop_perm ..)
  · exact Stmt.plain_forLoop condition increment first hg.branch hg.plain
  · exact Stmt.isDeclaration_forLoop ..

theorem block_succ (ih : NumberedStatements n) (c : Cursor) :
    Ensures (Grammar.block (n + 1) c) (NumberedAll c) := by
  rw [Grammar.block_succ]
  exact (ih.declarations true _).andThen fun body d hd => .some ⟨by simpa using hd.within, hd.plain⟩

theorem declarations_succ (ih : NumberedStatements n) (nested : Bool) (c : Cursor) :
    Ensures (Grammar.declarations (n + 1) nested c) (NumberedAll c) := by
  rw [Grammar.declarations_succ]
  split
  · exact .some ⟨.nil (Nat.le_refl _), trivial⟩
  · refine (ih.declaration c).andThen fun stmt? d hd => ?_
    refine (ih.declarations nested d).andThen fun rest e he => .some ?_
    have both := hd.within.append he.within
    cases stmt? with
    | none => exact ⟨by simpa [Stmt.usesIn] using both, he.plain⟩
    | some stmt => exact ⟨by simpa [Stmt.usesIn] using both, hd.plain.1, he.plain⟩

end NumberedStatements

theorem numberedStatements : ∀ n, NumberedStatements n
  | 0 => ⟨fun _ => .none, fun _ => .none, fun _ => .none, fun _ => .none, fun _ => .none, fun _ => .none,
      fun _ => .none, fun _ => .none, fun _ _ => .none⟩
  | n + 1 =>
    have ih := numberedStatements n
    ⟨ih.declaration_succ, ih.anyDeclaration_succ, ih.functionDeclaration_succ, ih.statement_succ,
      ih.ifStatement_succ, ih.whileStatement_succ, ih.forStatement_succ, ih.block_succ, ih.declarations_succ⟩

theorem read_numbered (tokens : List Token) (nextId : UseId) :
    Within nextId (read tokens nextId).nextId (read tokens nextId).program.uses ∧
      Stmt.PlainIn (read tokens nextId).program := by
  obtain ⟨program, c, run, hread⟩ := read_run tokens nextId
  have numbered := (numberedStatements _).declarations _ _ _ _ run
  rw [hread]
  exact ⟨numbered.within, numbered.plain⟩

end Scriptlet.Grammar
