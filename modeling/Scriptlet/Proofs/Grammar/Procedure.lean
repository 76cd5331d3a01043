import Scriptlet.Proofs.Grammar.Cursor

namespace Scriptlet.Grammar

abbrev Outcome (α : Type) := Option (α × Cursor)

namespace Outcome

variable {α β : Type}

def andThen (o : Outcome α) (f : α → Cursor → Outcome β) : Outcome β :=
  o.bind fun x => f x.1 x.2

@[simp] theorem none_andThen (f : α → Cursor → Outcome β) : andThen none f = none := rfl

@[simp] theorem some_andThen (a : α) (c : Cursor) (f : α → Cursor → Outcome β) :
    andThen (some (a, c)) f = f a c := rfl

theorem andThen_assoc {γ : Type} (o : Outcome α) (f : α → Cursor → Outcome β) (g : β → Cursor → Outcome γ) :
    (o.andThen f).andThen g = o.andThen fun a c => (f a c).andThen g :=
  Option.bind_assoc ..

theorem andThen_eq_some {o : Outcome α} {f : α → Cursor → Outcome β} {x : β × Cursor} :
    o.andThen f = some x ↔ ∃ a c, o = some (a, c) ∧ f a c = some x := by
  simp only [andThen, Option.bind_eq_some_iff, Prod.exists]

def Ensures (o : Outcome α) (Q : α → Cursor → Prop) : Prop :=
  ∀ a c, o = some (a, c) → Q a c

def Succeeds (o : Outcome α) (Q : α → Cursor → Prop) : Prop :=
  ∃ a c, o = some (a, c) ∧ Q a c

variable {o : Outcome α} {f : α → Cursor → Outcome β} {P : α → Cursor → Prop} {Q : β → Cursor → Prop}

theorem Ensures.none {P : α → Cursor → Prop} : Ensures none P := by
  intro a c h
  cases h

theorem Ensures.some {P : α → Cursor → Prop} {a : α} {c : Cursor} (h : P a c) : Ensures (some (a, c)) P := by
  rintro _ _ ⟨⟩
  exact h

theorem Ensures.andThen (h : Ensures o P) (k : ∀ a c, P a c → Ensures (f a c) Q) : Ensures (o.andThen f) Q := by
  intro b d hb
  obtain ⟨a, c, ha, hb⟩ := andThen_eq_some.1 hb
  exact k a c (h a c ha) b d hb

theorem Ensures.imp {P' : α → Cursor → Prop} (h : Ensures o P) (k : ∀ a c, P a c → P' a c) : Ensures o P' :=
  fun a c ha => k a c (h a c ha)

theorem Succeeds.some {P : α → Cursor → Prop} {a : α} {c : Cursor} (h : P a c) : Succeeds (some (a, c)) P :=
  ⟨a, c, rfl, h⟩

theorem Succeeds.andThen (h : Succeeds o P) (k : ∀ a c, P a c → Succeeds (f a c) Q) : Succeeds (o.andThen f) Q := by
  obtain ⟨a, c, rfl, ha⟩ := h
  exact k a c ha

theorem Succeeds.imp {P' : α → Cursor → Prop} (h : Succeeds o P) (k : ∀ a c, P a c → P' a c) : Succeeds o P' := by
  obtain ⟨a, c, ha, hP⟩ := h
  exact ⟨a, c, ha, k a c hP⟩

end Outcome

open Outcome

namespace Reader

variable {α β : Type}

theorem bind_run (r : Reader Cursor α) (f : α → Reader Cursor β) (c : Cursor) :
    (r >>= f) c = Outcome.andThen (r c) fun a d => f a d := rfl

theorem pure_run (a : α) (c : Cursor) : (pure a : Reader Cursor α) c = some (a, c) := rfl

theorem map_run (f : α → β) (r : Reader Cursor α) (c : Cursor) :
    (f <$> r) c = Outcome.andThen (r c) fun a d => some (f a, d) := by
  change (r c).bind _ = _
  cases r c <;> rfl

theorem expect_run (slot : Slot) (f : Unit → Reader Cursor β) (c : Cursor) :
    (expect slot >>= f) c = f () (c.expect slot) := rfl

theorem atEnd_run (f : Bool → Reader Cursor β) (c : Cursor) : (atEnd >>= f) c = f c.atEnd c := rfl

theorem current_run (f : Token → Reader Cursor β) (c : Cursor) : (current >>= f) c = f c.current c := rfl

theorem advance_run (f : Unit → Reader Cursor β) (c : Cursor) : (advance >>= f) c = f () c.advance := rfl

theorem previous_run (f : Token → Reader Cursor β) (c : Cursor) : (previous >>= f) c = f c.previous c := rfl

theorem begin_run (f : List Episode → Reader Cursor β) (c : Cursor) :
    (begin >>= f) c = f c.history { c with history := [] } := rfl

theorem conclude_run (before : List Episode) (f : Bool → Reader Cursor β) (c : Cursor) :
    (conclude before >>= f) c = f (!c.recovering) (c.conclude before) := rfl

theorem accept_run (kind : Token.Kind) (f : Bool → Reader Cursor β) (c : Cursor) :
    (accept kind >>= f) c = if c.sees kind then f true c.advance else f false c := by
  change andThen (some (if c.sees kind then (true, c.advance) else (false, c))) (fun a d => f a d) = _
  split <;> rfl

theorem acceptAny_run (kinds : List Token.Kind) (f : Bool → Reader Cursor β) (c : Cursor) :
    (acceptAny kinds >>= f) c = if kinds.any c.sees then f true c.advance else f false c := by
  change andThen (some (if kinds.any c.sees then (true, c.advance) else (false, c))) (fun a d => f a d) = _
  split <;> rfl

theorem unlessSees_run (closing : Token.Kind) (absent : α) (r : Reader Cursor α) (c : Cursor) :
    unlessSees closing absent r c = if c.sees closing then some (absent, c) else r c := by
  change (if c.sees closing = true then pure absent else r) c = _
  split <;> rfl

theorem ifAccepted_run (opening : Token.Kind) (absent : α) (r : Reader Cursor α) (c : Cursor) :
    ifAccepted opening absent r c = if c.sees opening then r c.advance else some (absent, c) := by
  rw [ifAccepted, accept_run]
  rfl

end Reader

open Reader

section Expressions

variable (n : Nat) (c : Cursor)

theorem expression_succ :
    expression (n + 1) c = andThen (operation n Tier.all c) fun target d =>
      if d.sees .assign then
        andThen (expression n d.advance) fun value e =>
          match target with
          | .read _ name => some (.assign e.nextId name value, { e with nextId := e.nextId + 1 })
          | other => some (other, e.report d.advance.previous .invalidTarget)
      else some (target, d) := by
  rw [expression, bind_run]
  congr
  funext target d
  rw [accept_run]
  cases target <;> rfl

theorem operation_cons (tier : Tier) (tighter : List Tier) :
    operation (n + 1) (tier :: tighter) c =
      andThen (operation n tighter c) fun left d => operationRest n tier tighter left d := rfl

theorem operationRest_succ (tier : Tier) (tighter : List Tier) (left : Expr) :
    operationRest (n + 1) tier tighter left c =
      if tier.operators.any c.sees then
        andThen (operation n tighter c.advance) fun right d =>
          operationRest n tier tighter (tier.node c.advance.previous left right) d
      else some (left, c) := by
  rw [operationRest, acceptAny_run]
  rfl

theorem unary_succ :
    unary (n + 1) c =
      if [.minus, .not].any c.sees then
        andThen (unary n c.advance) fun operand d => some (.unary c.advance.previous operand, d)
      else andThen (primary n c) fun callee d => suffixes n callee d := by
  rw [unary, acceptAny_run]
  rfl

theorem suffixes_succ (target : Expr) :
    suffixes (n + 1) target c =
      if c.sees .leftParen then
        andThen (if c.advance.sees .rightParen then some ([], c.advance) else arguments n 1 c.advance)
          fun arguments d =>
            suffixes n (.call target (d.expect .argumentsEnd).previous arguments) (d.expect .argumentsEnd)
      else if c.sees .leftSquare then
        andThen (expression n c.advance) fun place d =>
          suffixes n (.index target c.advance.previous place) (d.expect .indexEnd)
      else some (target, c) := by
  rw [suffixes, accept_run]
  simp only [if_true, Bool.false_eq_true, if_false, accept_run, ← unlessSees_run]
  rfl

theorem arguments_succ (count : Nat) :
    arguments (n + 1) count c = andThen (expression n c) fun argument d =>
      if d.sees .comma then
        andThen (limit count .tooManyArguments d.advance) fun _ e =>
          andThen (arguments n (count + 1) e) fun rest f => some (argument :: rest, f)
      else some ([argument], d) := by
  rw [arguments, bind_run]
  congr
  funext argument d
  rw [accept_run]
  rfl

theorem primary_succ :
    primary (n + 1) c =
      match c.rest with
      | [] => some (placeholder, c.report c.current .missingExpression)
      | t :: _ =>
        match Operand.ofToken t with
        | .constant value => some (.constant value, c.advance)
        | .variable => some (.read c.advance.nextId t, { c.advance with nextId := c.advance.nextId + 1 })
        | .group => andThen (expression n c.advance) fun inner d => some (.group inner, d.expect .groupEnd)
        | .unknown fault => some (placeholder, c.advance.report t fault) := by
  rw [primary, atEnd_run]
  cases left : c.rest with
  | nil =>
    rw [if_pos ((c.atEnd_iff).2 left)]
    rfl
  | cons t rest =>
    rw [if_neg (by simp [left]), current_run, advance_run, Cursor.current_cons left]
    dsimp only
    cases Operand.ofToken t <;> rfl

end Expressions

section Statements

variable (n : Nat) (c : Cursor)

theorem expressionUnless_run (closing : Token.Kind) :
    expressionUnless n closing c =
      if c.sees closing then some (none, c) else andThen (expression n c) fun e d => some (some e, d) := by
  rw [expressionUnless, unlessSees_run, map_run]

theorem expressionStatement_run :
    expressionStatement n c =
      andThen (expression n c) fun value d => some (.expression value, d.expect .expressionEnd) := rfl

theorem printStatement_run :
    printStatement n c = andThen (expression n c) fun value d => some (.print value, d.expect .printEnd) := rfl

theorem returnStatement_run :
    returnStatement n c =
      andThen (expressionUnless n .semicolon c) fun value d =>
        some (.leave c.previous value, d.expect .returnEnd) := rfl

theorem variableDeclaration_run :
    variableDeclaration n c =
      andThen (if (c.expect .variableName).sees .assign then
          andThen (expression n (c.expect .variableName).advance) fun e d => some (some e, d)
        else some (none, c.expect .variableName)) fun initial d =>
        some (.declare (c.expect .variableName).previous initial, d.expect .declarationEnd) := by
  simp only [← map_run, ← ifAccepted_run]
  rfl

theorem forInitial_run :
    forInitial n c =
      if c.sees .semicolon then some (none, c.advance)
      else if c.sees .varWord then andThen (variableDeclaration n c.advance) fun stmt d => some (some stmt, d)
      else andThen (expressionStatement n c) fun stmt d => some (some stmt, d) := by
  simp only [forInitial, accept_run, map_run, if_true, Bool.false_eq_true, if_false]
  rfl

theorem parameters_succ (count : Nat) :
    parameters (n + 1) count c = andThen (limit count .tooManyParameters c) fun _ d =>
      if (d.expect .parameterName).sees .comma then
        andThen (parameters n (count + 1) (d.expect .parameterName).advance) fun rest e =>
          some ((d.expect .parameterName).previous :: rest, e)
      else some ([(d.expect .parameterName).previous], d.expect .parameterName) := by
  rw [parameters, bind_run]
  congr
  funext _ d
  rw [expect_run, previous_run, accept_run]
  rfl

theorem declaration_succ :
    declaration (n + 1) c = andThen (anyDeclaration n { c with history := [] }) fun stmt d =>
      some (if d.recovering then none else some stmt, d.conclude c.history) := by
  rw [declaration, begin_run, bind_run]
  congr
  funext stmt d
  rw [conclude_run]
  cases d.recovering <;> rfl

theorem anyDeclaration_succ :
    anyDeclaration (n + 1) c =
      if c.sees .varWord then variableDeclaration n c.advance
      else if c.sees .funWord then functionDeclaration n c.advance
      else statement n c := by
  simp only [anyDeclaration, accept_run, if_true, Bool.false_eq_true, if_false]

theorem functionDeclaration_succ :
    functionDeclaration (n + 1) c =
      let d := (c.expect .functionName).expect .parametersStart
      andThen (if d.sees .rightParen then some ([], d) else parameters n 0 d) fun parameters e =>
        andThen (block n ((e.expect .parametersEnd).expect .bodyStart)) fun body f =>
          some (.function (c.expect .functionName).previous parameters body, f) := by
  simp only [← unlessSees_run]
  rfl

theorem statement_succ :
    statement (n + 1) c =
      if c.sees .printWord then printStatement n c.advance
      else if c.sees .returnWord then returnStatement n c.advance
      else if c.sees .ifWord then ifStatement n c.advance
      else if c.sees .whileWord then whileStatement n c.advance
      else if c.sees .forWord then forStatement n c.advance
      else if c.sees .leftBrace then andThen (block n c.advance) fun body d => some (.block body, d)
      else expressionStatement n c := by
  simp only [statement, accept_run, if_true, Bool.false_eq_true, if_false]
  rfl

theorem ifStatement_succ :
    ifStatement (n + 1) c = andThen (expression n (c.expect .ifStart)) fun condition d =>
      andThen (statement n (d.expect .ifEnd)) fun yes e =>
        if e.sees .elseWord then
          andThen (statement n e.advance) fun no f => some (.ifElse condition yes no, f)
        else some (.ifThen condition yes, e) := by
  rw [ifStatement, expect_run, bind_run]
  congr
  funext condition d
  rw [expect_run, bind_run]
  congr
  funext yes e
  rw [accept_run]
  rfl

theorem whileStatement_succ :
    whileStatement (n + 1) c = andThen (expression n (c.expect .whileStart)) fun condition d =>
      andThen (statement n (d.expect .whileEnd)) fun body e => some (.loop condition body, e) := rfl

theorem forStatement_succ :
    forStatement (n + 1) c = andThen (forInitial n (c.expect .forStart)) fun initial d =>
      andThen (expressionUnless n .semicolon d) fun condition e =>
        andThen (expressionUnless n .rightParen (e.expect .forCondition)) fun increment f =>
          andThen (statement n (f.expect .forEnd)) fun body g =>
            some (.forLoop initial condition increment body, g) := rfl

theorem block_succ :
    block (n + 1) c = andThen (declarations n true { c with depth := c.depth + 1 }) fun body d =>
      some (body, ({ d with depth := d.depth - 1 } : Cursor).expect .blockEnd) := rfl

theorem declarations_succ (nested : Bool) :
    declarations (n + 1) nested c =
      if c.atEnd || (nested && c.sees .rightBrace) then some ([], c)
      else andThen (declaration n c) fun stmt? d =>
        andThen (declarations n nested d) fun rest e => some (stmt?.toList ++ rest, e) := by
  change (if (c.atEnd || (nested && c.sees .rightBrace)) = true then pure [] else _ : Reader Cursor _) c = _
  split
  · rfl
  · rw [bind_run]
    congr
    funext stmt? d
    cases stmt? with
    | none =>
      change declarations n nested d = _
      cases declarations n nested d <;> rfl
    | some stmt => rfl

end Statements

end Scriptlet.Grammar
