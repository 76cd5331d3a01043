import Scriptlet.Proofs.Grammar.Derivation
import Scriptlet.Proofs.Grammar.Trail

/-!
What is read without a fault is derived. The statements below look back from the end of a run: if nothing is wrong
there, nothing was wrong at any point before, every token that was expected was found, and the tokens in between spell
the tree that was built.
-/

namespace Scriptlet.Grammar

open Outcome

namespace Episode

mutual

def flawless : Episode → Bool
  | .fault .. => false
  | .declaration history kept => kept && flawlessIn history

def flawlessIn : List Episode → Bool
  | [] => true
  | episode :: rest => episode.flawless && flawlessIn rest

end

@[simp] theorem flawlessIn_append (before later : List Episode) :
    flawlessIn (before ++ later) = (flawlessIn before && flawlessIn later) := by
  induction before with
  | nil => simp [flawlessIn]
  | cons episode before ih => simp [flawlessIn, ih, Bool.and_assoc]

@[simp] theorem flawlessIn_reverse (history : List Episode) : flawlessIn history.reverse = flawlessIn history := by
  induction history with
  | nil => rfl
  | cons episode rest ih => simp [flawlessIn, ih, Bool.and_comm]

end Episode

open Episode

namespace Cursor

def Calm (c : Cursor) : Prop :=
  c.recovering = false ∧ flawlessIn c.history = true

/-- If all is well at the end, it was so at the start, and the tokens in between satisfy `P`. -/
def Reads (P : List Token → Prop) (c d : Cursor) : Prop :=
  d.Calm → c.Calm ∧ ∃ ts, c.rest = ts ++ d.rest ∧ P ts

def Single (kind : Token.Kind) (t : Token) (ts : List Token) : Prop :=
  t.kind = kind ∧ ts = [t]

inductive Joined (P Q : List Token → Prop) : List Token → Prop
  | intro {us vs : List Token} : P us → Q vs → Joined P Q (us ++ vs)

theorem kind_previous_advance {c : Cursor} {kind : Token.Kind} (seen : c.sees kind = true) :
    c.advance.previous.kind = kind := by
  obtain ⟨t, rest, hrest, hk⟩ := sees_iff.1 seen
  rw [advance_cons hrest]
  exact hk

theorem not_calm_report (c : Cursor) (t : Token) (fault : Fault) : ¬(c.report t fault).Calm := by
  simp [Calm, flawlessIn, flawless]

namespace Reads

variable {P Q : List Token → Prop} {c d e : Cursor}

theorem nil (h : P []) : Reads P c c :=
  fun calm => ⟨calm, [], rfl, h⟩

theorem andThen (h : Reads P c d) (k : Reads Q d e) : Reads (Joined P Q) c e := by
  intro calm
  obtain ⟨calm, vs, hv, qv⟩ := k calm
  obtain ⟨calm, us, hu, pu⟩ := h calm
  exact ⟨calm, us ++ vs, by rw [hu, hv, List.append_assoc], pu, qv⟩

theorem imp (h : Reads P c d) (k : ∀ ts, P ts → Q ts) : Reads Q c d := by
  intro calm
  obtain ⟨calm, ts, hts, pts⟩ := h calm
  exact ⟨calm, ts, hts, k ts pts⟩

theorem report (d : Cursor) (t : Token) (fault : Fault) : Reads P c (d.report t fault) :=
  fun calm => absurd calm (d.not_calm_report t fault)

theorem fresh (h : Reads P c d) (nextId : UseId) : Reads P c { d with nextId } := h

theorem accept {kind : Token.Kind} (seen : c.sees kind = true) :
    Reads (Single kind c.advance.previous) c c.advance := by
  obtain ⟨t, rest, hrest, hk⟩ := sees_iff.1 seen
  rw [advance_cons hrest]
  exact fun calm => ⟨calm, [t], hrest, hk, rfl⟩

theorem behind {kind : Token.Kind} (seen : c.sees kind = true)
    (h : Reads (fun ts => P (c.advance.previous :: ts)) c.advance d) : Reads P c d := by
  refine ((accept seen).andThen h).imp ?_
  rintro _ ⟨⟨-, rfl⟩, hts⟩
  exact hts

theorem expect (c : Cursor) (slot : Slot) :
    Reads (Single slot.kind (c.expect slot).previous) c (c.expect slot) := by
  cases seen : c.sees slot.kind with
  | true =>
    rw [expect_of_sees seen]
    exact accept seen
  | false =>
    rw [expect_of_not_sees seen]
    exact report c _ _

theorem limit (count : Nat) (fault : Fault) (c : Cursor) :
    Ensures (Reader.limit count fault c) fun _ d => Reads (fun ts => ts = [] ∧ count < maxArguments) c d := by
  unfold Reader.limit
  split
  · exact .some (report c _ _)
  · next few => exact .some (nil ⟨rfl, Nat.lt_of_not_le few⟩)

theorem conclude (h : Reads P { c with history := [] } d) : Reads P c (d.conclude c.history) := by
  intro ⟨_, flawless⟩
  simp only [history_conclude, flawlessIn, Episode.flawless, flawlessIn_reverse, Bool.and_eq_true,
    Bool.not_eq_true'] at flawless
  obtain ⟨⟨kept, inside⟩, outside⟩ := flawless
  obtain ⟨calm, ts, hts, pts⟩ := h ⟨kept, inside⟩
  rw [conclude_of_not_recovering kept]
  exact ⟨⟨calm.1, outside⟩, ts, hts, pts⟩

end Reads
end Cursor

open Cursor

namespace Soundness

structure Expressions (n : Nat) : Prop where
  expression : ∀ c, Ensures (expression n c) fun e d => Reads (Derives (.expression e)) c d
  operation : ∀ tiers c, Ensures (operation n tiers c) fun e d => Reads (Derives (.operation tiers e)) c d
  operationRest : ∀ tier tighter left c, Ensures (operationRest n tier tighter left c) fun e d =>
    Reads (fun ts => ∀ us, Derives (.operation (tier :: tighter) left) us →
      Derives (.operation (tier :: tighter) e) (us ++ ts)) c d
  unary : ∀ c, Ensures (unary n c) fun e d => Reads (Derives (.operation [] e)) c d
  suffixes : ∀ target c, Ensures (suffixes n target c) fun e d =>
    Reads (fun ts => ∀ us, Derives (.operand target) us → Derives (.operand e) (us ++ ts)) c d
  arguments : ∀ count c, Ensures (arguments n count c) fun es d =>
    Reads (fun ts => Derives (.series es) ts ∧ (count ≤ maxArguments → es.length + count ≤ maxArguments + 1)) c d
  primary : ∀ c, Ensures (primary n c) fun e d => Reads (Derives (.operand e)) c d

variable {n : Nat}

theorem expression_succ (ih : Expressions n) (c : Cursor) :
    Ensures (expression (n + 1) c) fun e d => Reads (Derives (.expression e)) c d := by
  rw [Grammar.expression_succ]
  refine (ih.operation _ c).andThen fun target d hd => ?_
  split
  · next seen =>
    refine (ih.expression d.advance).andThen fun value e he => ?_
    cases target with
    | read id name =>
      refine .some (Reads.fresh ((hd.andThen ((Reads.accept seen).andThen he)).imp ?_) _)
      rintro _ ⟨hu, ⟨⟨hk, rfl⟩, hv⟩⟩
      obtain ⟨hn, rfl⟩ := hu.eq_name (.inr ⟨_, rfl⟩)
      exact .assign hn hk hv
    | _ => exact .some (Reads.report e _ _)
  · exact .some (hd.imp fun _ => .expression)

theorem operation_succ (ih : Expressions n) (tiers : List Tier) (c : Cursor) :
    Ensures (operation (n + 1) tiers c) fun e d => Reads (Derives (.operation tiers e)) c d := by
  cases tiers with
  | nil => exact ih.unary c
  | cons tier tighter =>
    rw [operation_cons]
    refine (ih.operation tighter c).andThen fun left d hd => ?_
    refine (ih.operationRest tier tighter left d).imp fun e f hf => ?_
    refine (hd.andThen hf).imp ?_
    rintro _ ⟨hu, hv⟩
    exact hv _ (.tighter hu)

theorem accept_any {kinds : List Token.Kind} {c : Cursor} (h : kinds.any c.sees = true) :
    Reads (fun ts => c.advance.previous.kind ∈ kinds ∧ ts = [c.advance.previous]) c c.advance := by
  obtain ⟨kind, hk, seen⟩ := List.any_eq_true.1 h
  refine (Reads.accept seen).imp ?_
  rintro _ ⟨rfl, hts⟩
  exact ⟨hk, hts⟩

theorem operationRest_succ (ih : Expressions n) (tier : Tier) (tighter : List Tier) (left : Expr) (c : Cursor) :
    Ensures (operationRest (n + 1) tier tighter left c) fun e d =>
      Reads (fun ts => ∀ us, Derives (.operation (tier :: tighter) left) us →
        Derives (.operation (tier :: tighter) e) (us ++ ts)) c d := by
  rw [Grammar.operationRest_succ]
  split
  · next seen =>
    refine (ih.operation tighter c.advance).andThen fun right d hd => ?_
    refine (ih.operationRest tier tighter _ d).imp fun e f hf => ?_
    refine ((accept_any seen).andThen (hd.andThen hf)).imp ?_
    rintro _ ⟨⟨hk, rfl⟩, ⟨hr, hf⟩⟩ us hl
    simpa using hf _ (.binary hl hk hr)
  · refine .some (.nil fun us hl => ?_)
    simpa using hl

theorem unary_succ (ih : Expressions n) (c : Cursor) :
    Ensures (unary (n + 1) c) fun e d => Reads (Derives (.operation [] e)) c d := by
  rw [Grammar.unary_succ]
  split
  · next seen =>
    refine (ih.unary c.advance).andThen fun operand d hd => .some (((accept_any seen).andThen hd).imp ?_)
    rintro _ ⟨⟨hk, rfl⟩, hv⟩
    exact .unary (by simpa using hk) hv
  · refine (ih.primary c).andThen fun callee d hd => ?_
    refine (ih.suffixes callee d).imp fun e f hf => (hd.andThen hf).imp ?_
    rintro _ ⟨hu, hv⟩
    exact .operand (hv _ hu)

theorem suffixes_succ (ih : Expressions n) (target : Expr) (c : Cursor) :
    Ensures (suffixes (n + 1) target c) fun e d =>
      Reads (fun ts => ∀ us, Derives (.operand target) us → Derives (.operand e) (us ++ ts)) c d := by
  rw [Grammar.suffixes_succ]
  split
  · next seen =>
    have arguments : Ensures (if c.advance.sees .rightParen then some ([], c.advance) else arguments n 1 c.advance)
        fun es d => Reads (fun ts => Derives (.arguments es) ts ∧ es.length ≤ maxArguments) c.advance d := by
      split
      · exact .some (.nil ⟨.noArguments, by decide⟩)
      · refine (ih.arguments 1 c.advance).imp fun es d hd => hd.imp fun ts ⟨hts, few⟩ => ⟨.arguments hts, ?_⟩
        have := few (by decide)
        omega
    refine arguments.andThen fun es d hd => (ih.suffixes _ _).imp fun e f hf => ?_
    refine ((Reads.accept seen).andThen (hd.andThen ((Reads.expect d .argumentsEnd).andThen hf))).imp ?_
    rintro _ ⟨⟨opening, rfl⟩, ⟨⟨hes, few⟩, ⟨⟨closing, rfl⟩, hf⟩⟩⟩ us hu
    simpa using hf _ (.call hu opening hes few closing)
  split
  · next seen =>
    refine (ih.expression c.advance).andThen fun place d hd => (ih.suffixes _ _).imp fun e f hf => ?_
    refine ((Reads.accept seen).andThen (hd.andThen ((Reads.expect d .indexEnd).andThen hf))).imp ?_
    rintro _ ⟨⟨opening, rfl⟩, ⟨hp, ⟨⟨closing, rfl⟩, hf⟩⟩⟩ us hu
    simpa using hf _ (.index hu opening hp closing)
  · refine .some (.nil fun us hu => ?_)
    simpa using hu

theorem arguments_succ (ih : Expressions n) (count : Nat) (c : Cursor) :
    Ensures (arguments (n + 1) count c) fun es d =>
      Reads (fun ts => Derives (.series es) ts ∧ (count ≤ maxArguments → es.length + count ≤ maxArguments + 1))
        c d := by
  rw [Grammar.arguments_succ]
  refine (ih.expression c).andThen fun argument d hd => ?_
  split
  · next seen =>
    refine (Reads.limit count _ d.advance).andThen fun _ e he => ?_
    refine (ih.arguments (count + 1) e).andThen fun es f hf => .some ?_
    refine (hd.andThen ((Reads.accept seen).andThen (he.andThen hf))).imp ?_
    rintro _ ⟨hu, ⟨⟨comma, rfl⟩, ⟨⟨rfl, few⟩, ⟨hv, bound⟩⟩⟩⟩
    refine ⟨.next hu comma hv, fun _ => ?_⟩
    have := bound few
    simp only [List.length_cons]
    omega
  · refine .some (hd.imp fun ts hts => ⟨.last hts, fun few => ?_⟩)
    simp only [List.length_cons, List.length_nil]
    omega

theorem primary_succ (ih : Expressions n) (c : Cursor) :
    Ensures (primary (n + 1) c) fun e d => Reads (Derives (.operand e)) c d := by
  rw [Grammar.primary_succ]
  split
  · exact .some (Reads.report c _ _)
  · next t rest hrest =>
    have first : Reads (Single t.kind t) c c.advance := by
      rw [advance_cons hrest]
      exact fun calm => ⟨calm, [t], hrest, rfl, rfl⟩
    split
    · next hk =>
      refine .some (first.imp ?_)
      rintro _ ⟨-, rfl⟩
      exact .constant (Operand.ofToken_eq_constant hk)
    · next hk =>
      refine .some (Reads.fresh (first.imp ?_) _)
      rintro _ ⟨-, rfl⟩
      exact .read (Operand.ofToken_eq_variable.1 hk)
    · next hk =>
      refine (ih.expression c.advance).andThen fun inner d hd => .some ?_
      refine (first.andThen (hd.andThen (Reads.expect d .groupEnd))).imp ?_
      rintro _ ⟨⟨-, rfl⟩, ⟨he, ⟨closing, rfl⟩⟩⟩
      exact .group (Operand.ofToken_eq_group.1 hk) he closing
    · exact .some (Reads.report _ _ _)

theorem expressions : ∀ n, Expressions n
  | 0 => ⟨fun _ => .none, fun _ _ => .none, fun _ _ _ _ => .none, fun _ => .none, fun _ _ => .none,
      fun _ _ => .none, fun _ => .none⟩
  | n + 1 =>
    have ih := expressions n
    ⟨expression_succ ih, operation_succ ih, operationRest_succ ih, unary_succ ih, suffixes_succ ih,
      arguments_succ ih, primary_succ ih⟩

theorem expression (n : Nat) (c : Cursor) : Ensures (Grammar.expression n c) fun e d =>
    Reads (Derives (.expression e)) c d :=
  (expressions n).expression c

theorem expressionUnless (n : Nat) (closing : Token.Kind) (c : Cursor) :
    Ensures (expressionUnless n closing c) fun e? d => Reads (Derives (.clause e?)) c d := by
  rw [expressionUnless_run]
  split
  · exact .some (.nil .noClause)
  · exact (expression n c).andThen fun e d hd => .some (hd.imp fun _ => .clause)

theorem expressionStatement (n : Nat) (c : Cursor) :
    Ensures (expressionStatement n c) fun stmt d =>
      Reads (fun ts => ∃ e us close, stmt = .expression e ∧ Derives (.expression e) us ∧
        close.kind = .semicolon ∧ ts = us ++ [close]) c d := by
  rw [expressionStatement_run]
  refine (expression n c).andThen fun e d hd => .some ((hd.andThen (Reads.expect d .expressionEnd)).imp ?_)
  rintro _ ⟨hu, ⟨close, rfl⟩⟩
  exact ⟨e, _, _, rfl, hu, close, rfl⟩

theorem printStatement (n : Nat) (c : Cursor) (hk : c.previous.kind = .printWord) :
    Ensures (printStatement n c) fun stmt d =>
      Reads (fun ts => Derives (.statement false stmt) (c.previous :: ts)) c d := by
  rw [printStatement_run]
  refine (expression n c).andThen fun e d hd => .some ((hd.andThen (Reads.expect d .printEnd)).imp ?_)
  rintro _ ⟨hu, ⟨close, rfl⟩⟩
  exact .print hk hu close

theorem returnStatement (n : Nat) (c : Cursor) (hk : c.previous.kind = .returnWord) :
    Ensures (returnStatement n c) fun stmt d =>
      Reads (fun ts => Derives (.statement false stmt) (c.previous :: ts)) c d := by
  rw [returnStatement_run]
  refine (expressionUnless n _ c).andThen fun e? d hd => .some ((hd.andThen (Reads.expect d .returnEnd)).imp ?_)
  rintro _ ⟨hu, ⟨close, rfl⟩⟩
  exact .leave hk hu close

theorem variableDeclaration (n : Nat) (c : Cursor) (hk : c.previous.kind = .varWord) :
    Ensures (variableDeclaration n c) fun stmt d =>
      Reads (fun ts => Derives (.variable stmt) (c.previous :: ts)) c d := by
  rw [variableDeclaration_run]
  have initial : Ensures (if (c.expect .variableName).sees .assign then
        Outcome.andThen (Grammar.expression n (c.expect .variableName).advance) fun e d => some (some e, d)
      else some (none, c.expect .variableName)) fun e? d =>
      Reads (fun ts => e? = none ∧ ts = [] ∨ ∃ e equals us, e? = some e ∧ equals.kind = .assign ∧
        Derives (.expression e) us ∧ ts = equals :: us) (c.expect .variableName) d := by
    split
    · next seen =>
      refine (expression n _).andThen fun e d hd => .some (((Reads.accept seen).andThen hd).imp ?_)
      rintro _ ⟨⟨equals, rfl⟩, hu⟩
      exact .inr ⟨e, _, _, rfl, equals, hu, rfl⟩
    · exact .some (.nil (.inl ⟨rfl, rfl⟩))
  refine initial.andThen fun e? d hd => .some ?_
  refine ((Reads.expect c .variableName).andThen (hd.andThen (Reads.expect d .declarationEnd))).imp ?_
  rintro _ ⟨⟨name, rfl⟩, ⟨⟨rfl, rfl⟩ | ⟨e, _, _, rfl, equals, hu, rfl⟩, ⟨close, rfl⟩⟩⟩
  · exact .bare hk name close
  · exact .defined hk name equals hu close

theorem forInitial (n : Nat) (c : Cursor) :
    Ensures (forInitial n c) fun stmt? d => Reads (Derives (.initial stmt?)) c d := by
  rw [forInitial_run]
  split
  · next seen =>
    refine .some ((Reads.accept seen).imp ?_)
    rintro _ ⟨close, rfl⟩
    exact .noInitial close
  split
  · next seen =>
    refine (variableDeclaration n _ (kind_previous_advance seen)).andThen fun stmt d hd => .some ?_
    exact Reads.behind seen (hd.imp fun _ => .initialVariable)
  · refine (expressionStatement n c).andThen fun stmt d hd => .some (hd.imp ?_)
    rintro _ ⟨e, us, close, rfl, hu, hclose, rfl⟩
    exact .initialExpression hu hclose

theorem parameters (n count : Nat) (c : Cursor) :
    Ensures (parameters n count c) fun names d =>
      Reads (fun ts => Derives (.names names) ts ∧ names.length + count ≤ maxArguments) c d := by
  induction n generalizing count c with
  | zero => exact .none
  | succ n ih =>
    rw [parameters_succ]
    refine (Reads.limit count _ c).andThen fun _ d hd => ?_
    have name := Reads.expect d .parameterName
    split
    · next seen =>
      refine (ih (count + 1) _).andThen fun names e he => .some ?_
      refine (hd.andThen (name.andThen ((Reads.accept seen).andThen he))).imp ?_
      rintro _ ⟨⟨rfl, _⟩, ⟨⟨name, rfl⟩, ⟨⟨comma, rfl⟩, ⟨hu, few⟩⟩⟩⟩
      refine ⟨.nextName name comma hu, ?_⟩
      simp only [List.length_cons]
      omega
    · refine .some ((hd.andThen name).imp ?_)
      rintro _ ⟨⟨rfl, few⟩, ⟨name, rfl⟩⟩
      refine ⟨.lastName name, ?_⟩
      simp only [List.length_cons, List.length_nil]
      omega

/-- What may stand behind a statement: no `else` if that would belong to it. -/
def Follows (dangling : Bool) (d : Cursor) : Prop :=
  dangling = true → d.sees .elseWord = false

structure Statements (n : Nat) : Prop where
  declaration : ∀ c, Ensures (declaration n c) fun stmt? d =>
    Reads (fun ts => ∃ stmt, stmt? = some stmt ∧ Derives (.declaration stmt) ts) c d
  anyDeclaration : ∀ c, Ensures (anyDeclaration n c) fun stmt d => Reads (Derives (.declaration stmt)) c d
  functionDeclaration : ∀ c, c.previous.kind = .funWord → Ensures (functionDeclaration n c) fun stmt d =>
    Reads (fun ts => Derives (.declaration stmt) (c.previous :: ts)) c d
  statement : ∀ c, Ensures (statement n c) fun stmt d =>
    Reads (fun ts => ∃ dangling, Derives (.statement dangling stmt) ts ∧ Follows dangling d) c d
  ifStatement : ∀ c, c.previous.kind = .ifWord → Ensures (ifStatement n c) fun stmt d =>
    Reads (fun ts => ∃ dangling, Derives (.statement dangling stmt) (c.previous :: ts) ∧ Follows dangling d) c d
  whileStatement : ∀ c, c.previous.kind = .whileWord → Ensures (whileStatement n c) fun stmt d =>
    Reads (fun ts => ∃ dangling, Derives (.statement dangling stmt) (c.previous :: ts) ∧ Follows dangling d) c d
  forStatement : ∀ c, c.previous.kind = .forWord → Ensures (forStatement n c) fun stmt d =>
    Reads (fun ts => ∃ dangling, Derives (.statement dangling stmt) (c.previous :: ts) ∧ Follows dangling d) c d
  block : ∀ c, Ensures (block n c) fun body d =>
    Reads (fun ts => ∃ us close, Derives (.declarations body) us ∧ close.kind = .rightBrace ∧ ts = us ++ [close]) c d
  declarations : ∀ nested c, Ensures (declarations n nested c) fun program d =>
    Reads (Derives (.declarations program)) c d

theorem declaration_succ (ih : Statements n) (c : Cursor) :
    Ensures (declaration (n + 1) c) fun stmt? d =>
      Reads (fun ts => ∃ stmt, stmt? = some stmt ∧ Derives (.declaration stmt) ts) c d := by
  rw [Grammar.declaration_succ]
  refine (ih.anyDeclaration _).andThen fun stmt d hd => .some ?_
  cases recovering : d.recovering with
  | true =>
    intro ⟨_, flawless⟩
    simp [flawlessIn, Episode.flawless, recovering] at flawless
  | false => exact (Reads.conclude hd).imp fun ts hts => ⟨stmt, rfl, hts⟩

theorem anyDeclaration_succ (ih : Statements n) (c : Cursor) :
    Ensures (anyDeclaration (n + 1) c) fun stmt d => Reads (Derives (.declaration stmt)) c d := by
  rw [Grammar.anyDeclaration_succ]
  split
  · next seen =>
    refine (variableDeclaration n _ (kind_previous_advance seen)).imp fun stmt d hd => ?_
    exact Reads.behind seen (hd.imp fun _ => .declare)
  split
  · next seen =>
    exact (ih.functionDeclaration _ (kind_previous_advance seen)).imp fun stmt d hd => Reads.behind seen hd
  · refine (ih.statement c).imp fun stmt d hd => hd.imp ?_
    rintro _ ⟨dangling, hu, -⟩
    exact .statement hu

theorem functionDeclaration_succ (ih : Statements n) (c : Cursor) (hk : c.previous.kind = .funWord) :
    Ensures (functionDeclaration (n + 1) c) fun stmt d =>
      Reads (fun ts => Derives (.declaration stmt) (c.previous :: ts)) c d := by
  rw [Grammar.functionDeclaration_succ]
  have name := Reads.expect c .functionName
  have opening := Reads.expect (c.expect .functionName) .parametersStart
  generalize (c.expect .functionName).expect .parametersStart = d at opening
  have names : Ensures (if d.sees .rightParen then some ([], d) else Grammar.parameters n 0 d) fun names e =>
      Reads (fun ts => Derives (.parameters names) ts ∧ names.length ≤ maxArguments) d e := by
    split
    · exact .some (.nil ⟨.noParameters, by decide⟩)
    · exact (parameters n 0 d).imp fun names e he => he.imp fun ts hts => ⟨.parameters hts.1, hts.2⟩
  refine names.andThen fun names e he => (ih.block _).andThen fun body f hf => .some ?_
  have closing := Reads.expect e .parametersEnd
  have left := Reads.expect (e.expect .parametersEnd) .bodyStart
  refine (name.andThen (opening.andThen (he.andThen (closing.andThen (left.andThen hf))))).imp ?_
  rintro _ ⟨⟨name, rfl⟩, ⟨⟨opening, rfl⟩, ⟨⟨hu, few⟩, ⟨⟨closing, rfl⟩, ⟨⟨left, rfl⟩, ⟨vs, _, hv, right, rfl⟩⟩⟩⟩⟩⟩
  simpa using Derives.function hk name opening hu few closing left hv right

theorem statement_succ (ih : Statements n) (c : Cursor) :
    Ensures (statement (n + 1) c) fun stmt d =>
      Reads (fun ts => ∃ dangling, Derives (.statement dangling stmt) ts ∧ Follows dangling d) c d := by
  have closed {d : Cursor} : Follows false d := by simp [Follows]
  rw [Grammar.statement_succ]
  split
  · next seen =>
    refine (printStatement n _ (kind_previous_advance seen)).imp fun stmt d hd => Reads.behind seen (hd.imp ?_)
    exact fun ts hts => ⟨false, hts, closed⟩
  split
  · next seen =>
    refine (returnStatement n _ (kind_previous_advance seen)).imp fun stmt d hd => Reads.behind seen (hd.imp ?_)
    exact fun ts hts => ⟨false, hts, closed⟩
  split
  · next seen => exact (ih.ifStatement _ (kind_previous_advance seen)).imp fun stmt d hd => Reads.behind seen hd
  split
  · next seen => exact (ih.whileStatement _ (kind_previous_advance seen)).imp fun stmt d hd => Reads.behind seen hd
  split
  · next seen => exact (ih.forStatement _ (kind_previous_advance seen)).imp fun stmt d hd => Reads.behind seen hd
  split
  · next seen =>
    refine (ih.block _).andThen fun body d hd => .some (Reads.behind seen (hd.imp ?_))
    rintro _ ⟨us, _, hu, right, rfl⟩
    exact ⟨false, .block (kind_previous_advance seen) hu right, closed⟩
  · refine (expressionStatement n c).imp fun stmt d hd => hd.imp ?_
    rintro _ ⟨e, us, close, rfl, hu, hclose, rfl⟩
    exact ⟨false, .evaluate hu hclose, closed⟩

theorem ifStatement_succ (ih : Statements n) (c : Cursor) (hk : c.previous.kind = .ifWord) :
    Ensures (ifStatement (n + 1) c) fun stmt d => Reads (fun ts => ∃ dangling,
      Derives (.statement dangling stmt) (c.previous :: ts) ∧ Follows dangling d) c d := by
  rw [Grammar.ifStatement_succ]
  refine (expression n _).andThen fun condition d hd => (ih.statement _).andThen fun yes e he => ?_
  have test := (Reads.expect c .ifStart).andThen (hd.andThen ((Reads.expect d .ifEnd).andThen he))
  split
  · next seen =>
    refine (ih.statement _).andThen fun no f hf => .some ((test.andThen ((Reads.accept seen).andThen hf)).imp ?_)
    rintro _ ⟨⟨⟨opening, rfl⟩, ⟨hu, ⟨⟨closing, rfl⟩, ⟨_ | _, hv, follows⟩⟩⟩⟩, ⟨⟨other, rfl⟩, ⟨dangling, hw, after⟩⟩⟩
    · exact ⟨dangling, by simpa using Derives.ifElse hk opening hu closing hv other hw, after⟩
    · rw [follows rfl] at seen
      cases seen
  · next unseen =>
    refine .some (test.imp ?_)
    rintro _ ⟨⟨opening, rfl⟩, ⟨hu, ⟨⟨closing, rfl⟩, ⟨dangling, hv, -⟩⟩⟩⟩
    exact ⟨true, by simpa using Derives.ifThen hk opening hu closing hv, fun _ => by simpa using unseen⟩

theorem whileStatement_succ (ih : Statements n) (c : Cursor) (hk : c.previous.kind = .whileWord) :
    Ensures (whileStatement (n + 1) c) fun stmt d => Reads (fun ts => ∃ dangling,
      Derives (.statement dangling stmt) (c.previous :: ts) ∧ Follows dangling d) c d := by
  rw [Grammar.whileStatement_succ]
  refine (expression n _).andThen fun condition d hd => (ih.statement _).andThen fun body e he => .some ?_
  refine ((Reads.expect c .whileStart).andThen (hd.andThen ((Reads.expect d .whileEnd).andThen he))).imp ?_
  rintro _ ⟨⟨opening, rfl⟩, ⟨hu, ⟨⟨closing, rfl⟩, ⟨dangling, hv, after⟩⟩⟩⟩
  exact ⟨dangling, by simpa using Derives.loop hk opening hu closing hv, after⟩

theorem forStatement_succ (ih : Statements n) (c : Cursor) (hk : c.previous.kind = .forWord) :
    Ensures (forStatement (n + 1) c) fun stmt d => Reads (fun ts => ∃ dangling,
      Derives (.statement dangling stmt) (c.previous :: ts) ∧ Follows dangling d) c d := by
  rw [Grammar.forStatement_succ]
  refine (forInitial n _).andThen fun initial d hd => (expressionUnless n _ d).andThen fun condition e he => ?_
  refine (expressionUnless n _ _).andThen fun increment f hf => (ih.statement _).andThen fun body g hg => .some ?_
  have clauses := hd.andThen (he.andThen ((Reads.expect e .forCondition).andThen hf))
  refine ((Reads.expect c .forStart).andThen (clauses.andThen ((Reads.expect f .forEnd).andThen hg))).imp ?_
  rintro _ ⟨⟨opening, rfl⟩, ⟨⟨hi, ⟨hc, ⟨⟨close, rfl⟩, hs⟩⟩⟩, ⟨⟨closing, rfl⟩, ⟨dangling, hb, after⟩⟩⟩⟩
  exact ⟨dangling, by simpa using Derives.forLoop hk opening hi hc close hs closing hb, after⟩

theorem block_succ (ih : Statements n) (c : Cursor) :
    Ensures (block (n + 1) c) fun body d => Reads (fun ts => ∃ us close,
      Derives (.declarations body) us ∧ close.kind = .rightBrace ∧ ts = us ++ [close]) c d := by
  rw [Grammar.block_succ]
  refine (ih.declarations true _).andThen fun body d hd => .some ?_
  -- The depth matters to nothing but a recovery.
  have left : Reads (Derives (.declarations body)) c { d with depth := d.depth - 1 } := hd
  refine (left.andThen (Reads.expect _ .blockEnd)).imp ?_
  rintro _ ⟨hu, ⟨right, rfl⟩⟩
  exact ⟨_, _, hu, right, rfl⟩

theorem declarations_succ (ih : Statements n) (nested : Bool) (c : Cursor) :
    Ensures (declarations (n + 1) nested c) fun program d => Reads (Derives (.declarations program)) c d := by
  rw [Grammar.declarations_succ]
  split
  · exact .some (.nil .done)
  · refine (ih.declaration c).andThen fun stmt? d hd => (ih.declarations nested d).andThen fun program e he => ?_
    refine .some ((hd.andThen he).imp ?_)
    rintro _ ⟨⟨stmt, rfl, hu⟩, hv⟩
    exact .more hu hv

theorem statements : ∀ n, Statements n
  | 0 => ⟨fun _ => .none, fun _ => .none, fun _ _ => .none, fun _ => .none, fun _ _ => .none, fun _ _ => .none,
      fun _ _ => .none, fun _ => .none, fun _ _ => .none⟩
  | n + 1 =>
    have ih := statements n
    ⟨declaration_succ ih, anyDeclaration_succ ih, functionDeclaration_succ ih, statement_succ ih,
      ifStatement_succ ih, whileStatement_succ ih, forStatement_succ ih, block_succ ih, declarations_succ ih⟩

end Soundness
end Scriptlet.Grammar
