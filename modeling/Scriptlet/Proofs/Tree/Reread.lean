import Scriptlet.Proofs.Tree.Rendering

namespace Scriptlet

open Token

namespace Rendering

section Statement

/-- A statement is read back from its text, unless an `else` behind it would be taken for its own. -/
def ReadsStmt (stmt : Stmt) : Prop :=
  ∀ n more, stmt.render.toList.length ≤ n → (stmt.dangles = true → after? " else " more = none) →
    stmt? n (stmt.render.toList ++ more) = some (stmt.view Token.unplaced, more)

variable {e : Expr} {n : Nat}

theorem between?_eq (read : ReadsExpr e) (enough : e.render.toList.length ≤ n) (before behind : String)
    {more : List Char} (ends : Ends (behind.toList ++ more)) :
    between? n before behind (before.toList ++ (e.render.toList ++ (behind.toList ++ more))) =
      some (e.view Token.unplaced, more) := by
  simp [between?, after?_append, read n _ enough ends]

theorem ends_sign (sign : String) (stops : (sign.toList.head?.any fun c => !Text.isWordPart c && c != '.') = true)
    (more : List Char) : Ends (sign.toList ++ more) := by
  cases found : sign.toList with
  | nil => simp [found] at stops
  | cons c rest => exact ends_cons (by simpa [found] using stops) _

def clauseText (before : String) (value : Option Expr) : List Char :=
  value.elim ";".toList fun e => before.toList ++ (e.render.toList ++ ";".toList)

theorem clause?_eq {value : Option Expr} (read : ∀ e ∈ value, ReadsExpr e) (before : String)
    (enough : (clauseText before value).length ≤ n) (apart : ∀ rest, after? ";" (before.toList ++ rest) = none)
    (more : List Char) :
    clause? n before (clauseText before value ++ more) = some (value.map (Expr.view Token.unplaced), more) := by
  cases value with
  | none =>
    rw [clauseText, Option.elim_none, clause?, after?_append]
    rfl
  | some e =>
    rw [clauseText, Option.elim_some, List.length_append, List.length_append] at enough
    rw [clauseText, Option.elim_some, List.append_assoc, List.append_assoc, clause?, apart,
      between?_eq (read e rfl) (by omega) before ";" (ends_sign ";" (by decide) more)]
    rfl

def nameTexts (names : List Token) : List Char :=
  (", ".intercalate (names.map Token.lexeme)).toList

theorem nameTexts_singleton (name : Token) : nameTexts [name] = name.lexeme.toList := by
  simp [nameTexts]

theorem nameTexts_cons (name name' : Token) (names : List Token) :
    nameTexts (name :: name' :: names) = name.lexeme.toList ++ (", ".toList ++ nameTexts (name' :: names)) := by
  simp only [nameTexts, List.map_cons, String.intercalate_cons_cons, String.toList_append, List.append_assoc]

theorem names?_eq {name : Token} {names : List Token} (valid : ∀ t ∈ name :: names, t.IsName)
    (enough : (nameTexts (name :: names)).length < n) (more : List Char) :
    names? n (nameTexts (name :: names) ++ ')' :: more) = some ((name :: names).map Token.unplaced, more) := by
  induction names generalizing n name with
  | nil =>
    obtain ⟨n, rfl⟩ := Nat.exists_eq_succ_of_ne_zero (Nat.ne_zero_of_lt enough)
    have last : after? ", " (')' :: more) = none := rfl
    have closed : after? ")" (')' :: more) = some more := after?_append ")" more
    rw [nameTexts_singleton, names?, token?_name (valid name List.mem_cons_self) (ends_cons (by decide) more)]
    simp only [Option.bind_eq_bind, Option.bind_some, last, closed]
    rfl
  | cons name' names ih =>
    obtain ⟨n, rfl⟩ := Nat.exists_eq_succ_of_ne_zero (Nat.ne_zero_of_lt enough)
    obtain ⟨first, others⟩ := List.forall_mem_cons.1 valid
    have comma : ", ".toList.length = 2 := rfl
    rw [nameTexts_cons, List.length_append, List.length_append, comma] at enough
    rw [nameTexts_cons, List.append_assoc, List.append_assoc, names?, token?_name first (ends_sign ", " (by decide) _)]
    simp only [Option.bind_eq_bind, Option.bind_some, after?_append, ih others (n := n) (by omega)]
    rfl

theorem parameters?_eq {names : List Token} (valid : ∀ t ∈ names, t.IsName) (enough : (nameTexts names).length < n)
    (more : List Char) :
    parameters? n (nameTexts names ++ ')' :: more) = some (names.map Token.unplaced, more) := by
  cases names with
  | nil =>
    have closed : after? ")" (nameTexts [] ++ ')' :: more) = some more := after?_append ")" more
    rw [parameters?, closed]
    rfl
  | cons name names =>
    have named := valid name List.mem_cons_self
    have opens : kind? (nameTexts (name :: names) ++ ')' :: more) = some .identifier := by
      cases names with
      | nil =>
        rw [nameTexts_singleton]
        exact kind?_name named (ends_cons (by decide) more)
      | cons name' names =>
        rw [nameTexts_cons, List.append_assoc, List.append_assoc]
        exact kind?_name named (ends_sign ", " (by decide) _)
    rw [parameters?, after?_eq_none ")" (some .rightParen) (fun _ => rfl) opens (by decide), names?_eq valid enough]

def Opens (text : List Char) : Prop :=
  ∃ kind, kind? text = some kind ∧ kind ≠ .elseWord ∧ kind ≠ .rightBrace

theorem Opens.apart {text : List Char} (h : Opens text) :
    after? " else " (' ' :: text) = none ∧ after? " \x7d" (' ' :: text) = none ∧
      after? "  \x7d" (' ' :: text) = none := by
  obtain ⟨kind, opens, noElse, noBrace⟩ := h
  refine ⟨?_, ?_, ?_⟩
  · have signs (more : List Char) : kind? ("else ".toList ++ more) = some .elseWord :=
      kind?_keyword "else" .elseWord (by decide) (ends_sign " " (by decide) more)
    exact after?_eq_none "else " (some .elseWord) signs opens (by simpa using noElse.symm)
  · exact after?_eq_none "\x7d" (some .rightBrace) (fun _ => rfl) opens (by simpa using noBrace.symm)
  · exact after?_eq_none " \x7d" none (fun _ => rfl) opens (by simp)

def stmtTexts (stmts : List Stmt) : List Char :=
  stmts.flatMap fun stmt => ' ' :: stmt.render.toList

theorem stmtTexts_cons (stmt : Stmt) (stmts : List Stmt) :
    stmtTexts (stmt :: stmts) = ' ' :: (stmt.render.toList ++ stmtTexts stmts) := by
  simp [stmtTexts]

theorem toList_renderEach (stmt : Stmt) (stmts : List Stmt) :
    ' ' :: (" ".intercalate (Stmt.renderEach (stmt :: stmts))).toList = stmtTexts (stmt :: stmts) := by
  induction stmts generalizing stmt with
  | nil => simp [Stmt.renderEach, stmtTexts]
  | cons stmt' stmts ih =>
    have next := ih stmt'
    rw [Stmt.renderEach] at next
    rw [Stmt.renderEach, Stmt.renderEach, String.intercalate_cons_cons, String.toList_append, String.toList_append,
      stmtTexts_cons, ← next, List.append_assoc]
    rfl

def bodyText (body : List Stmt) : List Char :=
  ' ' :: ((" ".intercalate (Stmt.renderEach body)).toList ++ " \x7d".toList)

theorem stmts?_eq {stmts : List Stmt}
    (each : ∀ stmt ∈ stmts, ReadsStmt stmt ∧ ∀ more, Opens (stmt.render.toList ++ more))
    (enough : (stmtTexts stmts).length < n) (more : List Char) :
    stmts? n (stmtTexts stmts ++ (" \x7d".toList ++ more)) = some (stmts.map (Stmt.view Token.unplaced), more) := by
  induction stmts generalizing n with
  | nil =>
    obtain ⟨n, rfl⟩ := Nat.exists_eq_succ_of_ne_zero (Nat.ne_zero_of_lt enough)
    rw [stmtTexts, List.flatMap_nil, List.nil_append, stmts?, after?_append]
    rfl
  | cons stmt stmts ih =>
    obtain ⟨n, rfl⟩ := Nat.exists_eq_succ_of_ne_zero (Nat.ne_zero_of_lt enough)
    obtain ⟨⟨reads, opens⟩, others⟩ := List.forall_mem_cons.1 each
    rw [stmtTexts_cons, List.length_cons, List.length_append] at enough
    have noElse : after? " else " (stmtTexts stmts ++ (" \x7d".toList ++ more)) = none := by
      cases stmts with
      | nil => rfl
      | cons stmt' stmts =>
        rw [stmtTexts_cons, List.cons_append, List.append_assoc]
        exact ((List.forall_mem_cons.1 others).1.2 _).apart.1
    rw [stmtTexts_cons, List.cons_append, List.append_assoc, stmts?, (opens _).apart.2.1, after?_blank]
    simp only [Option.bind_eq_bind, Option.bind_some, reads n _ (Nat.le_of_lt_succ (by omega)) fun _ => noElse,
      ih others (n := n) (by omega)]
    rfl

theorem body?_eq {body : List Stmt}
    (each : ∀ stmt ∈ body, ReadsStmt stmt ∧ ∀ more, Opens (stmt.render.toList ++ more))
    (enough : (bodyText body).length ≤ n) (more : List Char) :
    body? n (bodyText body ++ more) = some (body.map (Stmt.view Token.unplaced), more) := by
  obtain ⟨n, rfl⟩ : ∃ k, n = k + 1 := ⟨n - 1, by simp [bodyText] at enough; omega⟩
  cases body with
  | nil =>
    have none : after? "  \x7d" (bodyText [] ++ more) = some more := after?_append "  \x7d" more
    rw [body?, none]
    rfl
  | cons stmt body =>
    have text : bodyText (stmt :: body) = stmtTexts (stmt :: body) ++ " \x7d".toList := by
      rw [← toList_renderEach]
      rfl
    have signs : " \x7d".toList.length = 2 := rfl
    rw [text, List.length_append, signs] at enough
    have opens := (List.forall_mem_cons.1 each).1.2
    have some : after? "  \x7d" (stmtTexts (stmt :: body) ++ (" \x7d".toList ++ more)) = none := by
      rw [stmtTexts_cons, List.cons_append, List.append_assoc]
      exact (opens _).apart.2.2
    rw [text, List.append_assoc, body?, some]
    exact stmts?_eq each (by omega) more

def starts : List Kind :=
  .leftParen :: .identifier :: literals

theorem exists_start {e : Expr} (h : e.Spelled) {more : List Char} (ends : Ends more) :
    ∃ t rest, token? (e.render.toList ++ more) = some (t, rest) ∧ t.kind ∈ starts := by
  cases e with
  | constant value =>
    obtain ⟨t, read, kind, -⟩ := exists_literal h
    exact ⟨t, more, read more ends, .tail _ (.tail _ kind)⟩
  | read id name => exact ⟨_, more, token?_name h ends, by simp [starts, Token.unplaced, show name.kind = _ from h.1]⟩
  | _ =>
    simp only [Expr.render, String.toList_append, List.append_assoc]
    exact ⟨_, _, token?_paren _, List.mem_cons_self⟩

theorem readsStmt_of_succ {stmt : Stmt} (nonempty : stmt.render.toList ≠ [])
    (reads : ∀ n more, stmt.render.toList.length ≤ n + 1 → (stmt.dangles = true → after? " else " more = none) →
      stmt? (n + 1) (stmt.render.toList ++ more) = some (stmt.view Token.unplaced, more)) : ReadsStmt stmt := by
  intro n more enough
  cases n with
  | zero => exact absurd (List.length_eq_zero_iff.1 (Nat.le_zero.1 enough)) nonempty
  | succ n => exact reads n more enough

section Text

variable (more : List Char)

attribute [local simp] Stmt.render

theorem toList_expression (e : Expr) :
    (Stmt.expression e).render.toList ++ more = e.render.toList ++ (";".toList ++ more) := by
  simp

theorem toList_print (e : Expr) :
    (Stmt.print e).render.toList ++ more =
      "print".toList ++ (" ".toList ++ (e.render.toList ++ (";".toList ++ more))) := by
  simp

theorem toList_declare (name : Token) (initial : Option Expr) :
    (Stmt.declare name initial).render.toList ++ more =
      "var".toList ++ (" ".toList ++ (name.lexeme.toList ++ (clauseText " = " initial ++ more))) := by
  cases initial <;> simp [clauseText]

theorem toList_block (body : List Stmt) :
    (Stmt.block body).render.toList ++ more = '{' :: (bodyText body ++ more) := by
  simp [bodyText]

theorem toList_ifThen (condition : Expr) (yes : Stmt) :
    (Stmt.ifThen condition yes).render.toList ++ more =
      "if".toList ++ (" (".toList ++ (condition.render.toList ++ (") ".toList ++ (yes.render.toList ++ more)))) := by
  simp

theorem toList_ifElse (condition : Expr) (yes no : Stmt) :
    (Stmt.ifElse condition yes no).render.toList ++ more =
      "if".toList ++ (" (".toList ++ (condition.render.toList ++ (") ".toList ++
        (yes.render.toList ++ (" else ".toList ++ (no.render.toList ++ more)))))) := by
  simp

theorem toList_loop (condition : Expr) (body : Stmt) :
    (Stmt.loop condition body).render.toList ++ more =
      "while".toList ++ (" (".toList ++ (condition.render.toList ++ (") ".toList ++ (body.render.toList ++ more)))) := by
  simp

theorem toList_function (name : Token) (names : List Token) (body : List Stmt) :
    (Stmt.function name names body).render.toList ++ more =
      "fun".toList ++ (" ".toList ++ (name.lexeme.toList ++ ("(".toList ++ (nameTexts names ++
        (')' :: (" \x7b".toList ++ (bodyText body ++ more))))))) := by
  simp [nameTexts, bodyText]

theorem toList_leave (word : Token) (value : Option Expr) :
    (Stmt.leave word value).render.toList ++ more = "return".toList ++ (clauseText " " value ++ more) := by
  cases value <;> simp [clauseText]

end Text

theorem readsStmt_expression {e : Expr} (h : e.Spelled) : ReadsStmt (.expression e) := by
  refine readsStmt_of_succ (by simp [Stmt.render]) fun n more enough _ => ?_
  obtain ⟨t, rest, read, kind⟩ := exists_start h (ends_sign ";" (by decide) more)
  have between := between?_eq (readsExpr e h) (n := n) (by simp [Stmt.render] at enough ⊢; omega) "" ";"
    (ends_sign ";" (by decide) more)
  rw [String.toList_empty, List.nil_append] at between
  rw [toList_expression, stmt?, read]
  obtain ⟨kind, _, _, _⟩ := t
  simp only [starts, literals, List.mem_cons, List.not_mem_nil, or_false] at kind
  obtain rfl | rfl | rfl | rfl | rfl | rfl | rfl := kind <;>
    simp only [Option.bind_eq_bind, Option.bind_some, between, Stmt.view, Stmt.map, Option.pure_def]

theorem readsStmt_print {e : Expr} (h : e.Spelled) : ReadsStmt (.print e) := by
  refine readsStmt_of_succ (by simp [Stmt.render]) fun n more enough _ => ?_
  have word := token?_keyword "print" .printWord (by decide)
    (ends_sign " " (by decide) (e.render.toList ++ (";".toList ++ more)))
  have between := between?_eq (readsExpr e h) (n := n) (by simp [Stmt.render] at enough ⊢; omega) " " ";"
    (ends_sign ";" (by decide) more)
  rw [toList_print, stmt?, word]
  exact congrArg (Option.bind · _) between

theorem ends_clauseText (before : String) (ends : ∀ rest, Ends (before.toList ++ rest)) (value : Option Expr)
    (more : List Char) : Ends (clauseText before value ++ more) := by
  cases value with
  | none => exact ends_sign ";" (by decide) more
  | some e =>
    rw [clauseText, Option.elim_some, List.append_assoc]
    exact ends _

theorem readsStmt_declare {name : Token} {initial : Option Expr} (named : name.IsName) (h : ∀ e ∈ initial, e.Spelled) :
    ReadsStmt (.declare name initial) := by
  refine readsStmt_of_succ (by cases initial <;> simp [Stmt.render]) fun n more enough _ => ?_
  have word (rest : List Char) := token?_keyword "var" .varWord (by decide) (ends_sign " " (by decide) rest)
  have clause := clause?_eq (fun e mem => readsExpr e (h e mem)) (n := n) " = "
    (by cases initial <;> simp [Stmt.render, clauseText] at enough ⊢ <;> omega) (fun _ => rfl) more
  have ends := ends_clauseText " = " (ends_sign " = " (by decide)) initial more
  rw [toList_declare, stmt?, word]
  simp only [Option.bind_eq_bind, Option.bind_some, after?_append, token?_name named ends, clause]
  rfl

theorem readsStmt_leave {word : Token} {value : Option Expr} (same : word.unplaced = keyword)
    (h : ∀ e ∈ value, e.Spelled) : ReadsStmt (.leave word value) := by
  refine readsStmt_of_succ (by cases value <;> simp [Stmt.render]) fun n more enough _ => ?_
  have ends := ends_clauseText " " (ends_sign " " (by decide)) value more
  have word := token?_keyword "return" .returnWord (by decide) ends
  have clause := clause?_eq (fun e mem => readsExpr e (h e mem)) (n := n) " "
    (by cases value <;> simp [Stmt.render, clauseText] at enough ⊢ <;> omega) (fun _ => rfl) more
  rw [toList_leave, stmt?, word, Stmt.view, Stmt.map, same]
  exact congrArg (Option.bind · _) clause

theorem readsStmt_block {body : List Stmt}
    (each : ∀ stmt ∈ body, ReadsStmt stmt ∧ ∀ more, Opens (stmt.render.toList ++ more)) :
    ReadsStmt (.block body) := by
  refine readsStmt_of_succ (by simp [Stmt.render]) fun n more enough _ => ?_
  have inner := body?_eq each (n := n) (by simp [Stmt.render, bodyText] at enough ⊢; omega) more
  rw [toList_block, stmt?, token?_brace, Stmt.view, Stmt.map, Stmt.mapIn_eq_map]
  exact congrArg (Option.bind · _) inner

section Condition

variable {condition : Expr} (h : condition.Spelled)

include h

theorem between?_condition (enough : condition.render.toList.length ≤ n) (more : List Char) :
    between? n " (" ") " (" (".toList ++ (condition.render.toList ++ (") ".toList ++ more))) =
      some (condition.view Token.unplaced, more) :=
  between?_eq (readsExpr condition h) enough " (" ") " (ends_sign ") " (by decide) more)

theorem readsStmt_ifThen {yes : Stmt} (first : ReadsStmt yes) : ReadsStmt (.ifThen condition yes) := by
  refine readsStmt_of_succ (by simp [Stmt.render]) fun n more enough noElse => ?_
  have word (rest : List Char) := token?_keyword "if" .ifWord (by decide) (ends_sign " (" (by decide) rest)
  have between := between?_condition h (n := n) (by simp [Stmt.render] at enough ⊢; omega)
  have yes := first n more (by simp [Stmt.render] at enough ⊢; omega) fun _ => noElse rfl
  rw [toList_ifThen, stmt?, word]
  simp only [Option.bind_eq_bind, Option.bind_some, between, yes, noElse rfl]
  rfl

theorem readsStmt_ifElse {yes no : Stmt} (first : ReadsStmt yes) (settled : yes.dangles = false) (second : ReadsStmt no) :
    ReadsStmt (.ifElse condition yes no) := by
  refine readsStmt_of_succ (by simp [Stmt.render]) fun n more enough noElse => ?_
  have word (rest : List Char) := token?_keyword "if" .ifWord (by decide) (ends_sign " (" (by decide) rest)
  have between := between?_condition h (n := n) (by simp [Stmt.render] at enough ⊢; omega)
  have yes (rest : List Char) := first n rest (by simp [Stmt.render] at enough ⊢; omega) fun dangles => by
    rw [settled] at dangles
    cases dangles
  have no := second n more (by simp [Stmt.render] at enough ⊢; omega) noElse
  rw [toList_ifElse, stmt?, word]
  simp only [Option.bind_eq_bind, Option.bind_some, between, yes, after?_append, no]
  rfl

theorem readsStmt_loop {body : Stmt} (inner : ReadsStmt body) : ReadsStmt (.loop condition body) := by
  refine readsStmt_of_succ (by simp [Stmt.render]) fun n more enough noElse => ?_
  have word (rest : List Char) := token?_keyword "while" .whileWord (by decide) (ends_sign " (" (by decide) rest)
  have between := between?_condition h (n := n) (by simp [Stmt.render] at enough ⊢; omega)
  have body := inner n more (by simp [Stmt.render] at enough ⊢; omega) noElse
  rw [toList_loop, stmt?, word]
  simp only [Option.bind_eq_bind, Option.bind_some, between, body]
  rfl

end Condition

theorem readsStmt_function {name : Token} {names : List Token} {body : List Stmt} (named : name.IsName)
    (valid : ∀ t ∈ names, t.IsName)
    (each : ∀ stmt ∈ body, ReadsStmt stmt ∧ ∀ more, Opens (stmt.render.toList ++ more)) :
    ReadsStmt (.function name names body) := by
  refine readsStmt_of_succ (by simp [Stmt.render]) fun n more enough _ => ?_
  have word (rest : List Char) := token?_keyword "fun" .funWord (by decide) (ends_sign " " (by decide) rest)
  have ends := ends_sign "(" (by decide)
  have parameters := parameters?_eq valid (n := n) (by simp [Stmt.render, nameTexts] at enough ⊢; omega)
  have inner := body?_eq each (n := n) (by simp [Stmt.render, bodyText] at enough ⊢; omega) more
  rw [toList_function, stmt?, word, Stmt.view, Stmt.map, Stmt.mapIn_eq_map]
  simp only [Option.bind_eq_bind, Option.bind_some, after?_append, token?_name named (ends _), parameters, inner]
  rfl

theorem opens_keyword (word : String) (kind : Kind) (listed : (word, kind) ∈ keywords)
    (other : kind ≠ .elseWord ∧ kind ≠ .rightBrace) {text : List Char} (ends : Ends text) :
    Opens (word.toList ++ text) :=
  ⟨kind, kind?_keyword word kind listed ends, other⟩

theorem opens_stmt {stmt : Stmt} (h : stmt.Spelled) (more : List Char) : Opens (stmt.render.toList ++ more) := by
  cases stmt with
  | expression e =>
    obtain ⟨t, rest, read, kind⟩ := exists_start h (ends_sign ";" (by decide) more)
    have others : ∀ kind ∈ starts, kind ≠ .elseWord ∧ kind ≠ .rightBrace := by decide
    rw [toList_expression]
    exact ⟨t.kind, by rw [kind?, read]; rfl, others _ kind⟩
  | print e =>
    rw [toList_print]
    exact opens_keyword "print" .printWord (by decide) (by decide) (ends_sign " " (by decide) _)
  | declare name initial =>
    rw [toList_declare]
    exact opens_keyword "var" .varWord (by decide) (by decide) (ends_sign " " (by decide) _)
  | block body =>
    rw [toList_block]
    exact ⟨.leftBrace, by rw [kind?, token?_brace]; rfl, by decide⟩
  | ifThen condition yes =>
    rw [toList_ifThen]
    exact opens_keyword "if" .ifWord (by decide) (by decide) (ends_sign " (" (by decide) _)
  | ifElse condition yes no =>
    rw [toList_ifElse]
    exact opens_keyword "if" .ifWord (by decide) (by decide) (ends_sign " (" (by decide) _)
  | loop condition body =>
    rw [toList_loop]
    exact opens_keyword "while" .whileWord (by decide) (by decide) (ends_sign " (" (by decide) _)
  | function name names body =>
    rw [toList_function]
    exact opens_keyword "fun" .funWord (by decide) (by decide) (ends_sign " " (by decide) _)
  | leave word value =>
    rw [toList_leave]
    exact opens_keyword "return" .returnWord (by decide) (by decide)
      (ends_clauseText " " (ends_sign " " (by decide)) value more)

mutual

theorem readsStmt (stmt : Stmt) (h : stmt.Spelled) : ReadsStmt stmt := by
  match stmt with
  | .expression e => exact readsStmt_expression h
  | .print e => exact readsStmt_print h
  | .declare name initial => exact readsStmt_declare h.1 h.2
  | .block body => exact readsStmt_block (readsStmts body h)
  | .ifThen condition yes => exact readsStmt_ifThen h.1 (readsStmt yes h.2)
  | .ifElse condition yes no => exact readsStmt_ifElse h.1 (readsStmt yes h.2.1) h.2.2.1 (readsStmt no h.2.2.2)
  | .loop condition body => exact readsStmt_loop h.1 (readsStmt body h.2)
  | .function name parameters body => exact readsStmt_function h.1 h.2.1 (readsStmts body h.2.2)
  | .leave word value => exact readsStmt_leave h.1 h.2

theorem readsStmts (stmts : List Stmt) (h : Stmt.SpelledIn stmts) :
    ∀ stmt ∈ stmts, ReadsStmt stmt ∧ ∀ more, Opens (stmt.render.toList ++ more) := by
  match stmts with
  | [] => simp
  | stmt :: rest => exact List.forall_mem_cons.2 ⟨⟨readsStmt stmt h.1, opens_stmt h.1⟩, readsStmts rest h.2⟩

end

end Statement

end Rendering

theorem Stmt.view_eq_of_render_eq {stmt stmt' : Stmt} (h : stmt.Spelled) (h' : stmt'.Spelled)
    (same : stmt.render = stmt'.render) : stmt.view Token.unplaced = stmt'.view Token.unplaced := by
  have ends : Rendering.after? " else " [] = none := rfl
  have first := Rendering.readsStmt stmt h _ [] le_rfl fun _ => ends
  have second := Rendering.readsStmt stmt' h' _ [] le_rfl fun _ => ends
  rw [same, second] at first
  exact (Prod.mk.inj (Option.some.inj first)).1.symm

theorem Program.view_eq_of_render_eq {program program' : Program} (h : Stmt.SpelledIn program)
    (h' : Stmt.SpelledIn program') (same : program.render = program'.render) :
    program.map (Stmt.view Token.unplaced) = program'.map (Stmt.view Token.unplaced) := by
  induction program generalizing program' with
  | nil =>
    cases program' with
    | nil => rfl
    | cons => cases same
  | cons stmt rest ih =>
    cases program' with
    | nil => cases same
    | cons stmt' rest' =>
      obtain ⟨first, others⟩ := List.cons.inj same
      rw [List.map_cons, List.map_cons, Stmt.view_eq_of_render_eq h.1 h'.1 first, ih h.2 h'.2 others]

end Scriptlet
