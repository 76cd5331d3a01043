import Mathlib.Data.List.Forall2
import Scriptlet.Tree.Use
import Scriptlet.Proofs.Tree.Map

namespace Scriptlet

mutual

def Expr.tokens : Expr → List Token
  | .constant _ => []
  | .read _ name => [name]
  | .assign _ name value => name :: value.tokens
  | .binary operator left right | .logical operator left right => operator :: (left.tokens ++ right.tokens)
  | .unary operator operand => operator :: operand.tokens
  | .group inner => inner.tokens
  | .call callee paren arguments => callee.tokens ++ paren :: tokensIn arguments
  | .index target bracket place => target.tokens ++ bracket :: place.tokens

def Expr.tokensIn : List Expr → List Token
  | [] => []
  | e :: rest => e.tokens ++ tokensIn rest

end

mutual

def Stmt.tokens : Stmt → List Token
  | .expression e | .print e => e.tokens
  | .declare name initial => name :: (initial.map Expr.tokens).getD []
  | .block body => tokensIn body
  | .ifThen condition yes => condition.tokens ++ yes.tokens
  | .ifElse condition yes no => condition.tokens ++ yes.tokens ++ no.tokens
  | .loop condition body => condition.tokens ++ body.tokens
  | .function name parameters body => name :: (parameters ++ tokensIn body)
  | .leave keyword value => keyword :: (value.map Expr.tokens).getD []

def Stmt.tokensIn : List Stmt → List Token
  | [] => []
  | stmt :: rest => stmt.tokens ++ tokensIn rest

end

mutual

def Stmt.functions : Stmt → List Stmt
  | .function name parameters body => .function name parameters body :: functionsIn body
  | .block body => functionsIn body
  | .ifThen _ yes => yes.functions
  | .ifElse _ yes no => yes.functions ++ no.functions
  | .loop _ body => body.functions
  | .expression _ | .print _ | .declare .. | .leave .. => []

def Stmt.functionsIn : List Stmt → List Stmt
  | [] => []
  | stmt :: rest => stmt.functions ++ functionsIn rest

end

mutual

theorem Stmt.functions_eq_nil (stmt : Stmt) : stmt.functions = [] ↔ stmt.declaresFunction = false := by
  match stmt with
  | .function .. => simp [functions, declaresFunction]
  | .block body => simpa [functions, declaresFunction] using functionsIn_eq_nil body
  | .ifThen _ yes => simpa [functions, declaresFunction] using functions_eq_nil yes
  | .ifElse _ yes no => simp [functions, declaresFunction, functions_eq_nil yes, functions_eq_nil no]
  | .loop _ body => simpa [functions, declaresFunction] using functions_eq_nil body
  | .expression _ | .print _ | .declare .. | .leave .. => simp [functions, declaresFunction]

theorem Stmt.functionsIn_eq_nil (stmts : List Stmt) :
    Stmt.functionsIn stmts = [] ↔ Stmt.declaresFunctionIn stmts = false := by
  match stmts with
  | [] => simp [functionsIn, declaresFunctionIn]
  | stmt :: rest => simp [functionsIn, declaresFunctionIn, functions_eq_nil stmt, functionsIn_eq_nil rest]

end

mutual

theorem Stmt.uses_of_mem_functions {g : Stmt} (stmt : Stmt) (mem : g ∈ stmt.functions) : g.uses ⊆ stmt.uses := by
  match stmt with
  | .function name parameters body =>
    rcases List.mem_cons.1 mem with rfl | mem
    · exact List.Subset.refl _
    · exact uses_of_mem_functionsIn body mem
  | .block body => exact uses_of_mem_functionsIn body mem
  | .ifThen condition yes => exact List.subset_append_of_subset_right _ (uses_of_mem_functions yes mem)
  | .ifElse condition yes no =>
    rcases List.mem_append.1 mem with mem | mem
    · exact List.subset_append_of_subset_left _
        (List.subset_append_of_subset_right _ (uses_of_mem_functions yes mem))
    · exact List.subset_append_of_subset_right _ (uses_of_mem_functions no mem)
  | .loop condition body => exact List.subset_append_of_subset_right _ (uses_of_mem_functions body mem)
  | .expression _ | .print _ | .declare .. | .leave .. => cases mem

theorem Stmt.uses_of_mem_functionsIn {g : Stmt} (stmts : List Stmt) (mem : g ∈ Stmt.functionsIn stmts) :
    g.uses ⊆ Stmt.usesIn stmts := by
  match stmts with
  | [] => cases mem
  | stmt :: rest =>
    rcases List.mem_append.1 mem with mem | mem
    · exact List.subset_append_of_subset_left _ (uses_of_mem_functions stmt mem)
    · exact List.subset_append_of_subset_right _ (uses_of_mem_functionsIn rest mem)

end

mutual

theorem Expr.name_mem_tokens {u : Use} (e : Expr) (used : u ∈ e.uses) : u.name ∈ e.tokens := by
  match e with
  | .constant _ => cases used
  | .read id name =>
    rw [Expr.uses, List.mem_singleton] at used
    simp [Expr.tokens, used]
  | .assign id name value =>
    rw [Expr.uses, List.mem_append, List.mem_singleton] at used
    rcases used with used | used
    · exact .tail _ (value.name_mem_tokens used)
    · simp [Expr.tokens, used]
  | .binary _ left right | .logical _ left right =>
    rw [Expr.uses, List.mem_append] at used
    have := used.imp left.name_mem_tokens right.name_mem_tokens
    simp [Expr.tokens, this]
  | .unary _ operand => exact .tail _ (operand.name_mem_tokens used)
  | .group inner => exact inner.name_mem_tokens used
  | .call callee _ arguments =>
    rw [Expr.uses, List.mem_append] at used
    have := used.imp callee.name_mem_tokens (nameIn_mem_tokens arguments)
    simp only [Expr.tokens, List.mem_append, List.mem_cons]
    tauto
  | .index target _ place =>
    rw [Expr.uses, List.mem_append] at used
    have := used.imp target.name_mem_tokens place.name_mem_tokens
    simp only [Expr.tokens, List.mem_append, List.mem_cons]
    tauto

theorem Expr.nameIn_mem_tokens {u : Use} (es : List Expr) (used : u ∈ Expr.usesIn es) : u.name ∈ Expr.tokensIn es := by
  match es with
  | [] => cases used
  | e :: rest =>
    rw [Expr.usesIn, List.mem_append] at used
    exact List.mem_append.2 (used.imp e.name_mem_tokens (nameIn_mem_tokens rest))

end

theorem Expr.name?_mem_tokens {u : Use} (e : Option Expr) (used : u ∈ (e.map Expr.uses).getD []) :
    u.name ∈ (e.map Expr.tokens).getD [] := by
  cases e with
  | none => cases used
  | some e => exact e.name_mem_tokens used

mutual

theorem Stmt.name_mem_tokens {u : Use} (stmt : Stmt) (used : u ∈ stmt.uses) : u.name ∈ stmt.tokens := by
  match stmt with
  | .expression e | .print e => exact e.name_mem_tokens used
  | .declare _ value | .leave _ value => exact .tail _ (Expr.name?_mem_tokens value used)
  | .block body => exact nameIn_mem_tokens body used
  | .ifThen condition yes =>
    rw [Stmt.uses, List.mem_append] at used
    exact List.mem_append.2 (used.imp condition.name_mem_tokens yes.name_mem_tokens)
  | .ifElse condition yes no =>
    rw [Stmt.uses, List.mem_append, List.mem_append] at used
    simp only [Stmt.tokens, List.mem_append]
    exact used.imp (Or.imp condition.name_mem_tokens yes.name_mem_tokens) no.name_mem_tokens
  | .loop condition body =>
    rw [Stmt.uses, List.mem_append] at used
    exact List.mem_append.2 (used.imp condition.name_mem_tokens body.name_mem_tokens)
  | .function _ _ body => exact .tail _ (List.mem_append_right _ (nameIn_mem_tokens body used))

theorem Stmt.nameIn_mem_tokens {u : Use} (stmts : List Stmt) (used : u ∈ Stmt.usesIn stmts) :
    u.name ∈ Stmt.tokensIn stmts := by
  match stmts with
  | [] => cases used
  | stmt :: rest =>
    rw [Stmt.usesIn, List.mem_append] at used
    exact List.mem_append.2 (used.imp stmt.name_mem_tokens (nameIn_mem_tokens rest))

end

section Map

variable (f : Token → Token) (g : UseId → UseId)

def Use.map (u : Use) : Use :=
  ⟨g u.id, f u.name, u.assigns⟩

mutual

theorem Expr.uses_map (e : Expr) : (e.map f g).uses = e.uses.map (Use.map f g) := by
  match e with
  | .constant _ | .read .. => rfl
  | .assign id name value => simp [Expr.map, Expr.uses, value.uses_map, Use.map]
  | .binary _ left right | .logical _ left right => simp [Expr.map, Expr.uses, left.uses_map, right.uses_map]
  | .unary _ operand => simp [Expr.map, Expr.uses, operand.uses_map]
  | .group inner => simp [Expr.map, Expr.uses, inner.uses_map]
  | .call callee _ arguments => simpa [Expr.map, Expr.uses, callee.uses_map] using usesIn_map arguments
  | .index target _ place => simp [Expr.map, Expr.uses, target.uses_map, place.uses_map]

theorem Expr.usesIn_map (es : List Expr) :
    Expr.usesIn (es.map (Expr.map f g)) = (Expr.usesIn es).map (Use.map f g) := by
  match es with
  | [] => rfl
  | e :: rest => simp [Expr.usesIn, e.uses_map, usesIn_map rest]

end

theorem Expr.uses?_map (e : Option Expr) :
    ((e.map (Expr.map f g)).map Expr.uses).getD [] = ((e.map Expr.uses).getD []).map (Use.map f g) := by
  cases e with
  | none => rfl
  | some e => exact e.uses_map f g

mutual

theorem Stmt.uses_map (stmt : Stmt) : (stmt.map f g).uses = stmt.uses.map (Use.map f g) := by
  match stmt with
  | .expression e | .print e => exact e.uses_map f g
  | .declare _ value | .leave _ value => exact Expr.uses?_map f g value
  | .block body => simpa [Stmt.map, Stmt.uses] using usesIn_map body
  | .ifThen condition yes => simp [Stmt.map, Stmt.uses, condition.uses_map, yes.uses_map]
  | .ifElse condition yes no => simp [Stmt.map, Stmt.uses, condition.uses_map, yes.uses_map, no.uses_map]
  | .loop condition body => simp [Stmt.map, Stmt.uses, condition.uses_map, body.uses_map]
  | .function _ _ body => simpa [Stmt.map, Stmt.uses] using usesIn_map body

theorem Stmt.usesIn_map (stmts : List Stmt) :
    Stmt.usesIn (stmts.map (Stmt.map f g)) = (Stmt.usesIn stmts).map (Use.map f g) := by
  match stmts with
  | [] => rfl
  | stmt :: rest => simp [Stmt.usesIn, stmt.uses_map, usesIn_map rest]

end

mutual

theorem Expr.tokens_map (e : Expr) : (e.map f g).tokens = e.tokens.map f := by
  match e with
  | .constant _ | .read .. => rfl
  | .assign _ _ value => simp [Expr.map, Expr.tokens, value.tokens_map]
  | .binary _ left right | .logical _ left right => simp [Expr.map, Expr.tokens, left.tokens_map, right.tokens_map]
  | .unary _ operand => simp [Expr.map, Expr.tokens, operand.tokens_map]
  | .group inner => simp [Expr.map, Expr.tokens, inner.tokens_map]
  | .call callee _ arguments => simpa [Expr.map, Expr.tokens, callee.tokens_map] using tokensIn_map arguments
  | .index target _ place => simp [Expr.map, Expr.tokens, target.tokens_map, place.tokens_map]

theorem Expr.tokensIn_map (es : List Expr) : Expr.tokensIn (es.map (Expr.map f g)) = (Expr.tokensIn es).map f := by
  match es with
  | [] => rfl
  | e :: rest => simp [Expr.tokensIn, e.tokens_map, tokensIn_map rest]

end

theorem Expr.tokens?_map (e : Option Expr) :
    ((e.map (Expr.map f g)).map Expr.tokens).getD [] = ((e.map Expr.tokens).getD []).map f := by
  cases e with
  | none => rfl
  | some e => exact e.tokens_map f g

mutual

theorem Stmt.tokens_map (stmt : Stmt) : (stmt.map f g).tokens = stmt.tokens.map f := by
  match stmt with
  | .expression e | .print e => exact e.tokens_map f g
  | .declare _ value | .leave _ value => exact congrArg (f _ :: ·) (Expr.tokens?_map f g value)
  | .block body => simpa [Stmt.map, Stmt.tokens] using tokensIn_map body
  | .ifThen condition yes => simp [Stmt.map, Stmt.tokens, condition.tokens_map, yes.tokens_map]
  | .ifElse condition yes no => simp [Stmt.map, Stmt.tokens, condition.tokens_map, yes.tokens_map, no.tokens_map]
  | .loop condition body => simp [Stmt.map, Stmt.tokens, condition.tokens_map, body.tokens_map]
  | .function _ _ body => simpa [Stmt.map, Stmt.tokens] using tokensIn_map body

theorem Stmt.tokensIn_map (stmts : List Stmt) :
    Stmt.tokensIn (stmts.map (Stmt.map f g)) = (Stmt.tokensIn stmts).map f := by
  match stmts with
  | [] => rfl
  | stmt :: rest => simp [Stmt.tokensIn, stmt.tokens_map, tokensIn_map rest]

end

mutual

theorem Stmt.functions_map (stmt : Stmt) : (stmt.map f g).functions = stmt.functions.map (Stmt.map f g) := by
  match stmt with
  | .function name parameters body => simpa [Stmt.map, functions] using functionsIn_map body
  | .block body => simpa [Stmt.map, functions] using functionsIn_map body
  | .ifThen _ yes => simpa [Stmt.map, functions] using functions_map yes
  | .ifElse _ yes no => simp [Stmt.map, functions, functions_map yes, functions_map no]
  | .loop _ body => simpa [Stmt.map, functions] using functions_map body
  | .expression _ | .print _ | .declare .. | .leave .. => rfl

theorem Stmt.functionsIn_map (stmts : List Stmt) :
    Stmt.functionsIn (stmts.map (Stmt.map f g)) = (Stmt.functionsIn stmts).map (Stmt.map f g) := by
  match stmts with
  | [] => rfl
  | stmt :: rest => simp [functionsIn, functions_map stmt, functionsIn_map rest]

end

end Map

section Congruence

variable {f f' : Token → Token} (g : UseId → UseId)

mutual

theorem Expr.map_congr (e : Expr) (same : ∀ a ∈ e.tokens, f a = f' a) : e.map f g = e.map f' g := by
  match e with
  | .constant _ => rfl
  | .read id name => simpa [Expr.map] using same name (.head _)
  | .assign id name value =>
    obtain ⟨here, rest⟩ := List.forall_mem_cons.1 same
    simp [Expr.map, here, value.map_congr rest]
  | .binary operator left right | .logical operator left right =>
    obtain ⟨here, rest⟩ := List.forall_mem_cons.1 same
    obtain ⟨first, second⟩ := List.forall_mem_append.1 rest
    simp [Expr.map, here, left.map_congr first, right.map_congr second]
  | .unary operator operand =>
    obtain ⟨here, rest⟩ := List.forall_mem_cons.1 same
    simp [Expr.map, here, operand.map_congr rest]
  | .group inner => exact congrArg Expr.group (inner.map_congr same)
  | .call callee paren arguments =>
    obtain ⟨first, rest⟩ := List.forall_mem_append.1 same
    obtain ⟨here, others⟩ := List.forall_mem_cons.1 rest
    rw [Expr.map, Expr.map, callee.map_congr first, here, mapIn_congr arguments others]
  | .index target bracket place =>
    obtain ⟨first, rest⟩ := List.forall_mem_append.1 same
    obtain ⟨here, second⟩ := List.forall_mem_cons.1 rest
    simp [Expr.map, here, target.map_congr first, place.map_congr second]

theorem Expr.mapIn_congr (es : List Expr) (same : ∀ a ∈ Expr.tokensIn es, f a = f' a) :
    Expr.mapIn f g es = Expr.mapIn f' g es := by
  match es with
  | [] => rfl
  | e :: rest =>
    obtain ⟨first, others⟩ := List.forall_mem_append.1 same
    rw [Expr.mapIn, Expr.mapIn, e.map_congr first, mapIn_congr rest others]

end

theorem Expr.map?_congr (e : Option Expr) (same : ∀ a ∈ (e.map Expr.tokens).getD [], f a = f' a) :
    e.map (Expr.map f g) = e.map (Expr.map f' g) := by
  cases e with
  | none => rfl
  | some e => exact congrArg some (e.map_congr g same)

mutual

theorem Stmt.map_congr (stmt : Stmt) (same : ∀ a ∈ stmt.tokens, f a = f' a) : stmt.map f g = stmt.map f' g := by
  match stmt with
  | .expression e => exact congrArg Stmt.expression (e.map_congr g same)
  | .print e => exact congrArg Stmt.print (e.map_congr g same)
  | .declare name value | .leave name value =>
    obtain ⟨here, rest⟩ := List.forall_mem_cons.1 same
    rw [Stmt.map, Stmt.map, here, Expr.map?_congr g value rest]
  | .block body => exact congrArg Stmt.block (mapIn_congr body same)
  | .ifThen condition yes =>
    obtain ⟨test, holds⟩ := List.forall_mem_append.1 same
    rw [Stmt.map, Stmt.map, condition.map_congr g test, yes.map_congr holds]
  | .ifElse condition yes no =>
    obtain ⟨both, fails⟩ := List.forall_mem_append.1 same
    obtain ⟨test, holds⟩ := List.forall_mem_append.1 both
    rw [Stmt.map, Stmt.map, condition.map_congr g test, yes.map_congr holds, no.map_congr fails]
  | .loop condition body =>
    obtain ⟨test, again⟩ := List.forall_mem_append.1 same
    rw [Stmt.map, Stmt.map, condition.map_congr g test, body.map_congr again]
  | .function name parameters body =>
    obtain ⟨here, rest⟩ := List.forall_mem_cons.1 same
    obtain ⟨binds, inside⟩ := List.forall_mem_append.1 rest
    rw [Stmt.map, Stmt.map, here, List.map_congr_left binds, mapIn_congr body inside]

theorem Stmt.mapIn_congr (stmts : List Stmt) (same : ∀ a ∈ Stmt.tokensIn stmts, f a = f' a) :
    Stmt.mapIn f g stmts = Stmt.mapIn f' g stmts := by
  match stmts with
  | [] => rfl
  | stmt :: rest =>
    obtain ⟨first, others⟩ := List.forall_mem_append.1 same
    rw [Stmt.mapIn, Stmt.mapIn, stmt.map_congr first, mapIn_congr rest others]

end

end Congruence

end Scriptlet
