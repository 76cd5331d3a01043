import Scriptlet.Proofs.Machine.Likeness
import Scriptlet.Proofs.Tree.Part

namespace Scriptlet

theorem forall₂_append_inv {α β : Type} {R : α → β → Prop} {as bs : List α} {cs ds : List β}
    (h : List.Forall₂ R (as ++ bs) (cs ++ ds)) (length : cs.length = as.length) :
    List.Forall₂ R as cs ∧ List.Forall₂ R bs ds := by
  induction as generalizing cs with
  | nil =>
    obtain rfl := List.eq_nil_of_length_eq_zero length
    exact ⟨.nil, h⟩
  | cons a as ih =>
    cases cs with
    | nil => cases length
    | cons c cs =>
      obtain ⟨first, rest⟩ := List.forall₂_cons.1 h
      obtain ⟨left, right⟩ := ih rest (Nat.succ.inj length)
      exact ⟨.cons first left, right⟩

theorem forall₂_map_eq_iff {α β γ : Type} {f : α → γ} {g : β → γ} {as : List α} {bs : List β} :
    List.Forall₂ (fun a b => g b = f a) as bs ↔ bs.map g = as.map f := by
  rw [eq_comm, ← List.forall₂_eq_eq_eq, List.forall₂_map_left_iff, List.forall₂_map_right_iff]
  exact ⟨fun h => h.imp fun _ _ => Eq.symm, fun h => h.imp fun _ _ => Eq.symm⟩

theorem forall₂_of_map_eq {α β γ : Type} {f : α → γ} {g : β → γ} {R : α → β → Prop} {as : List α} {bs : List β}
    (same : bs.map g = as.map f) (h : ∀ a b, a ∈ as → g b = f a → R a b) : List.Forall₂ R as bs := by
  obtain ⟨length, both⟩ := List.forall₂_iff_zip.1 (forall₂_map_eq_iff.2 same)
  exact List.forall₂_iff_zip.2 ⟨length, fun mem => h _ _ (List.of_mem_zip mem).1 (both mem)⟩

section Views

variable {f h : Token → Token}

theorem Expr.length_uses_eq {e e' : Expr} (same : e'.view h = e.view f) : e'.uses.length = e.uses.length := by
  simpa [Expr.uses_map] using congrArg (List.length ∘ Expr.uses) same

theorem Expr.length_tokens_eq {e e' : Expr} (same : e'.view h = e.view f) : e'.tokens.length = e.tokens.length := by
  simpa [Expr.tokens_map] using congrArg (List.length ∘ Expr.tokens) same

theorem Stmt.length_uses_eq {stmt stmt' : Stmt} (same : stmt'.view h = stmt.view f) :
    stmt'.uses.length = stmt.uses.length := by
  simpa [Stmt.uses_map] using congrArg (List.length ∘ Stmt.uses) same

theorem Stmt.length_tokens_eq {stmt stmt' : Stmt} (same : stmt'.view h = stmt.view f) :
    stmt'.tokens.length = stmt.tokens.length := by
  simpa [Stmt.tokens_map] using congrArg (List.length ∘ Stmt.tokens) same

theorem Stmt.length_functions_eq {stmt stmt' : Stmt} (same : stmt'.view h = stmt.view f) :
    stmt'.functions.length = stmt.functions.length := by
  simpa [Stmt.functions_map] using congrArg (List.length ∘ Stmt.functions) same

variable {token : Token → Token → Prop} {use : Use → Use → Prop}

mutual

theorem Expr.paired_of_views (e e' : Expr) (same : e'.view h = e.view f) (tokens : List.Forall₂ token e.tokens e'.tokens)
    (uses : List.Forall₂ use e.uses e'.uses) : e.Paired token use e' := by
  match e with
  | .constant value =>
    cases e' with
    | constant value' =>
      cases same
      exact .constant value
    | _ => cases same
  | .read i name =>
    cases e' with
    | read i' name' => exact .read (List.forall₂_cons.1 uses).1
    | _ => cases same
  | .assign i name value =>
    cases e' with
    | assign i' name' value' =>
      obtain ⟨-, -, inner⟩ := Expr.assign.inj same
      obtain ⟨right, last⟩ := forall₂_append_inv uses (Expr.length_uses_eq inner)
      refine .assign (paired_of_views value value' inner (List.forall₂_cons.1 tokens).2 right) ?_
      exact (List.forall₂_cons.1 last).1
    | _ => cases same
  | .binary operator left right =>
    cases e' with
    | binary operator' left' right' =>
      obtain ⟨-, first, second⟩ := Expr.binary.inj same
      obtain ⟨uses, uses'⟩ := forall₂_append_inv uses (Expr.length_uses_eq first)
      obtain ⟨here, both⟩ := List.forall₂_cons.1 tokens
      obtain ⟨tokens, tokens'⟩ := forall₂_append_inv both (Expr.length_tokens_eq first)
      exact .binary here (paired_of_views left left' first tokens uses) (paired_of_views right right' second tokens' uses')
    | _ => cases same
  | .logical operator left right =>
    cases e' with
    | logical operator' left' right' =>
      obtain ⟨-, first, second⟩ := Expr.logical.inj same
      obtain ⟨uses, uses'⟩ := forall₂_append_inv uses (Expr.length_uses_eq first)
      obtain ⟨here, both⟩ := List.forall₂_cons.1 tokens
      obtain ⟨tokens, tokens'⟩ := forall₂_append_inv both (Expr.length_tokens_eq first)
      exact .logical here (paired_of_views left left' first tokens uses) (paired_of_views right right' second tokens' uses')
    | _ => cases same
  | .unary operator operand =>
    cases e' with
    | unary operator' operand' =>
      obtain ⟨-, inner⟩ := Expr.unary.inj same
      obtain ⟨here, tokens⟩ := List.forall₂_cons.1 tokens
      exact .unary here (paired_of_views operand operand' inner tokens uses)
    | _ => cases same
  | .group inner =>
    cases e' with
    | group inner' => exact .group (paired_of_views inner inner' (Expr.group.inj same) tokens uses)
    | _ => cases same
  | .call callee paren arguments =>
    cases e' with
    | call callee' paren' arguments' =>
      obtain ⟨first, -, rest⟩ := Expr.call.inj same
      rw [Expr.mapIn_eq_map, Expr.mapIn_eq_map] at rest
      obtain ⟨uses, uses'⟩ := forall₂_append_inv uses (Expr.length_uses_eq first)
      obtain ⟨tokens, others⟩ := forall₂_append_inv tokens (Expr.length_tokens_eq first)
      obtain ⟨here, tokens'⟩ := List.forall₂_cons.1 others
      exact .call (paired_of_views callee callee' first tokens uses) here
        (pairedIn_of_views arguments arguments' rest tokens' uses')
    | _ => cases same
  | .index target bracket place =>
    cases e' with
    | index target' bracket' place' =>
      obtain ⟨first, -, second⟩ := Expr.index.inj same
      obtain ⟨uses, uses'⟩ := forall₂_append_inv uses (Expr.length_uses_eq first)
      obtain ⟨tokens, others⟩ := forall₂_append_inv tokens (Expr.length_tokens_eq first)
      obtain ⟨here, tokens'⟩ := List.forall₂_cons.1 others
      exact .index (paired_of_views target target' first tokens uses) here
        (paired_of_views place place' second tokens' uses')
    | _ => cases same

theorem Expr.pairedIn_of_views (es es' : List Expr) (same : es'.map (Expr.view h) = es.map (Expr.view f))
    (tokens : List.Forall₂ token (Expr.tokensIn es) (Expr.tokensIn es')) (uses : List.Forall₂ use (Expr.usesIn es) (Expr.usesIn es')) :
    Expr.PairedIn token use es es' := by
  match es with
  | [] =>
    obtain rfl := List.map_eq_nil_iff.1 same
    exact .nil
  | e :: rest =>
    cases es' with
    | nil => cases same
    | cons e' rest' =>
      obtain ⟨first, others⟩ := List.cons.inj same
      obtain ⟨uses, uses'⟩ := forall₂_append_inv uses (Expr.length_uses_eq first)
      obtain ⟨tokens, tokens'⟩ := forall₂_append_inv tokens (Expr.length_tokens_eq first)
      exact .cons (paired_of_views e e' first tokens uses) (pairedIn_of_views rest rest' others tokens' uses')

end

theorem Expr.paired?_of_views (e e' : Option Expr) (same : e'.map (Expr.view h) = e.map (Expr.view f))
    (tokens : List.Forall₂ token ((e.map Expr.tokens).getD []) ((e'.map Expr.tokens).getD []))
    (uses : List.Forall₂ use ((e.map Expr.uses).getD []) ((e'.map Expr.uses).getD [])) :
    Expr.Paired? token use e e' := by
  cases e with
  | none =>
    cases e' with
    | none => exact .none
    | some e' => cases same
  | some e =>
    cases e' with
    | none => cases same
    | some e' => exact .some (Expr.paired_of_views e e' (Option.some.inj same) tokens uses)

variable {like : Likeness}

mutual

theorem Stmt.paired_of_views (lexeme : ∀ {a a'}, h a' = f a → a'.lexeme = a.lexeme) (stmt stmt' : Stmt) (same : stmt'.view h = stmt.view f)
    (tokens : List.Forall₂ like.token stmt.tokens stmt'.tokens)
    (uses : List.Forall₂ (like.use .verbatim) stmt.uses stmt'.uses)
    (functions : List.Forall₂ like.keeps stmt.functions stmt'.functions) :
    Stmt.Paired like .verbatim stmt stmt' .verbatim := by
  match stmt with
  | .expression e =>
    cases stmt' with
    | expression e' => exact .expression (Expr.paired_of_views e e' (Stmt.expression.inj same) tokens uses)
    | _ => cases same
  | .print e =>
    cases stmt' with
    | print e' => exact .print (Expr.paired_of_views e e' (Stmt.print.inj same) tokens uses)
    | _ => cases same
  | .declare name initial =>
    cases stmt' with
    | declare name' initial' =>
      obtain ⟨-, value⟩ := Stmt.declare.inj same
      obtain ⟨here, tokens⟩ := List.forall₂_cons.1 tokens
      exact .declare (Expr.paired?_of_views initial initial' value tokens uses) (.verbatim here)
    | _ => cases same
  | .block body =>
    cases stmt' with
    | block body' =>
      have inside := Stmt.block.inj same
      rw [Stmt.mapIn_eq_map, Stmt.mapIn_eq_map] at inside
      exact .block .verbatim (pairedIn_of_views lexeme body body' inside tokens uses functions)
    | _ => cases same
  | .ifThen condition yes =>
    cases stmt' with
    | ifThen condition' yes' =>
      obtain ⟨test, holds⟩ := Stmt.ifThen.inj same
      obtain ⟨uses, uses'⟩ := forall₂_append_inv uses (Expr.length_uses_eq test)
      obtain ⟨tokens, tokens'⟩ := forall₂_append_inv tokens (Expr.length_tokens_eq test)
      exact .ifThen (Expr.paired_of_views condition condition' test tokens uses)
        (paired_of_views lexeme yes yes' holds tokens' uses' functions)
    | _ => cases same
  | .ifElse condition yes no =>
    cases stmt' with
    | ifElse condition' yes' no' =>
      obtain ⟨test, holds, fails⟩ := Stmt.ifElse.inj same
      have length : (condition'.uses ++ yes'.uses).length = (condition.uses ++ yes.uses).length := by
        rw [List.length_append, List.length_append, Expr.length_uses_eq test, Stmt.length_uses_eq holds]
      obtain ⟨both, third⟩ := forall₂_append_inv uses length
      obtain ⟨first, second⟩ := forall₂_append_inv both (Expr.length_uses_eq test)
      have wide : (condition'.tokens ++ yes'.tokens).length = (condition.tokens ++ yes.tokens).length := by
        rw [List.length_append, List.length_append, Expr.length_tokens_eq test, Stmt.length_tokens_eq holds]
      obtain ⟨both, tokens₃⟩ := forall₂_append_inv tokens wide
      obtain ⟨tokens₁, tokens₂⟩ := forall₂_append_inv both (Expr.length_tokens_eq test)
      obtain ⟨functions, functions'⟩ := forall₂_append_inv functions (Stmt.length_functions_eq holds)
      exact .ifElse (Expr.paired_of_views condition condition' test tokens₁ first)
        (paired_of_views lexeme yes yes' holds tokens₂ second functions) (paired_of_views lexeme no no' fails tokens₃ third functions')
    | _ => cases same
  | .loop condition body =>
    cases stmt' with
    | loop condition' body' =>
      obtain ⟨test, again⟩ := Stmt.loop.inj same
      obtain ⟨uses, uses'⟩ := forall₂_append_inv uses (Expr.length_uses_eq test)
      obtain ⟨tokens, tokens'⟩ := forall₂_append_inv tokens (Expr.length_tokens_eq test)
      exact .loop (Expr.paired_of_views condition condition' test tokens uses)
        (paired_of_views lexeme body body' again tokens' uses' functions)
    | _ => cases same
  | .function name parameters body =>
    cases stmt' with
    | function name' parameters' body' =>
      obtain ⟨name_eq, named, inside⟩ := Stmt.function.inj same
      rw [Stmt.mapIn_eq_map, Stmt.mapIn_eq_map] at inside
      have length : parameters'.length = parameters.length := by simpa using congrArg List.length named
      obtain ⟨here, others⟩ := List.forall₂_cons.1 tokens
      obtain ⟨names, tokens⟩ := forall₂_append_inv others length
      obtain ⟨keeps, functions⟩ := List.forall₂_cons.1 functions
      exact .function (.verbatim here) (lexeme name_eq) .verbatim (declaresAll names)
        (pairedIn_of_views lexeme body body' inside tokens uses functions) keeps
    | _ => cases same
  | .leave keyword value =>
    cases stmt' with
    | leave keyword' value' =>
      obtain ⟨-, result⟩ := Stmt.leave.inj same
      obtain ⟨-, tokens⟩ := List.forall₂_cons.1 tokens
      exact .leave (Expr.paired?_of_views value value' result tokens uses)
    | _ => cases same
where
  declaresAll {names names' : List Token} (same : List.Forall₂ like.token names names') :
      Place.DeclaresAll like.token .verbatim names names' .verbatim := by
    induction same with
    | nil => exact .nil _
    | cons here _ ih => exact .cons (.verbatim here) ih

theorem Stmt.pairedIn_of_views (lexeme : ∀ {a a'}, h a' = f a → a'.lexeme = a.lexeme) (stmts stmts' : List Stmt)
    (same : stmts'.map (Stmt.view h) = stmts.map (Stmt.view f))
    (tokens : List.Forall₂ like.token (Stmt.tokensIn stmts) (Stmt.tokensIn stmts'))
    (uses : List.Forall₂ (like.use .verbatim) (Stmt.usesIn stmts) (Stmt.usesIn stmts'))
    (functions : List.Forall₂ like.keeps (Stmt.functionsIn stmts) (Stmt.functionsIn stmts')) :
    Stmt.PairedIn like .verbatim stmts stmts' := by
  match stmts with
  | [] =>
    obtain rfl := List.map_eq_nil_iff.1 same
    exact .nil _
  | stmt :: rest =>
    cases stmts' with
    | nil => cases same
    | cons stmt' rest' =>
      obtain ⟨first, others⟩ := List.cons.inj same
      obtain ⟨uses, uses'⟩ := forall₂_append_inv uses (Stmt.length_uses_eq first)
      obtain ⟨functions, functions'⟩ := forall₂_append_inv functions (Stmt.length_functions_eq first)
      obtain ⟨tokens, tokens'⟩ := forall₂_append_inv tokens (Stmt.length_tokens_eq first)
      exact .cons (paired_of_views lexeme stmt stmt' first tokens uses functions)
        (pairedIn_of_views lexeme rest rest' others tokens' uses' functions')

end

theorem Expr.paired_of_view (e e' : Expr) (same : e'.view id = e.view f) (tokens : ∀ a ∈ e.tokens, token a (f a))
    (uses : List.Forall₂ use e.uses e'.uses) : e.Paired token use e' := by
  refine Expr.paired_of_views e e' same ?_ uses
  have named := congrArg Expr.tokens same
  rw [Expr.tokens_map, Expr.tokens_map, List.map_id] at named
  rw [named, List.forall₂_map_right_iff]
  exact List.forall₂_same.2 tokens

section Lexemes

variable (lexeme : ∀ a, (f a).lexeme = a.lexeme)

include lexeme

theorem Stmt.paired_of_view (stmt stmt' : Stmt) (same : stmt'.view id = stmt.view f)
    (tokens : ∀ a ∈ stmt.tokens, like.token a (f a))
    (uses : List.Forall₂ (like.use .verbatim) stmt.uses stmt'.uses)
    (functions : List.Forall₂ like.keeps stmt.functions stmt'.functions) :
    Stmt.Paired like .verbatim stmt stmt' .verbatim := by
  refine Stmt.paired_of_views (f := f) (h := id) (fun {a _} shown => (congrArg Token.lexeme shown).trans (lexeme a)) stmt stmt' same ?_ uses functions
  have named := congrArg Stmt.tokens same
  rw [Stmt.tokens_map, Stmt.tokens_map, List.map_id] at named
  rw [named, List.forall₂_map_right_iff]
  exact List.forall₂_same.2 tokens

theorem Stmt.pairedIn_of_view (stmts stmts' : List Stmt)
    (same : stmts'.map (Stmt.view id) = stmts.map (Stmt.view f))
    (tokens : ∀ a ∈ Stmt.tokensIn stmts, like.token a (f a))
    (uses : List.Forall₂ (like.use .verbatim) (Stmt.usesIn stmts) (Stmt.usesIn stmts'))
    (functions : List.Forall₂ like.keeps (Stmt.functionsIn stmts) (Stmt.functionsIn stmts')) :
    Stmt.PairedIn like .verbatim stmts stmts' := by
  refine Stmt.pairedIn_of_views (f := f) (h := id) (fun {a _} shown => (congrArg Token.lexeme shown).trans (lexeme a)) stmts stmts' same ?_ uses functions
  have named := congrArg Stmt.tokensIn same
  rw [Stmt.tokensIn_map, Stmt.tokensIn_map, List.map_id] at named
  rw [named, List.forall₂_map_right_iff]
  exact List.forall₂_same.2 tokens

end Lexemes

end Views

theorem Stmt.PairedIn.refl {like : Likeness} (stmts : List Stmt) (tokens : ∀ a ∈ Stmt.tokensIn stmts, like.token a a)
    (uses : ∀ u ∈ Stmt.usesIn stmts, like.use .verbatim u u)
    (functions : ∀ g ∈ Stmt.functionsIn stmts, like.keeps g g) : Stmt.PairedIn like .verbatim stmts stmts :=
  Stmt.pairedIn_of_view (fun _ => rfl) stmts stmts rfl tokens (List.forall₂_same.2 uses) (List.forall₂_same.2 functions)

end Scriptlet
