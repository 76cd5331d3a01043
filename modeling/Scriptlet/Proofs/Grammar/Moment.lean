import Scriptlet.Proofs.Grammar.Procedure

namespace Scriptlet.Grammar

open Outcome Cursor

inductive Call
  | expression
  | operation (tiers : List Tier)
  | operationRest (tier : Tier) (tighter : List Tier) (left : Expr)
  | unary
  | suffixes (target : Expr)
  | arguments (count : Nat)
  | primary
  | parameters (count : Nat)
  | declaration
  | anyDeclaration
  | functionDeclaration
  | statement
  | ifStatement
  | whileStatement
  | forStatement
  | block
  | declarations (nested : Bool)

def Call.end? (n : Nat) (c : Cursor) : Call → Option Cursor
  | .expression => (Grammar.expression n c).map Prod.snd
  | .operation tiers => (Grammar.operation n tiers c).map Prod.snd
  | .operationRest tier tighter left => (Grammar.operationRest n tier tighter left c).map Prod.snd
  | .unary => (Grammar.unary n c).map Prod.snd
  | .suffixes target => (Grammar.suffixes n target c).map Prod.snd
  | .arguments count => (Grammar.arguments n count c).map Prod.snd
  | .primary => (Grammar.primary n c).map Prod.snd
  | .parameters count => (Grammar.parameters n count c).map Prod.snd
  | .declaration => (Grammar.declaration n c).map Prod.snd
  | .anyDeclaration => (Grammar.anyDeclaration n c).map Prod.snd
  | .functionDeclaration => (Grammar.functionDeclaration n c).map Prod.snd
  | .statement => (Grammar.statement n c).map Prod.snd
  | .ifStatement => (Grammar.ifStatement n c).map Prod.snd
  | .whileStatement => (Grammar.whileStatement n c).map Prod.snd
  | .forStatement => (Grammar.forStatement n c).map Prod.snd
  | .block => (Grammar.block n c).map Prod.snd
  | .declarations nested => (Grammar.declarations n nested c).map Prod.snd

/-- With a budget of `n` left for what it calls, a procedure at some place calls another one at another place. -/
inductive Enters (n : Nat) : Call → Cursor → Call → Cursor → Prop
  | target {c} : Enters n .expression c (.operation Tier.all) c
  | value {c target d} (first : operation n Tier.all c = some (target, d)) (seen : d.sees .assign = true) :
      Enters n .expression c .expression d.advance
  | unary {c} : Enters n (.operation []) c .unary c
  | left {tier tighter c} : Enters n (.operation (tier :: tighter)) c (.operation tighter) c
  | operators {tier tighter c left d} (first : operation n tighter c = some (left, d)) :
      Enters n (.operation (tier :: tighter)) c (.operationRest tier tighter left) d
  | right {tier tighter left c} (seen : tier.operators.any c.sees = true) :
      Enters n (.operationRest tier tighter left) c (.operation tighter) c.advance
  | moreOperators {tier tighter left c right d} (seen : tier.operators.any c.sees = true)
      (first : operation n tighter c.advance = some (right, d)) :
      Enters n (.operationRest tier tighter left) c
        (.operationRest tier tighter (tier.node c.advance.previous left right)) d
  | operand {c} (seen : [.minus, .not].any c.sees = true) : Enters n .unary c .unary c.advance
  | primary {c} (unseen : [.minus, .not].any c.sees = false) : Enters n .unary c .primary c
  | suffixes {c callee d} (unseen : [.minus, .not].any c.sees = false) (first : primary n c = some (callee, d)) :
      Enters n .unary c (.suffixes callee) d
  | arguments {target c} (seen : c.sees .leftParen = true) (more : c.advance.sees .rightParen = false) :
      Enters n (.suffixes target) c (.arguments 1) c.advance
  | called {target c es d} (seen : c.sees .leftParen = true)
      (first : (if c.advance.sees .rightParen then some ([], c.advance) else arguments n 1 c.advance) = some (es, d)) :
      Enters n (.suffixes target) c (.suffixes (.call target (d.expect .argumentsEnd).previous es))
        (d.expect .argumentsEnd)
  | place {target c} (seen : c.sees .leftSquare = true) : Enters n (.suffixes target) c .expression c.advance
  | indexed {target c place d} (seen : c.sees .leftSquare = true) (first : expression n c.advance = some (place, d)) :
      Enters n (.suffixes target) c (.suffixes (.index target c.advance.previous place)) (d.expect .indexEnd)
  | argument {count c} : Enters n (.arguments count) c .expression c
  | moreArguments {count c argument d e} (first : expression n c = some (argument, d)) (seen : d.sees .comma = true)
      (limited : Reader.limit count .tooManyArguments d.advance = some ((), e)) :
      Enters n (.arguments count) c (.arguments (count + 1)) e
  | group {c t rest} (here : c.rest = t :: rest) (opens : Operand.ofToken t = .group) :
      Enters n .primary c .expression c.advance
  | moreParameters {count c d} (limited : Reader.limit count .tooManyParameters c = some ((), d))
      (seen : (d.expect .parameterName).sees .comma = true) :
      Enters n (.parameters count) c (.parameters (count + 1)) (d.expect .parameterName).advance
  | declaration {c} : Enters n .declaration c .anyDeclaration { c with history := [] }
  | initialValue {c} (seen : c.sees .varWord = true) (assigned : (c.advance.expect .variableName).sees .assign = true) :
      Enters n .anyDeclaration c .expression (c.advance.expect .variableName).advance
  | function {c} (seen : c.sees .funWord = true) : Enters n .anyDeclaration c .functionDeclaration c.advance
  | statement {c} (unseen : ∀ kind ∈ [.varWord, .funWord], c.sees kind = false) :
      Enters n .anyDeclaration c .statement c
  | parameters {c} (more : ((c.expect .functionName).expect .parametersStart).sees .rightParen = false) :
      Enters n .functionDeclaration c (.parameters 0) ((c.expect .functionName).expect .parametersStart)
  | functionBody {c d names e} (opened : d = (c.expect .functionName).expect .parametersStart)
      (first : (if d.sees .rightParen then some ([], d) else parameters n 0 d) = some (names, e)) :
      Enters n .functionDeclaration c .block ((e.expect .parametersEnd).expect .bodyStart)
  | printed {c} (seen : c.sees .printWord = true) : Enters n .statement c .expression c.advance
  | returned {c} (seen : c.sees .returnWord = true) (more : c.advance.sees .semicolon = false) :
      Enters n .statement c .expression c.advance
  | ifStatement {c} (seen : c.sees .ifWord = true) : Enters n .statement c .ifStatement c.advance
  | whileStatement {c} (seen : c.sees .whileWord = true) : Enters n .statement c .whileStatement c.advance
  | forStatement {c} (seen : c.sees .forWord = true) : Enters n .statement c .forStatement c.advance
  | block {c} (seen : c.sees .leftBrace = true) : Enters n .statement c .block c.advance
  | plain {c} (unseen : ∀ kind ∈ [.printWord, .returnWord, .ifWord, .whileWord, .forWord, .leftBrace],
      c.sees kind = false) : Enters n .statement c .expression c
  | ifCondition {c} : Enters n .ifStatement c .expression (c.expect .ifStart)
  | ifYes {c condition d} (first : expression n (c.expect .ifStart) = some (condition, d)) :
      Enters n .ifStatement c .statement (d.expect .ifEnd)
  | ifNo {c condition d yes e} (first : expression n (c.expect .ifStart) = some (condition, d))
      (second : Grammar.statement n (d.expect .ifEnd) = some (yes, e)) (seen : e.sees .elseWord = true) :
      Enters n .ifStatement c .statement e.advance
  | whileCondition {c} : Enters n .whileStatement c .expression (c.expect .whileStart)
  | whileBody {c condition d} (first : expression n (c.expect .whileStart) = some (condition, d)) :
      Enters n .whileStatement c .statement (d.expect .whileEnd)
  | forVariable {c} (seen : (c.expect .forStart).sees .varWord = true)
      (assigned : ((c.expect .forStart).advance.expect .variableName).sees .assign = true) :
      Enters n .forStatement c .expression ((c.expect .forStart).advance.expect .variableName).advance
  | forExpression {c} (unseen : ∀ kind ∈ [.semicolon, .varWord], (c.expect .forStart).sees kind = false) :
      Enters n .forStatement c .expression (c.expect .forStart)
  | forCondition {c initial d} (first : forInitial n (c.expect .forStart) = some (initial, d))
      (more : d.sees .semicolon = false) : Enters n .forStatement c .expression d
  | forIncrement {c initial d condition e} (first : forInitial n (c.expect .forStart) = some (initial, d))
      (second : expressionUnless n .semicolon d = some (condition, e))
      (more : (e.expect .forCondition).sees .rightParen = false) :
      Enters n .forStatement c .expression (e.expect .forCondition)
  | forBody {c initial d condition e increment f} (first : forInitial n (c.expect .forStart) = some (initial, d))
      (second : expressionUnless n .semicolon d = some (condition, e))
      (third : expressionUnless n .rightParen (e.expect .forCondition) = some (increment, f)) :
      Enters n .forStatement c .statement (f.expect .forEnd)
  | blockBody {c} : Enters n .block c (.declarations true) { c with depth := c.depth + 1 }
  | first {nested c} (goes : (c.atEnd || (nested && c.sees .rightBrace)) = false) :
      Enters n (.declarations nested) c .declaration c
  | next {nested c stmt? d} (goes : (c.atEnd || (nested && c.sees .rightBrace)) = false)
      (first : Grammar.declaration n c = some (stmt?, d)) : Enters n (.declarations nested) c (.declarations nested) d

/-- With a budget of `n` a procedure is begun at some place, and in the course of it with a budget of `k` another one at
another place. -/
inductive Visits : Nat → Call → Cursor → Nat → Call → Cursor → Prop
  | here (n : Nat) (call : Call) (c : Cursor) : Visits n call c n call c
  | step {n k : Nat} {call call' call'' : Call} {c d e : Cursor} (enters : Enters n call c call' d)
      (later : Visits n call' d k call'' e) : Visits (n + 1) call c k call'' e

/-- The places that the run of a procedure passes. -/
inductive Passes (n : Nat) (call : Call) (c : Cursor) : Cursor → Prop
  | start {k : Nat} {call' : Call} {d : Cursor} (visits : Visits n call c k call' d) : Passes n call c d
  | finish {k : Nat} {call' : Call} {d e : Cursor} (visits : Visits n call c k call' d)
      (run : call'.end? k d = some e) : Passes n call c e
  | advance {d : Cursor} (passes : Passes n call c d) : Passes n call c d.advance
  | expect {d : Cursor} (passes : Passes n call c d) (slot : Slot) : Passes n call c (d.expect slot)

theorem ends_of_andThen {α β : Type} {o : Outcome α} {f : α → Cursor → Outcome β} {e : Cursor}
    (run : (o.andThen f).map Prod.snd = some e) : ∃ d, o.map Prod.snd = some d := by
  obtain ⟨x, own, -⟩ := Option.map_eq_some_iff.1 run
  obtain ⟨a, d, first, -⟩ := andThen_eq_some.1 own
  exact ⟨d, by rw [first]; rfl⟩

theorem sees_unique {c : Cursor} {kind other : Token.Kind} (seen : c.sees kind = true) (differs : kind ≠ other) :
    c.sees other = false := by
  obtain ⟨t, rest, more, rfl⟩ := sees_iff.1 seen
  simpa [sees_cons more] using differs

theorem Enters.ends {n : Nat} {call call' : Call} {c d : Cursor} (enters : Enters n call c call' d)
    (run : ∃ e, call.end? (n + 1) c = some e) : ∃ e, call'.end? n d = some e := by
  obtain ⟨e, run⟩ := run
  cases enters with
  | target =>
    rw [Call.end?, expression_succ] at run
    exact ends_of_andThen run
  | value first seen =>
    rw [Call.end?, expression_succ, first, some_andThen, if_pos seen] at run
    exact ends_of_andThen run
  | unary => exact ⟨e, run⟩
  | left =>
    rw [Call.end?, operation_cons] at run
    exact ends_of_andThen run
  | operators first =>
    rw [Call.end?, operation_cons, first, some_andThen] at run
    exact ⟨e, run⟩
  | right seen =>
    rw [Call.end?, operationRest_succ, if_pos seen] at run
    exact ends_of_andThen run
  | moreOperators seen first =>
    rw [Call.end?, operationRest_succ, if_pos seen, first, some_andThen] at run
    exact ⟨e, run⟩
  | operand seen =>
    rw [Call.end?, unary_succ, if_pos seen] at run
    exact ends_of_andThen run
  | primary unseen =>
    rw [Call.end?, unary_succ, if_neg (by simp [unseen])] at run
    exact ends_of_andThen run
  | suffixes unseen first =>
    rw [Call.end?, unary_succ, if_neg (by simp [unseen]), first, some_andThen] at run
    exact ⟨e, run⟩
  | arguments seen more =>
    rw [Call.end?, suffixes_succ, if_pos seen, if_neg (by simp [more])] at run
    exact ends_of_andThen run
  | called seen first =>
    rw [Call.end?, suffixes_succ, if_pos seen, first, some_andThen] at run
    exact ⟨e, run⟩
  | place seen =>
    rw [Call.end?, suffixes_succ, if_neg (by simp [sees_unique seen]), if_pos seen] at run
    exact ends_of_andThen run
  | indexed seen first =>
    rw [Call.end?, suffixes_succ, if_neg (by simp [sees_unique seen]), if_pos seen, first, some_andThen] at run
    exact ⟨e, run⟩
  | argument =>
    rw [Call.end?, arguments_succ] at run
    exact ends_of_andThen run
  | moreArguments first seen limited =>
    rw [Call.end?, arguments_succ, first, some_andThen, if_pos seen, limited, some_andThen] at run
    exact ends_of_andThen run
  | group here opens =>
    simp only [Call.end?, primary_succ, here, opens] at run
    exact ends_of_andThen run
  | moreParameters limited seen =>
    rw [Call.end?, parameters_succ, limited, some_andThen, if_pos seen] at run
    exact ends_of_andThen run
  | declaration =>
    rw [Call.end?, declaration_succ] at run
    exact ends_of_andThen run
  | initialValue seen assigned =>
    rw [Call.end?, anyDeclaration_succ, if_pos seen, variableDeclaration_run, if_pos assigned, andThen_assoc] at run
    exact ends_of_andThen run
  | function seen =>
    rw [Call.end?, anyDeclaration_succ, if_neg (by simp [sees_unique seen]), if_pos seen] at run
    exact ⟨e, run⟩
  | statement unseen =>
    rw [Call.end?, anyDeclaration_succ, if_neg (by simp [unseen]), if_neg (by simp [unseen])] at run
    exact ⟨e, run⟩
  | parameters more =>
    rw [Call.end?, functionDeclaration_succ] at run
    simp only [more, Bool.false_eq_true, if_false] at run
    exact ends_of_andThen run
  | functionBody opened first =>
    subst opened
    rw [Call.end?, functionDeclaration_succ] at run
    simp only [first, some_andThen] at run
    exact ends_of_andThen run
  | printed seen =>
    rw [Call.end?, statement_succ, if_pos seen, printStatement_run] at run
    exact ends_of_andThen run
  | returned seen more =>
    rw [Call.end?, statement_succ, if_neg (by simp [sees_unique seen]), if_pos seen, returnStatement_run,
      expressionUnless_run, if_neg (by simp [more]), andThen_assoc] at run
    exact ends_of_andThen run
  | ifStatement seen =>
    simp only [Call.end?, statement_succ, sees_unique seen, seen, Bool.false_eq_true, if_false, if_true, ne_eq,
      reduceCtorEq, not_false_eq_true] at run
    exact ⟨e, run⟩
  | whileStatement seen =>
    simp only [Call.end?, statement_succ, sees_unique seen, seen, Bool.false_eq_true, if_false, if_true, ne_eq,
      reduceCtorEq, not_false_eq_true] at run
    exact ⟨e, run⟩
  | forStatement seen =>
    simp only [Call.end?, statement_succ, sees_unique seen, seen, Bool.false_eq_true, if_false, if_true, ne_eq,
      reduceCtorEq, not_false_eq_true] at run
    exact ⟨e, run⟩
  | block seen =>
    simp only [Call.end?, statement_succ, sees_unique seen, seen, Bool.false_eq_true, if_false, if_true, ne_eq,
      reduceCtorEq, not_false_eq_true] at run
    exact ends_of_andThen run
  | plain unseen =>
    simp only [List.forall_mem_cons] at unseen
    simp only [Call.end?, statement_succ, unseen, Bool.false_eq_true, if_false, expressionStatement_run] at run
    exact ends_of_andThen run
  | ifCondition =>
    rw [Call.end?, ifStatement_succ] at run
    exact ends_of_andThen run
  | ifYes first =>
    rw [Call.end?, ifStatement_succ, first, some_andThen] at run
    exact ends_of_andThen run
  | ifNo first second seen =>
    rw [Call.end?, ifStatement_succ, first, some_andThen, second, some_andThen, if_pos seen] at run
    exact ends_of_andThen run
  | whileCondition =>
    rw [Call.end?, whileStatement_succ] at run
    exact ends_of_andThen run
  | whileBody first =>
    rw [Call.end?, whileStatement_succ, first, some_andThen] at run
    exact ends_of_andThen run
  | forVariable seen assigned =>
    rw [Call.end?, forStatement_succ, forInitial_run, if_neg (by simp [sees_unique seen]), if_pos seen,
      variableDeclaration_run, if_pos assigned, andThen_assoc, andThen_assoc, andThen_assoc] at run
    exact ends_of_andThen run
  | forExpression unseen =>
    rw [Call.end?, forStatement_succ, forInitial_run, if_neg (by simp [unseen]), if_neg (by simp [unseen]),
      expressionStatement_run, andThen_assoc, andThen_assoc] at run
    exact ends_of_andThen run
  | forCondition first more =>
    rw [Call.end?, forStatement_succ, first, some_andThen, expressionUnless_run, if_neg (by simp [more]),
      andThen_assoc] at run
    exact ends_of_andThen run
  | forIncrement first second more =>
    rw [Call.end?, forStatement_succ, first, some_andThen, second, some_andThen, expressionUnless_run,
      if_neg (by simp [more]), andThen_assoc] at run
    exact ends_of_andThen run
  | forBody first second third =>
    rw [Call.end?, forStatement_succ, first, some_andThen, second, some_andThen, third, some_andThen] at run
    exact ends_of_andThen run
  | blockBody =>
    rw [Call.end?, block_succ] at run
    exact ends_of_andThen run
  | first goes =>
    rw [Call.end?, declarations_succ, if_neg (by simp [goes])] at run
    exact ends_of_andThen run
  | next goes first =>
    rw [Call.end?, declarations_succ, if_neg (by simp [goes]), first, some_andThen] at run
    exact ends_of_andThen run

theorem Visits.trans {n k l : Nat} {call call' call'' : Call} {c d e : Cursor} (first : Visits n call c k call' d)
    (second : Visits k call' d l call'' e) : Visits n call c l call'' e := by
  induction first with
  | here => exact second
  | step enters _ ih => exact .step enters (ih second)

theorem Visits.ends {n k : Nat} {call call' : Call} {c d : Cursor} (visits : Visits n call c k call' d)
    (run : ∃ e, call.end? n c = some e) : ∃ e, call'.end? k d = some e := by
  induction visits with
  | here => exact run
  | step enters _ ih => exact ih (enters.ends run)

end Scriptlet.Grammar
