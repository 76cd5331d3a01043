import Scriptlet.Machine.Eval
import Scriptlet.Proofs.Address.Flat

namespace Scriptlet.Machine

structure Procedures where
  evaluate : Expr → Run Value
  evaluateAll : List Expr → Run (List Value)
  evaluate? : Option Expr → Run Value
  call : Token → Value → List Value → Run Value
  apply : Callable → List Value → Run Value
  execute : Stmt → Run Flow
  executeAll : List Stmt → Run Flow
  executeFlat : List Stmt → Run Flow

namespace Procedures

def exhausted : Procedures where
  evaluate _ := throw .exhausted
  evaluateAll _ := throw .exhausted
  evaluate? _ := throw .exhausted
  call _ _ _ := throw .exhausted
  apply _ _ := throw .exhausted
  execute _ := throw .exhausted
  executeAll _ := throw .exhausted
  executeFlat _ := throw .exhausted

def executeBody (flat : List Stmt → Bool) (p : Procedures) (repeated : Bool) : Stmt → Run Flow
  | .block body => if Stmt.isFlat flat repeated body then p.executeFlat body else p.execute (.block body)
  | stmt => p.execute stmt

def next (flat : List Stmt → Bool) (s : Setting) (p : Procedures) : Procedures where
  evaluate
    | .constant value => return .ofConstant value
    | .group inner => p.evaluate inner
    | .read id name => lookUp s id name
    | .assign id name e => do
      let value ← p.evaluate e
      assign s id name value
      return value
    | .logical operator left right => do
      let value ← p.evaluate left
      if value.truthy == (operator.kind == .orWord) then return value else p.evaluate right
    | .unary operator operand => do
      let value ← p.evaluate operand
      orFail (unary operator value)
    | .binary operator left right => do
      let x ← p.evaluate left
      let y ← p.evaluate right
      orFail (binary operator x y)
    | .call callee paren arguments => do
      let f ← p.evaluate callee
      let values ← p.evaluateAll arguments
      p.call paren f values
    | .index target bracket place => do
      let x ← p.evaluate target
      let y ← p.evaluate place
      orFail (index bracket x y)
  evaluateAll
    | [] => return []
    | e :: rest => do
      let value ← p.evaluate e
      let values ← p.evaluateAll rest
      return value :: values
  evaluate?
    | none => return .nil
    | some e => p.evaluate e
  call
    | paren, .function _ callable, arguments => do
      if arguments.length ≠ callable.arity then
        fail paren (.wrongArity callable.arity arguments.length)
      else if maxDepth ≤ (← get).depth then fail paren .stackOverflow
      else inCall (p.apply callable arguments)
    | paren, value, _ => fail paren (.notCallable value.typeName)
  apply
    | .closure _ parameters body outer, arguments => do
      let frame ← newFrame outer
      bindParameters frame parameters arguments
      match ← inFrame frame (p.executeAll body) with
      | .onward => return .nil
      | .returned value => return value
    | .builtin builtin, arguments => do
      match builtin.action, arguments with
      | .clock, _ => readClock s
      | .list, values => return .text (Value.inspectAll values)
      | .typeName, values => return .text (values.headD .nil).typeName
      | .last, values => return values.getLastD .nil
      | .print, values =>
        values.forM emit
        return .nil
      | .fail, _ => fail (.ofName builtin.name) .primitiveFailed
      | .apply, .function _ callable :: values => p.apply callable values
      | .apply, values => return values.headD .nil
      | .ignore, _ => return .nil
  execute
    | .expression e => do
      let _ ← p.evaluate e
      return .onward
    | .print e => do
      emit (← p.evaluate e)
      return .onward
    | .declare name initial => do
      define name (← p.evaluate? initial)
      return .onward
    | .block body => do
      let frame ← newFrame (← get).current
      inFrame frame (p.executeAll body)
    | .ifThen condition yes => do
      if (← p.evaluate condition).truthy then p.execute yes else return .onward
    | .ifElse condition yes no => do
      if (← p.evaluate condition).truthy then p.execute yes else p.execute no
    | .loop condition body => do
      if (← p.evaluate condition).truthy then
        match ← p.executeBody flat true body with
        | .onward => p.execute (.loop condition body)
        | .returned value => return .returned value
      else return .onward
    | .function name parameters body => do
      define name (← newFunction (.closure name parameters body (← get).current))
      return .onward
    | .leave _ value => return .returned (← p.evaluate? value)
  executeAll
    | [] => return .onward
    | stmt :: rest => do
      match ← p.execute stmt with
      | .onward => p.executeAll rest
      | .returned value => return .returned value
  executeFlat := p.executeAll

end Procedures

def direct (flat : List Stmt → Bool) (s : Setting) : Nat → Procedures
  | 0 => .exhausted
  | n + 1 => (direct flat s n).next flat s

def procedures (s : Setting) (n : Nat) : Procedures where
  evaluate := evaluate s n
  evaluateAll := evaluateAll s n
  evaluate? := evaluate? s n
  call := call s n
  apply := apply s n
  execute := execute s n
  executeAll := executeAll s n
  executeFlat := match n with
    | 0 => fun _ => throw .exhausted
    | n + 1 => executeAll s n

theorem procedures_zero (s : Setting) : procedures s 0 = .exhausted := by
  rw [procedures, Procedures.exhausted]
  congr 1

theorem executeBody_never (p : Procedures) (repeated : Bool) (stmt : Stmt) :
    p.executeBody (fun _ => false) repeated stmt = p.execute stmt := by
  cases stmt with
  | block body => simp [Procedures.executeBody, Stmt.isFlat]
  | _ => rfl

theorem procedures_succ (s : Setting) (n : Nat) :
    procedures s (n + 1) = (procedures s n).next (fun _ => false) s := by
  have evaluate : Machine.evaluate s (n + 1) = ((procedures s n).next (fun _ => false) s).evaluate := by
    funext e
    cases e <;> rfl
  have evaluateAll : Machine.evaluateAll s (n + 1) = ((procedures s n).next (fun _ => false) s).evaluateAll := by
    funext es
    cases es <;> rfl
  have evaluate? : Machine.evaluate? s (n + 1) = ((procedures s n).next (fun _ => false) s).evaluate? := by
    funext e
    cases e <;> rfl
  have call : Machine.call s (n + 1) = ((procedures s n).next (fun _ => false) s).call := by
    funext paren f values
    cases f <;> rfl
  have apply : Machine.apply s (n + 1) = ((procedures s n).next (fun _ => false) s).apply := by
    funext callable values
    cases callable <;> rfl
  have execute : Machine.execute s (n + 1) = ((procedures s n).next (fun _ => false) s).execute := by
    funext stmt
    cases stmt with
    | loop condition body =>
      simp only [Procedures.next, executeBody_never]
      rfl
    | _ => rfl
  have executeAll : Machine.executeAll s (n + 1) = ((procedures s n).next (fun _ => false) s).executeAll := by
    funext stmts
    cases stmts <;> rfl
  rw [procedures, evaluate, evaluateAll, evaluate?, call, apply, execute, executeAll]
  rfl

theorem direct_never (s : Setting) (n : Nat) : direct (fun _ => false) s n = procedures s n := by
  induction n with
  | zero => exact (procedures_zero s).symm
  | succ n ih => rw [direct, ih, procedures_succ]

section Loop

variable (flat : List Stmt → Bool) (s : Setting)

/-- The body of a loop and then its increment, in one and the same scope. They have the budget that they have as statements
of a block. -/
def directStep (n : Nat) (body : Stmt) : Option Expr → Run Flow
  | none => (direct flat s n).execute body
  | some increment => do
    match ← (direct flat s (n - 2)).execute body with
    | .onward =>
      let _ ← (direct flat s (n - 4)).evaluate increment
      return .onward
    | .returned value => return .returned value

def directLoop (condition : Expr) (increment : Option Expr) (body : Stmt) : Nat → Run Flow
  | 0 => throw .exhausted
  | n + 1 => do
    if (← (direct flat s n).evaluate condition).truthy then
      match ← directStep flat s n body increment with
      | .onward => directLoop condition increment body n
      | .returned value => return .returned value
    else return .onward

def directFor (initial : Option Stmt) (condition increment : Option Expr) (body : Stmt) (n : Nat) : Run Flow :=
  let condition := condition.getD (.constant (.boolean true))
  match initial, n with
  | none, n => directLoop flat s condition increment body n
  | some _, 0 => throw .exhausted
  | some first, n + 1 => do
    let frame ← newFrame (← get).current
    inFrame frame do
      match ← (direct flat s (n - 1)).execute first with
      | .onward => directLoop flat s condition increment body (n - 2)
      | .returned value => return .returned value

def stepOf (body : Stmt) : Option Expr → Stmt
  | some increment => .block [body, .expression increment]
  | none => body

/-- A loop with an increment is run directly if its step is flat, and one without if its body keeps the scope that it may
have. -/
def Directly (increment : Option Expr) (body : Stmt) : Prop :=
  match increment with
  | some e => Stmt.isFlat flat true [body, .expression e] = true
  | none => ∀ stmts, body = .block stmts → Stmt.isFlat flat true stmts = false

variable {flat} {s} {increment : Option Expr} {body : Stmt}

theorem executeAll_cons (n : Nat) (stmt : Stmt) (rest : List Stmt) :
    (direct flat s n).executeAll (stmt :: rest) = do
      match ← (direct flat s (n - 1)).execute stmt with
      | .onward => (direct flat s (n - 1)).executeAll rest
      | .returned value => return .returned value := by
  cases n <;> rfl

theorem executeAll_singleton (n : Nat) (stmt : Stmt) :
    (direct flat s n).executeAll [stmt] = (direct flat s (n - 1)).execute stmt := by
  rw [executeAll_cons]
  cases n - 1 with
  | zero => rfl
  | succ n =>
    refine Eq.trans (congrArg _ (funext fun flow => ?_)) (bind_pure _)
    cases flow <;> rfl

theorem execute_expression (n : Nat) (e : Expr) :
    (direct flat s n).execute (.expression e) = do
      let _ ← (direct flat s (n - 1)).evaluate e
      return .onward := by
  cases n <;> rfl

theorem executeBody_stepOf (directly : Directly flat increment body) (n : Nat) :
    (direct flat s n).executeBody flat true (stepOf body increment) = directStep flat s n body increment := by
  cases increment with
  | none =>
    cases body with
    | block stmts => exact if_neg (Bool.eq_false_iff.1 (directly stmts rfl))
    | _ => rfl
  | some e =>
    have unscoped : (direct flat s n).executeFlat [body, .expression e] =
        (direct flat s (n - 1)).executeAll [body, .expression e] := by
      cases n <;> rfl
    refine (if_pos directly).trans ?_
    rw [unscoped, executeAll_cons, executeAll_singleton, execute_expression]
    rfl

theorem execute_loop (directly : Directly flat increment body) (condition : Expr) (n : Nat) :
    (direct flat s n).execute (.loop condition (stepOf body increment)) =
      directLoop flat s condition increment body n := by
  induction n with
  | zero => rfl
  | succ n ih =>
    rw [directLoop, ← ih, ← executeBody_stepOf directly]
    rfl

/-- A loop with clauses whose step is taken to be flat is the direct loop. -/
theorem execute_forLoop (directly : Directly flat increment body) (initial : Option Stmt) (condition : Option Expr)
    (n : Nat) :
    (direct flat s n).execute (.forLoop initial condition increment body) =
      directFor flat s initial condition increment body n := by
  cases initial with
  | none =>
    refine Eq.trans ?_ (execute_loop directly _ n)
    cases increment <;> rfl
  | some first =>
    cases n with
    | zero => rfl
    | succ n =>
      have inside : (direct flat s n).executeAll
          [first, .loop (condition.getD (.constant (.boolean true))) (stepOf body increment)] = do
            match ← (direct flat s (n - 1)).execute first with
            | .onward => directLoop flat s (condition.getD (.constant (.boolean true))) increment body (n - 2)
            | .returned value => return .returned value := by
        rw [executeAll_cons, executeAll_singleton, execute_loop directly]
        rfl
      unfold directFor
      dsimp only
      rw [← inside]
      cases increment <;> rfl

end Loop

end Scriptlet.Machine
