import Scriptlet.Proofs.Machine.Moment
import Scriptlet.Proofs.Machine.Outcome
import Scriptlet.Proofs.Machine.Region

namespace Scriptlet

namespace Machine.Task

def left (s : Setting) (n : Nat) (m : Machine) : Task → Machine
  | .evaluate e => Machine.left (Machine.evaluate s n e m)
  | .evaluateAll es => Machine.left (Machine.evaluateAll s n es m)
  | .evaluate? e => Machine.left (Machine.evaluate? s n e m)
  | .call paren f values => Machine.left (Machine.call s n paren f values m)
  | .apply callable values => Machine.left (Machine.apply s n callable values m)
  | .execute stmt => Machine.left (Machine.execute s n stmt m)
  | .executeAll stmts => Machine.left (Machine.executeAll s n stmts m)

def spot (m : Machine) : Task → Option FrameId
  | .execute _ | .executeAll _ => some m.current
  | .evaluate _ | .evaluateAll _ | .evaluate? _ | .call .. | .apply .. => none

def isCall : Task → Bool
  | .call .. => true
  | .evaluate _ | .evaluateAll _ | .evaluate? _ | .apply .. | .execute _ | .executeAll _ => false

end Machine.Task

namespace Region

open Machine

variable {region : Region} {s : Setting} {n : Nat} {m m₁ : Machine} {v : Value} {values : List Value}

theorem admits_of_plain {store : Store} (plain : v.Plain) : region.Admits store v := by
  refine admits_of_frame?_eq_none ?_
  cases v with
  | function serial callable => exact plain.elim
  | _ => rfl

variable (region) in
def AdmitsAll (store : Store) (values : List Value) : Prop :=
  ∀ v ∈ values, region.Admits store v

variable (region) in
def AdmitsFlow (store : Store) (flow : Flow) : Prop :=
  ∀ v, flow = .returned v → region.Admits store v

theorem admitsFlow_onward (store : Store) : region.AdmitsFlow store .onward := by
  rintro _ ⟨⟩

theorem admitsFlow_returned {store : Store} : region.AdmitsFlow store (.returned v) ↔ region.Admits store v :=
  ⟨fun h => h v rfl, by rintro h _ ⟨⟩; exact h⟩

variable (region) in
def AdmitsCallable (store : Store) (callable : Callable) : Prop :=
  ∀ f, callable.frame? = some f → region.inside store f

theorem Moves.admitsAll {spot : Option FrameId} (h : region.Moves spot m m₁) (admits : region.AdmitsAll m.store values) :
    region.AdmitsAll m₁.store values :=
  fun v mem => h.admits (admits v mem)

theorem admits_headD {store : Store} (all : region.AdmitsAll store values) : region.Admits store (values.headD .nil) := by
  cases values with
  | nil => exact admits_of_plain trivial
  | cons v rest => exact all v List.mem_cons_self

theorem admits_getLastD {store : Store} (all : region.AdmitsAll store values) :
    region.Admits store (values.getLastD .nil) := by
  rw [List.getLastD_eq_getLast?]
  cases last : values.getLast? with
  | none => exact admits_of_plain trivial
  | some v => exact all v (List.mem_of_getLast? last)

/-- What all procedures do with a budget, inside of a closed region. Calls do not look at the frame that they are made
in. -/
structure Confined (region : Region) (s : Setting) (n : Nat) : Prop where
  evaluate : ∀ {e m}, region.Contains m →
    region.Runs none m (evaluate s n e) fun v m' => region.Admits m'.store v
  evaluateAll : ∀ {es m}, region.Contains m →
    region.Runs none m (evaluateAll s n es) fun vs m' => region.AdmitsAll m'.store vs
  evaluate? : ∀ {e m}, region.Contains m →
    region.Runs none m (evaluate? s n e) fun v m' => region.Admits m'.store v
  call : ∀ {paren f vs m}, region.Closed m.store → region.Admits m.store f → region.AdmitsAll m.store vs →
    region.Runs none m (call s n paren f vs) fun v m' => region.Admits m'.store v
  apply : ∀ {callable vs m}, region.Closed m.store → region.AdmitsCallable m.store callable →
    region.AdmitsAll m.store vs → region.Runs none m (apply s n callable vs) fun v m' => region.Admits m'.store v
  execute : ∀ {stmt m}, region.Contains m →
    region.Runs (some m.current) m (execute s n stmt) fun flow m' => region.AdmitsFlow m'.store flow
  executeAll : ∀ {stmts m}, region.Contains m →
    region.Runs (some m.current) m (executeAll s n stmts) fun flow m' => region.AdmitsFlow m'.store flow

namespace Confined

theorem zero (region : Region) (s : Setting) : Confined region s 0 where
  evaluate contains := .stop contains.closed
  evaluateAll contains := .stop contains.closed
  evaluate? contains := .stop contains.closed
  call closed _ _ := .stop closed
  apply closed _ _ := .stop closed
  execute contains := .stop contains.closed
  executeAll contains := .stop contains.closed

variable (ih : Confined region s n)
include ih

theorem evaluate_succ (contains : region.Contains m) (e : Expr) :
    region.Runs none m (Machine.evaluate s (n + 1) e) fun v m' => region.Admits m'.store v := by
  unfold Machine.evaluate
  cases e with
  | constant value => exact .pure contains.closed (admits_of_plain (Value.plain_ofConstant value))
  | group inner => exact ih.evaluate contains
  | read id name => exact .lookUp contains s id name
  | assign id name e =>
    refine (ih.evaluate contains).bind fun v m₁ _ moves admits => ?_
    refine (Runs.assign (moves.contains contains) s id name admits).bind fun _ m₂ _ later _ => ?_
    exact .pure later.closed (later.admits admits)
  | logical operator left right =>
    refine (ih.evaluate contains).bind fun v m₁ _ moves admits => ?_
    split
    · exact .pure moves.closed admits
    · exact ih.evaluate (moves.contains contains)
  | unary operator operand =>
    refine (ih.evaluate contains).bind fun v m₁ _ moves _ => ?_
    exact .orFail moves.closed fun _ result => admits_of_plain (plain_unary result)
  | binary operator left right =>
    refine (ih.evaluate contains).bind fun x m₁ _ moves _ => ?_
    refine (ih.evaluate (moves.contains contains)).bind fun y m₂ _ later _ => ?_
    exact .orFail later.closed fun _ result => admits_of_plain (plain_binary result)
  | call callee paren arguments =>
    refine (ih.evaluate contains).bind fun f m₁ _ moves admits => ?_
    refine (ih.evaluateAll (moves.contains contains)).bind fun values m₂ _ later all => ?_
    exact ih.call later.closed (later.admits admits) all
  | index target bracket place =>
    refine (ih.evaluate contains).bind fun x m₁ _ moves _ => ?_
    refine (ih.evaluate (moves.contains contains)).bind fun y m₂ _ later _ => ?_
    exact .orFail later.closed fun _ result => admits_of_plain (plain_index result)

theorem evaluateAll_succ (contains : region.Contains m) (es : List Expr) :
    region.Runs none m (Machine.evaluateAll s (n + 1) es) fun vs m' => region.AdmitsAll m'.store vs := by
  unfold Machine.evaluateAll
  cases es with
  | nil => exact .pure contains.closed nofun
  | cons e rest =>
    refine (ih.evaluate contains).bind fun v m₁ _ moves admits => ?_
    refine (ih.evaluateAll (moves.contains contains)).bind fun vs m₂ _ later all => ?_
    exact .pure later.closed (List.forall_mem_cons.2 ⟨later.admits admits, all⟩)

theorem evaluate?_succ (contains : region.Contains m) (e : Option Expr) :
    region.Runs none m (Machine.evaluate? s (n + 1) e) fun v m' => region.Admits m'.store v := by
  unfold Machine.evaluate?
  cases e with
  | none => exact .pure contains.closed (admits_of_frame?_eq_none rfl)
  | some e => exact ih.evaluate contains

theorem call_succ {paren : Token} {f : Value} (closed : region.Closed m.store) (admits : region.Admits m.store f)
    (all : region.AdmitsAll m.store values) :
    region.Runs none m (Machine.call s (n + 1) paren f values) fun v m' => region.Admits m'.store v := by
  unfold Machine.call
  cases f with
  | function serial callable =>
    dsimp only
    split
    · exact .fail closed ..
    · refine .get rfl ?_
      split
      · exact .fail closed ..
      · exact .inCall (ih.apply (m := { m with depth := m.depth + 1 }) closed admits all) fun _ _ admits => admits
  | _ => exact .fail closed ..

theorem apply_succ {callable : Callable} (closed : region.Closed m.store)
    (admits : region.AdmitsCallable m.store callable) (all : region.AdmitsAll m.store values) :
    region.Runs none m (Machine.apply s (n + 1) callable values) fun v m' => region.Admits m'.store v := by
  unfold Machine.apply
  cases callable with
  | closure name parameters body outer =>
    refine Runs.outside (f := m.store.frames.size) ?_ (Nat.le_refl _)
    refine (Runs.newFrame closed (admits outer rfl)).bind ?_
    rintro _ m₁ _ moves ⟨rfl, there⟩
    refine (Runs.bindParameters moves.closed there (moves.admitsAll all)).bind fun _ m₂ _ later _ => ?_
    have contains : region.Contains { m₂ with current := m.store.frames.size } := ⟨later.closed, later.stays there⟩
    have body : region.Runs _ m₂ (inFrame m.store.frames.size (Machine.executeAll s n body)) fun flow m' =>
        region.AdmitsFlow m'.store flow :=
      .inFrame (ih.executeAll contains) fun _ _ admits => admits
    refine body.bind fun flow m₃ _ last admits => ?_
    cases flow with
    | onward => exact .pure last.closed (admits_of_frame?_eq_none rfl)
    | returned v => exact .pure last.closed (admits v rfl)
  | builtin builtin =>
    dsimp only
    split
    · exact .readClock closed s
    · exact .pure closed (admits_of_frame?_eq_none rfl)
    · exact .pure closed (admits_of_frame?_eq_none rfl)
    · exact .pure closed (admits_getLastD all)
    · refine (Runs.emitAll closed _).bind fun _ m₁ _ moves _ => ?_
      exact .pure moves.closed (admits_of_frame?_eq_none rfl)
    · exact .fail closed ..
    · exact ih.apply closed (all _ List.mem_cons_self) fun v mem => all v (List.mem_cons_of_mem _ mem)
    · exact .pure closed (admits_headD all)
    · exact .pure closed (admits_of_frame?_eq_none rfl)

theorem block_succ (contains : region.Contains m) (body : List Stmt) :
    region.Runs none m (Machine.execute s (n + 1) (.block body)) fun flow m' => region.AdmitsFlow m'.store flow := by
  unfold Machine.execute
  refine .get rfl (Runs.outside (f := m.store.frames.size) ?_ (Nat.le_refl _))
  refine (Runs.newFrame contains.closed contains.current).bind ?_
  rintro _ m₁ _ moves ⟨rfl, there⟩
  have inner : region.Contains { m₁ with current := m.store.frames.size } := ⟨moves.closed, there⟩
  exact .inFrame (ih.executeAll inner) fun _ _ admits => admits

theorem execute_succ (contains : region.Contains m) (stmt : Stmt) :
    region.Runs (some m.current) m (Machine.execute s (n + 1) stmt) fun flow m' => region.AdmitsFlow m'.store flow := by
  cases stmt with
  | block body => exact (ih.block_succ contains body).anywhere
  | expression e =>
    unfold Machine.execute
    refine (ih.evaluate contains).anywhere.bind fun v m₁ _ moves _ => ?_
    exact .pure moves.closed (admitsFlow_onward _)
  | print e =>
    unfold Machine.execute
    refine (ih.evaluate contains).anywhere.bind fun v m₁ _ moves _ => ?_
    refine (Runs.emit moves.closed v).bind fun _ m₂ _ later _ => ?_
    exact .pure later.closed (admitsFlow_onward _)
  | declare name initial =>
    unfold Machine.execute
    refine (ih.evaluate? contains).anywhere.bind fun v m₁ _ moves admits => ?_
    rw [← moves.current]
    refine (Runs.define (moves.contains contains) name admits).bind fun _ m₂ _ later _ => ?_
    exact .pure later.closed (admitsFlow_onward _)
  | ifThen condition yes =>
    unfold Machine.execute
    refine (ih.evaluate contains).anywhere.bind fun v m₁ _ moves _ => ?_
    split
    · exact moves.current ▸ ih.execute (moves.contains contains)
    · exact .pure moves.closed (admitsFlow_onward _)
  | ifElse condition yes no =>
    unfold Machine.execute
    refine (ih.evaluate contains).anywhere.bind fun v m₁ _ moves _ => ?_
    split
    · exact moves.current ▸ ih.execute (moves.contains contains)
    · exact moves.current ▸ ih.execute (moves.contains contains)
  | loop condition body =>
    unfold Machine.execute
    refine (ih.evaluate contains).anywhere.bind fun v m₁ _ moves _ => ?_
    split
    · rw [← moves.current]
      have inside := moves.contains contains
      refine (ih.execute inside).bind fun flow m₂ _ later admits => ?_
      cases flow with
      | onward => exact later.current ▸ ih.execute (later.contains inside)
      | returned v => exact .pure later.closed admits
    · exact .pure moves.closed (admitsFlow_onward _)
  | function name parameters body =>
    unfold Machine.execute
    refine .get rfl ?_
    refine (Runs.newFunction contains.closed _).bind fun v m₁ _ moves frame => ?_
    have admits : region.Admits m.store v := by
      intro f eq
      cases frame.symm.trans eq
      exact contains.current
    rw [← moves.current]
    refine (Runs.define (moves.contains contains) name (moves.admits admits)).bind fun _ m₂ _ later _ => ?_
    exact .pure later.closed (admitsFlow_onward _)
  | leave keyword value =>
    unfold Machine.execute
    refine (ih.evaluate? contains).anywhere.bind fun v m₁ _ moves admits => ?_
    exact .pure moves.closed (admitsFlow_returned.2 admits)

theorem executeAll_succ (contains : region.Contains m) (stmts : List Stmt) :
    region.Runs (some m.current) m (Machine.executeAll s (n + 1) stmts) fun flow m' => region.AdmitsFlow m'.store flow := by
  unfold Machine.executeAll
  cases stmts with
  | nil => exact .pure contains.closed (admitsFlow_onward _)
  | cons stmt rest =>
    refine (ih.execute contains).bind fun flow m₁ _ moves admits => ?_
    cases flow with
    | onward => exact moves.current ▸ ih.executeAll (moves.contains contains)
    | returned v => exact .pure moves.closed admits

end Confined

theorem confined (region : Region) (s : Setting) (n : Nat) : Confined region s n := by
  induction n with
  | zero => exact .zero region s
  | succ n ih =>
    exact
      { evaluate := fun contains => ih.evaluate_succ contains _
        evaluateAll := fun contains => ih.evaluateAll_succ contains _
        evaluate? := fun contains => ih.evaluate?_succ contains _
        call := fun closed admits all => ih.call_succ closed admits all
        apply := fun closed admits all => ih.apply_succ closed admits all
        execute := fun contains => ih.execute_succ contains _
        executeAll := fun contains => ih.executeAll_succ contains _ }

theorem runs_block (contains : region.Contains m) (s : Setting) (n : Nat) (body : List Stmt) :
    region.Runs none m (execute s n (.block body)) fun flow m' => region.AdmitsFlow m'.store flow := by
  cases n with
  | zero => exact .stop contains.closed
  | succ n => exact (confined region s n).block_succ contains body

theorem Runs.left {α : Type} {spot : Option FrameId} {run : Run α} {P : α → Machine → Prop}
    (h : region.Runs spot m run P) : region.Moves spot m (Machine.left (run m)) := by
  unfold Runs at h
  generalize run m = r, run (region.look m) = r' at h ⊢
  cases h with
  | ok moves post => exact moves
  | error moves => exact moves

theorem Runs.ok {α : Type} {spot : Option FrameId} {run : Run α} {P : α → Machine → Prop} {a : α}
    (h : region.Runs spot m run P) (eq : run m = .ok a m₁) : region.Moves spot m m₁ ∧ P a m₁ := by
  unfold Runs at h
  rw [eq] at h
  generalize run (region.look m) = r' at h
  cases h with
  | ok moves post => exact ⟨moves, post⟩

variable {task task' : Task}

variable (region) in
def Fits (m : Machine) : Task → Prop
  | .call _ f values => region.Admits m.store f ∧ region.AdmitsAll m.store values
  | .apply callable values => region.AdmitsCallable m.store callable ∧ region.AdmitsAll m.store values
  | .evaluate _ | .evaluateAll _ | .evaluate? _ | .execute _ | .executeAll _ => region.inside m.store m.current

structure Ready (region : Region) (task : Task) (m : Machine) : Prop where
  closed : region.Closed m.store
  fits : region.Fits m task

structure Leads (region : Region) (task : Task) (m : Machine) (task' : Task) (m₁ : Machine) : Prop where
  ready : region.Ready task' m₁
  size : m.store.frames.size ≤ m₁.store.frames.size
  depth : m₁.depth = m.depth + task.isCall.toNat

theorem Ready.left (ready : region.Ready task m) (s : Setting) (n : Nat) :
    region.Moves (task.spot m) m (task.left s n m) := by
  have all := confined region s n
  obtain ⟨closed, fits⟩ := ready
  cases task with
  | evaluate e => exact (all.evaluate ⟨closed, fits⟩).left
  | evaluateAll es => exact (all.evaluateAll ⟨closed, fits⟩).left
  | evaluate? e => exact (all.evaluate? ⟨closed, fits⟩).left
  | call paren f values => exact (all.call closed fits.1 fits.2).left
  | apply callable values => exact (all.apply closed fits.1 fits.2).left
  | execute stmt => exact (all.execute ⟨closed, fits⟩).left
  | executeAll stmts => exact (all.executeAll ⟨closed, fits⟩).left

theorem Moves.leads {spot : Option FrameId} (moves : region.Moves spot m m₁) (still : task.isCall = false)
    (fits : region.Fits m₁ task') : region.Leads task m task' m₁ := by
  refine ⟨⟨moves.closed, fits⟩, moves.grows.size, ?_⟩
  rw [moves.depth, still, Bool.toNat_false, Nat.add_zero]

theorem Contains.leads {e : Expr} (contains : region.Contains m) (still : task.isCall = false)
    (first : evaluate s n e m = .ok v m₁) (fits : region.inside m₁.store m₁.current → region.Fits m₁ task') :
    region.Leads task m task' m₁ := by
  obtain ⟨moves, _⟩ := ((confined region s n).evaluate contains).ok first
  exact moves.leads still (fits (moves.contains contains).current)

section Enter

variable (closed : region.Closed m.store)
include closed

theorem evaluate_leads {e : Expr} (there : region.inside m.store m.current)
    (enters : Enters s n (.evaluate e) m task' m₁) : region.Leads (.evaluate e) m task' m₁ := by
  have all := confined region s n
  have contains : region.Contains m := ⟨closed, there⟩
  have here : region.Moves none m m := .refl none closed
  cases enters with
  | group => exact here.leads rfl there
  | assign => exact here.leads rfl there
  | logicalLeft => exact here.leads rfl there
  | unary => exact here.leads rfl there
  | binaryLeft => exact here.leads rfl there
  | callee => exact here.leads rfl there
  | indexTarget => exact here.leads rfl there
  | logicalRight first undecided => exact contains.leads rfl first id
  | binaryRight first => exact contains.leads rfl first id
  | indexPlace first => exact contains.leads rfl first id
  | arguments first => exact contains.leads rfl first id
  | call first second =>
    obtain ⟨moves, admits⟩ := (all.evaluate contains).ok first
    obtain ⟨later, values⟩ := (all.evaluateAll (moves.contains contains)).ok second
    exact (moves.trans later).leads rfl ⟨later.admits admits, values⟩

theorem apply_leads {callable : Callable} (admits : region.AdmitsCallable m.store callable)
    (all : region.AdmitsAll m.store values) (enters : Enters s n (.apply callable values) m task' m₁) :
    region.Leads (.apply callable values) m task' m₁ := by
  cases enters with
  | closure opened bound =>
    have framed : region.Runs none m _ _ := .newFrame closed (admits _ rfl)
    obtain ⟨moves, rfl, there⟩ := framed.ok opened
    obtain ⟨later, _⟩ := (Runs.bindParameters moves.closed there (moves.admitsAll all)).ok bound
    have moved := (moves.anywhere _).trans later
    exact ⟨⟨moved.closed, later.stays there⟩, moved.grows.size, moved.depth⟩
  | builtin applies =>
    refine (Moves.refl none closed).leads rfl ⟨all _ List.mem_cons_self, ?_⟩
    exact fun v mem => all v (List.mem_cons_of_mem _ mem)

theorem execute_leads {stmt : Stmt} (there : region.inside m.store m.current)
    (enters : Enters s n (.execute stmt) m task' m₁) : region.Leads (.execute stmt) m task' m₁ := by
  have all := confined region s n
  have contains : region.Contains m := ⟨closed, there⟩
  have here : region.Moves none m m := .refl none closed
  cases enters with
  | expression => exact here.leads rfl there
  | print => exact here.leads rfl there
  | declare => exact here.leads rfl there
  | leave => exact here.leads rfl there
  | ifThenCondition => exact here.leads rfl there
  | ifElseCondition => exact here.leads rfl there
  | loopCondition => exact here.leads rfl there
  | block opened =>
    have framed : region.Runs none m _ _ := .newFrame closed there
    obtain ⟨moves, rfl, inner⟩ := framed.ok opened
    exact ⟨⟨moves.closed, inner⟩, moves.grows.size, moves.depth⟩
  | ifThenYes first holds => exact contains.leads rfl first id
  | ifElseYes first holds => exact contains.leads rfl first id
  | ifElseNo first fails => exact contains.leads rfl first id
  | loopBody first holds => exact contains.leads rfl first id
  | loopAgain first holds second =>
    obtain ⟨moves, _⟩ := (all.evaluate contains).ok first
    obtain ⟨later, _⟩ := (all.execute (moves.contains contains)).ok second
    have moved := (moves.anywhere _).trans later
    exact moved.leads rfl (moved.contains contains).current

end Enter

theorem Ready.enter (ready : region.Ready task m) (enters : Enters s n task m task' m₁) :
    region.Leads task m task' m₁ := by
  have all := confined region s n
  obtain ⟨closed, fits⟩ := ready
  cases task with
  | evaluate e => exact evaluate_leads closed fits enters
  | apply callable values => exact apply_leads closed fits.1 fits.2 enters
  | execute stmt => exact execute_leads closed fits enters
  | evaluateAll es =>
    cases enters with
    | head => exact (Moves.refl none closed).leads rfl fits
    | tail first => exact Contains.leads ⟨closed, fits⟩ rfl first id
  | evaluate? e =>
    cases enters
    exact (Moves.refl none closed).leads rfl fits
  | call paren f values =>
    cases enters with
    | apply arity shallow => exact ⟨⟨closed, fits⟩, Nat.le_refl _, rfl⟩
  | executeAll stmts =>
    cases enters with
    | first => exact (Moves.refl none closed).leads rfl fits
    | next first =>
      have contains : region.Contains m := ⟨closed, fits⟩
      obtain ⟨moves, _⟩ := (all.execute contains).ok first
      exact moves.leads rfl (moves.contains contains).current

/-- Every task that is begun in the course of a run is inside of the region. -/
theorem Ready.visit {k : Nat} (ready : region.Ready task m) (visits : Visits s n task m k task' m₁) :
    region.Ready task' m₁ := by
  induction visits with
  | here => exact ready
  | step enters later ih => exact ih (ready.enter enters).ready

def plain (inside : Store → FrameId → Prop)
    (inside_update : ∀ {s f} (id : FrameId) (change : Bindings → Bindings), inside (s.update id change) f ↔ inside s f)
    (inside_child : ∀ {s parent f}, inside s parent →
      (inside (s.child parent).2 f ↔ inside s f ∨ f = s.frames.size)) : Region where
  inside := inside
  view s := s
  inside_update := inside_update
  inside_child := inside_child
  parent?_view _ _ := rfl
  find?_view _ _ := rfl
  update_view _ _ := rfl
  child_view _ := rfl

def everywhere : Region :=
  plain (fun _ _ => True) (fun _ _ => Iff.rfl) fun there => ⟨fun _ => .inl there, fun _ => trivial⟩

theorem contains_everywhere (m : Machine) : everywhere.Contains m :=
  ⟨⟨trivial, fun _ _ => trivial, fun _ _ _ _ => trivial⟩, trivial⟩

theorem ready_everywhere (task : Task) (m : Machine) : everywhere.Ready task m := by
  refine ⟨(contains_everywhere m).closed, ?_⟩
  cases task with
  | call paren f values => exact ⟨fun _ _ => trivial, fun _ _ _ _ => trivial⟩
  | apply callable values => exact ⟨fun _ _ => trivial, fun _ _ _ _ => trivial⟩
  | _ => trivial

end Region
end Scriptlet
