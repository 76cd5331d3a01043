import Scriptlet.Proofs.Machine.Moment
import Scriptlet.Proofs.Machine.Outcome

/-!
Addresses agree with frames at every moment of a run. A task is ready on a machine when everything that it will evaluate
agrees with the machine. Whatever a ready task enters is ready in turn, since what was run before it has only made the
store grow.
-/

namespace Scriptlet.Directory

open Machine

variable {directory : Directory} {clock : Nat → Float} {n : Nat} {m m₁ : Machine} {task task' : Task}
  {scopes : Scopes}

def AgreesAll (directory : Directory) (m : Machine) (uses : List Use) : Prop :=
  ∀ u ∈ uses, directory.Agrees m u

namespace AgreesAll

variable {us vs : List Use}

theorem append_iff : directory.AgreesAll m (us ++ vs) ↔ directory.AgreesAll m us ∧ directory.AgreesAll m vs :=
  List.forall_mem_append

theorem step (h : directory.AgreesAll m us) (valid : directory.Valid m) (steps : directory.Steps none m m₁) :
    directory.AgreesAll m₁ us :=
  fun u mem => (h u mem).step valid steps

end AgreesAll

def Fits (directory : Directory) (m : Machine) : Task → Prop
  | .evaluate e => directory.AgreesAll m e.uses
  | .evaluateAll es => directory.AgreesAll m (Expr.usesIn es)
  | .evaluate? e => directory.AgreesAll m ((e.map Expr.uses).getD [])
  | .call _ f values => directory.AdmitsValue m.store f ∧ ∀ v ∈ values, directory.AdmitsValue m.store v
  | .apply callable values =>
    directory.Admits m.store callable ∧ values.length = callable.arity ∧ ∀ v ∈ values, directory.AdmitsValue m.store v
  | .execute stmt => ∃ scopes, m.store.Renders m.current scopes ∧ directory.Knows scopes [stmt]
  | .executeAll stmts => ∃ scopes, m.store.Renders m.current scopes ∧ directory.Knows scopes stmts

structure Ready (directory : Directory) (task : Task) (m : Machine) : Prop where
  valid : directory.Valid m
  fits : directory.Fits m task

/-- A premature assignment that is evaluated at some moment of a run and gets a value to assign. -/
def Blames (directory : Directory) (clock : Nat → Float) (n : Nat) (task : Task) (m : Machine) (d : Defect) : Prop :=
  ∃ k id name value m' v m'',
    Visits (directory.setting clock) n task m (k + 1) (.evaluate (.assign id name value)) m' ∧
      evaluate (directory.setting clock) k value m' = .ok v m'' ∧ directory.premature id ∧ d = .unbound name.lexeme 0

theorem Blames.enter {d : Defect} (enters : Enters (directory.setting clock) n task m task' m₁)
    (h : directory.Blames clock n task' m₁ d) : directory.Blames clock (n + 1) task m d := by
  obtain ⟨k, id, name, value, m', v, m'', visits, rest⟩ := h
  exact ⟨k, id, name, value, m', v, m'', .step enters visits, rest⟩

def AdmitsFlow (directory : Directory) (store : Store) (flow : Flow) : Prop :=
  ∀ v, flow = .returned v → directory.AdmitsValue store v

@[simp] theorem admitsFlow_onward (store : Store) : directory.AdmitsFlow store .onward := by
  rintro _ ⟨⟩

def Follows (directory : Directory) (scopes : Scopes) (flow : Flow) (m : Machine) : Prop :=
  (flow = .onward → m.store.Renders m.current scopes) ∧ directory.AdmitsFlow m.store flow

theorem Follows.onward (renders : m.store.Renders m.current scopes) : directory.Follows scopes .onward m :=
  ⟨fun _ => renders, admitsFlow_onward _⟩

theorem Follows.returned {v : Value} (admits : directory.AdmitsFlow m.store (.returned v)) :
    directory.Follows scopes (.returned v) m :=
  ⟨nofun, admits⟩

structure Sound (directory : Directory) (clock : Nat → Float) (n : Nat) : Prop where
  evaluate : ∀ {e m}, directory.Ready (.evaluate e) m →
    Ends directory none (directory.Blames clock n (.evaluate e) m) m (evaluate (directory.setting clock) n e)
      fun v m' => directory.AdmitsValue m'.store v
  evaluateAll : ∀ {es m}, directory.Ready (.evaluateAll es) m →
    Ends directory none (directory.Blames clock n (.evaluateAll es) m) m (evaluateAll (directory.setting clock) n es)
      fun vs m' => ∀ v ∈ vs, directory.AdmitsValue m'.store v
  evaluate? : ∀ {e m}, directory.Ready (.evaluate? e) m →
    Ends directory none (directory.Blames clock n (.evaluate? e) m) m (evaluate? (directory.setting clock) n e)
      fun v m' => directory.AdmitsValue m'.store v
  call : ∀ {paren f values m}, directory.Ready (.call paren f values) m →
    Ends directory none (directory.Blames clock n (.call paren f values) m) m
      (call (directory.setting clock) n paren f values) fun v m' => directory.AdmitsValue m'.store v
  apply : ∀ {callable values m}, directory.Ready (.apply callable values) m →
    Ends directory none (directory.Blames clock n (.apply callable values) m) m
      (apply (directory.setting clock) n callable values) fun v m' => directory.AdmitsValue m'.store v
  execute : ∀ {stmt m scopes}, directory.Valid m → m.store.Renders m.current scopes →
    directory.Knows scopes [stmt] →
    Ends directory (some m.current) (directory.Blames clock n (.execute stmt) m) m
      (execute (directory.setting clock) n stmt) (directory.Follows (stmt.after scopes))
  executeAll : ∀ {stmts m}, directory.Ready (.executeAll stmts) m →
    Ends directory (some m.current) (directory.Blames clock n (.executeAll stmts) m) m
      (executeAll (directory.setting clock) n stmts) fun flow m' => directory.AdmitsFlow m'.store flow

theorem Steps.renders (steps : directory.Steps none m m₁) (h : m.store.Renders m.current scopes) :
    m₁.store.Renders m₁.current scopes :=
  steps.current.symm ▸ h.grow steps.grows

namespace Sound

variable {e : Expr} {es : List Expr} {v : Value} {values : List Value} {stmt : Stmt} {stmts : List Stmt}
  {callable : Callable}

theorem evaluated (sound : Sound directory clock n) {us : List Use} (valid : directory.Valid m)
    (fits : directory.AgreesAll m (e.uses ++ us)) (run : Machine.evaluate (directory.setting clock) n e m = .ok v m₁) :
    directory.Valid m₁ ∧ directory.AgreesAll m₁ us ∧ directory.AdmitsValue m₁.store v := by
  obtain ⟨first, rest⟩ := AgreesAll.append_iff.1 fits
  obtain ⟨steps, admits⟩ := (sound.evaluate ⟨valid, first⟩).ok run
  exact ⟨steps.valid, rest.step valid steps, admits⟩

theorem enter_evaluate (sound : Sound directory clock n) (ready : directory.Ready (.evaluate e) m)
    (enters : Enters (directory.setting clock) n (.evaluate e) m task' m₁) : directory.Ready task' m₁ := by
  obtain ⟨valid, fits⟩ := ready
  cases enters with
  | group => exact ⟨valid, fits⟩
  | unary => exact ⟨valid, fits⟩
  | assign => exact ⟨valid, (AgreesAll.append_iff.1 fits).1⟩
  | logicalLeft => exact ⟨valid, (AgreesAll.append_iff.1 fits).1⟩
  | binaryLeft => exact ⟨valid, (AgreesAll.append_iff.1 fits).1⟩
  | callee => exact ⟨valid, (AgreesAll.append_iff.1 fits).1⟩
  | indexTarget => exact ⟨valid, (AgreesAll.append_iff.1 fits).1⟩
  | logicalRight first undecided =>
    obtain ⟨valid, rest, _⟩ := sound.evaluated valid fits first
    exact ⟨valid, rest⟩
  | binaryRight first =>
    obtain ⟨valid, rest, _⟩ := sound.evaluated valid fits first
    exact ⟨valid, rest⟩
  | indexPlace first =>
    obtain ⟨valid, rest, _⟩ := sound.evaluated valid fits first
    exact ⟨valid, rest⟩
  | arguments first =>
    obtain ⟨valid, rest, _⟩ := sound.evaluated valid fits first
    exact ⟨valid, rest⟩
  | call first second =>
    obtain ⟨valid, rest, admits⟩ := sound.evaluated valid fits first
    obtain ⟨steps, values⟩ := (sound.evaluateAll ⟨valid, rest⟩).ok second
    exact ⟨steps.valid, admits.grow steps.grows, values⟩

theorem enter_evaluateAll (sound : Sound directory clock n) (ready : directory.Ready (.evaluateAll es) m)
    (enters : Enters (directory.setting clock) n (.evaluateAll es) m task' m₁) : directory.Ready task' m₁ := by
  obtain ⟨valid, fits⟩ := ready
  cases enters with
  | head => exact ⟨valid, (AgreesAll.append_iff.1 fits).1⟩
  | tail first =>
    obtain ⟨valid, rest, _⟩ := sound.evaluated valid fits first
    exact ⟨valid, rest⟩

theorem renders_bound {outer frame : FrameId} {parameters : List Token} {m₂ : Machine} (valid : directory.Valid m)
    (covers : m.store.Covers outer scopes) (opened : newFrame outer m = .ok frame m₁)
    (same : values.length = parameters.length) (fits : ∀ v ∈ values, directory.AdmitsValue m.store v)
    (bound : bindParameters frame parameters values m₁ = .ok () m₂) :
    directory.Valid m₂ ∧ m₂.store.Renders frame (Scopes.parameters parameters :: scopes) := by
  cases opened
  have opened := Steps.child none valid outer
  have called : Ends directory _ (fun _ => False) _ _ _ :=
    .bindParameters opened.valid (.child covers) same fun v mem => (fits v mem).grow opened.grows
  obtain ⟨steps, renders⟩ := called.ok bound
  rw [List.append_nil] at renders
  exact ⟨steps.valid, renders⟩

theorem enter_apply (ready : directory.Ready (.apply callable values) m)
    (enters : Enters (directory.setting clock) n (.apply callable values) m task' m₁) :
    directory.Ready task' m₁ := by
  obtain ⟨valid, admits, same, fits⟩ := ready
  cases enters with
  | closure opened bound =>
    obtain ⟨⟨scopes, covers, knows⟩, _⟩ := admits
    obtain ⟨valid, renders⟩ := renders_bound valid covers opened same fits bound
    exact ⟨⟨renders.covers.lt_size, valid.values⟩, _, renders, knows⟩
  | builtin applies => cases admits.symm.trans applies

theorem tested (sound : Sound directory clock n) (valid : directory.Valid m)
    (renders : m.store.Renders m.current scopes) (fits : directory.AgreesAll m e.uses)
    (run : Machine.evaluate (directory.setting clock) n e m = .ok v m₁) :
    directory.Valid m₁ ∧ m₁.store.Renders m₁.current scopes := by
  obtain ⟨steps, _⟩ := (sound.evaluate ⟨valid, fits⟩).ok run
  exact ⟨steps.valid, steps.renders renders⟩

theorem tested? {e : Option Expr} (sound : Sound directory clock n) (valid : directory.Valid m)
    (renders : m.store.Renders m.current scopes) (fits : directory.AgreesAll m ((e.map Expr.uses).getD []))
    (run : Machine.evaluate? (directory.setting clock) n e m = .ok v m₁) :
    directory.Valid m₁ ∧ m₁.store.Renders m₁.current scopes := by
  obtain ⟨steps, _⟩ := (sound.evaluate? ⟨valid, fits⟩).ok run
  exact ⟨steps.valid, steps.renders renders⟩

theorem enter_execute (sound : Sound directory clock n) (ready : directory.Ready (.execute stmt) m)
    (enters : Enters (directory.setting clock) n (.execute stmt) m task' m₁) : directory.Ready task' m₁ := by
  obtain ⟨valid, scopes, renders, knows⟩ := ready
  cases enters with
  | expression => exact ⟨valid, knows.agrees renders⟩
  | print => exact ⟨valid, knows.agrees renders⟩
  | declare => exact ⟨valid, knows.agrees renders⟩
  | leave => exact ⟨valid, knows.agrees renders⟩
  | ifThenCondition => exact ⟨valid, knows.agrees renders⟩
  | ifElseCondition => exact ⟨valid, knows.agrees renders⟩
  | loopCondition => exact ⟨valid, knows.agrees renders⟩
  | block opened =>
    cases opened
    have opened := Steps.child none valid m.current
    have inner := Store.Renders.child renders.covers
    exact ⟨⟨inner.covers.lt_size, opened.valid.values⟩, _, inner, knows.block⟩
  | ifThenYes first holds =>
    obtain ⟨valid, renders⟩ := sound.tested valid renders (knows.agrees renders) first
    exact ⟨valid, scopes, renders, knows.ifThen⟩
  | ifElseYes first holds =>
    obtain ⟨valid, renders⟩ := sound.tested valid renders (knows.agrees renders) first
    exact ⟨valid, scopes, renders, knows.ifElse.1⟩
  | ifElseNo first fails =>
    obtain ⟨valid, renders⟩ := sound.tested valid renders (knows.agrees renders) first
    exact ⟨valid, scopes, renders, knows.ifElse.2⟩
  | loopBody first holds =>
    obtain ⟨valid, renders⟩ := sound.tested valid renders (knows.agrees renders) first
    exact ⟨valid, scopes, renders, knows.loop⟩
  | loopAgain first holds second =>
    obtain ⟨valid, renders⟩ := sound.tested valid renders (knows.agrees renders) first
    obtain ⟨steps, follows⟩ := (sound.execute valid renders knows.loop).ok second
    rw [Stmt.after_of_not_declaration knows.plain.1.1] at follows
    exact ⟨steps.valid, scopes, follows.1 rfl, knows⟩

theorem enter_executeAll (sound : Sound directory clock n) (ready : directory.Ready (.executeAll stmts) m)
    (enters : Enters (directory.setting clock) n (.executeAll stmts) m task' m₁) : directory.Ready task' m₁ := by
  obtain ⟨valid, scopes, renders, knows⟩ := ready
  cases enters with
  | first => exact ⟨valid, scopes, renders, knows.head⟩
  | next first =>
    obtain ⟨steps, follows⟩ := (sound.execute valid renders knows.head).ok first
    exact ⟨steps.valid, _, follows.1 rfl, knows.tail⟩

theorem enter (sound : Sound directory clock n) (ready : directory.Ready task m)
    (enters : Enters (directory.setting clock) n task m task' m₁) : directory.Ready task' m₁ := by
  cases task with
  | evaluate e => exact sound.enter_evaluate ready enters
  | evaluateAll es => exact sound.enter_evaluateAll ready enters
  | evaluate? e =>
    cases enters
    exact ⟨ready.valid, ready.fits⟩
  | call paren f values =>
    cases enters with
    | apply arity shallow =>
      obtain ⟨valid, admits, fits⟩ := ready
      exact ⟨⟨valid.current, valid.values⟩, admits _ _ rfl, arity, fits⟩
  | apply callable values => exact enter_apply ready enters
  | execute stmt => exact sound.enter_execute ready enters
  | executeAll stmts => exact sound.enter_executeAll ready enters

section Entered

variable (sound : Sound directory clock n) (ready : directory.Ready task m)
include sound ready

theorem evaluating (enters : Enters (directory.setting clock) n task m (.evaluate e) m₁) :
    Ends directory none (directory.Blames clock (n + 1) task m) m₁ (Machine.evaluate (directory.setting clock) n e)
      fun v m' => directory.AdmitsValue m'.store v :=
  (sound.evaluate (sound.enter ready enters)).blaming fun _ => .enter enters

theorem evaluatingAll (enters : Enters (directory.setting clock) n task m (.evaluateAll es) m₁) :
    Ends directory none (directory.Blames clock (n + 1) task m) m₁ (Machine.evaluateAll (directory.setting clock) n es)
      fun vs m' => ∀ v ∈ vs, directory.AdmitsValue m'.store v :=
  (sound.evaluateAll (sound.enter ready enters)).blaming fun _ => .enter enters

theorem evaluating? {e : Option Expr} (enters : Enters (directory.setting clock) n task m (.evaluate? e) m₁) :
    Ends directory none (directory.Blames clock (n + 1) task m) m₁ (Machine.evaluate? (directory.setting clock) n e)
      fun v m' => directory.AdmitsValue m'.store v :=
  (sound.evaluate? (sound.enter ready enters)).blaming fun _ => .enter enters

theorem calling {paren : Token} {f : Value}
    (enters : Enters (directory.setting clock) n task m (.call paren f values) m₁) :
    Ends directory none (directory.Blames clock (n + 1) task m) m₁
      (Machine.call (directory.setting clock) n paren f values) fun v m' => directory.AdmitsValue m'.store v :=
  (sound.call (sound.enter ready enters)).blaming fun _ => .enter enters

theorem applying (enters : Enters (directory.setting clock) n task m (.apply callable values) m₁) :
    Ends directory none (directory.Blames clock (n + 1) task m) m₁
      (Machine.apply (directory.setting clock) n callable values) fun v m' => directory.AdmitsValue m'.store v :=
  (sound.apply (sound.enter ready enters)).blaming fun _ => .enter enters

theorem executingAll (enters : Enters (directory.setting clock) n task m (.executeAll stmts) m₁) :
    Ends directory (some m₁.current) (directory.Blames clock (n + 1) task m) m₁
      (Machine.executeAll (directory.setting clock) n stmts) fun flow m' => directory.AdmitsFlow m'.store flow :=
  (sound.executeAll (sound.enter ready enters)).blaming fun _ => .enter enters

end Entered

theorem executing (sound : Sound directory clock n) (valid : directory.Valid m₁)
    (renders : m₁.store.Renders m₁.current scopes) (knows : directory.Knows scopes [stmt])
    (plain : stmt.isDeclaration = false) (same : m₁.current = m.current)
    (enters : Enters (directory.setting clock) n task m (.execute stmt) m₁) :
    Ends directory (some m.current) (directory.Blames clock (n + 1) task m) m₁
      (Machine.execute (directory.setting clock) n stmt) (directory.Follows scopes) := by
  have run := sound.execute valid renders knows
  rw [Stmt.after_of_not_declaration plain, same] at run
  exact run.blaming fun _ => .enter enters

theorem evaluate_succ (sound : Sound directory clock n) (ready : directory.Ready (.evaluate e) m) :
    Ends directory none (directory.Blames clock (n + 1) (.evaluate e) m) m
      (Machine.evaluate (directory.setting clock) (n + 1) e) fun v m' => directory.AdmitsValue m'.store v := by
  unfold Machine.evaluate
  cases e with
  | constant value => exact .pure ready.valid (admitsValue_ofConstant value)
  | group inner => exact sound.evaluating ready .group
  | read id name => exact .lookUp ready.valid (ready.fits _ (by simp [Expr.uses]))
  | assign id name value =>
    refine (sound.evaluating ready .assign).bind fun v m₁ first steps admits => ?_
    have agrees : directory.Agrees m ⟨id, name, true⟩ := ready.fits _ (by simp [Expr.uses])
    refine Ends.bind (P := fun _ _ => True) ?_ fun _ m₂ _ later _ => .pure later.valid (admits.grow later.grows)
    exact .assign steps.valid (agrees.step ready.valid steps) admits fun premature =>
      ⟨n, id, name, value, m, v, m₁, .here .., first, premature, rfl⟩
  | logical operator left right =>
    refine (sound.evaluating ready .logicalLeft).bind fun v m₁ first steps admits => ?_
    split
    · exact .pure steps.valid admits
    · next undecided => exact sound.evaluating ready (.logicalRight first (by simpa using undecided))
  | unary operator operand =>
    refine (sound.evaluating ready .unary).bind fun v m₁ _ steps _ => ?_
    exact .orFail steps.valid fun _ => admitsValue_unary
  | binary operator left right =>
    refine (sound.evaluating ready .binaryLeft).bind fun x m₁ first _ _ => ?_
    refine (sound.evaluating ready (.binaryRight first)).bind fun y m₂ _ steps _ => ?_
    exact .orFail steps.valid fun _ => admitsValue_binary
  | call callee paren arguments =>
    refine (sound.evaluating ready .callee).bind fun f m₁ first _ _ => ?_
    refine (sound.evaluatingAll ready (.arguments first)).bind fun values m₂ second _ _ => ?_
    exact sound.calling ready (.call first second)
  | index target bracket place =>
    refine (sound.evaluating ready .indexTarget).bind fun x m₁ first _ _ => ?_
    refine (sound.evaluating ready (.indexPlace first)).bind fun y m₂ _ steps _ => ?_
    exact .orFail steps.valid fun _ => admitsValue_index

theorem evaluateAll_succ (sound : Sound directory clock n) (ready : directory.Ready (.evaluateAll es) m) :
    Ends directory none (directory.Blames clock (n + 1) (.evaluateAll es) m) m
      (Machine.evaluateAll (directory.setting clock) (n + 1) es)
      fun vs m' => ∀ v ∈ vs, directory.AdmitsValue m'.store v := by
  unfold Machine.evaluateAll
  cases es with
  | nil => exact .pure ready.valid nofun
  | cons e rest =>
    refine (sound.evaluating ready .head).bind fun v m₁ first _ admits => ?_
    refine (sound.evaluatingAll ready (.tail first)).bind fun vs m₂ _ steps others => .pure steps.valid ?_
    exact List.forall_mem_cons.2 ⟨admits.grow steps.grows, others⟩

theorem evaluate?_succ {e : Option Expr} (sound : Sound directory clock n)
    (ready : directory.Ready (.evaluate? e) m) :
    Ends directory none (directory.Blames clock (n + 1) (.evaluate? e) m) m
      (Machine.evaluate? (directory.setting clock) (n + 1) e) fun v m' => directory.AdmitsValue m'.store v := by
  unfold Machine.evaluate?
  cases e with
  | none => exact .pure ready.valid admitsValue_nil
  | some e => exact sound.evaluating ready .some

theorem call_succ {paren : Token} {f : Value} (sound : Sound directory clock n)
    (ready : directory.Ready (.call paren f values) m) :
    Ends directory none (directory.Blames clock (n + 1) (.call paren f values) m) m
      (Machine.call (directory.setting clock) (n + 1) paren f values) fun v m' => directory.AdmitsValue m'.store v := by
  unfold Machine.call
  cases f with
  | function serial callable =>
    dsimp only
    split
    · exact .fail ready.valid ..
    · next arity =>
      apply Ends.get
      split
      · exact .fail ready.valid ..
      · next shallow =>
        have applied := sound.applying ready (.apply (Decidable.not_not.1 arity) (Nat.not_le.1 shallow))
        exact .inCall applied fun _ _ admits => admits
  | _ => exact .fail ready.valid ..

theorem apply_succ (sound : Sound directory clock n) (ready : directory.Ready (.apply callable values) m) :
    Ends directory none (directory.Blames clock (n + 1) (.apply callable values) m) m
      (Machine.apply (directory.setting clock) (n + 1) callable values) fun v m' =>
        directory.AdmitsValue m'.store v := by
  obtain ⟨valid, admits, same, fits⟩ := id ready
  unfold Machine.apply
  cases callable with
  | closure name parameters body outer =>
    obtain ⟨⟨scopes, covers, knows⟩, _⟩ := admits
    -- the whole call is a run in one frame, which is not there at its start
    refine Ends.outside (f := m.store.frames.size) ?_ (Nat.le_refl _)
    refine (Ends.newFrame valid outer).bind ?_
    rintro _ _ opened steps ⟨rfl, rfl⟩
    refine Ends.bind (.bindParameters steps.valid (.child covers) same fun v mem => (fits v mem).grow steps.grows) ?_
    intro _ m₂ bound later _
    have body := sound.executingAll ready (.closure opened bound)
    refine Ends.bind (P := fun flow m' => directory.AdmitsFlow m'.store flow) ?_ fun flow m₃ _ last admits => ?_
    · exact .inFrame later.valid body fun _ _ admits => admits
    cases flow with
    | onward => exact .pure last.valid admitsValue_nil
    | returned v => exact .pure last.valid (admits v rfl)
  | builtin builtin =>
    have clock : builtin.action = .clock := admits
    simp only [clock]
    exact .readClock valid _

theorem execute_succ (sound : Sound directory clock n) (valid : directory.Valid m)
    (renders : m.store.Renders m.current scopes) (knows : directory.Knows scopes [stmt]) :
    Ends directory (some m.current) (directory.Blames clock (n + 1) (.execute stmt) m) m
      (Machine.execute (directory.setting clock) (n + 1) stmt) (directory.Follows (stmt.after scopes)) := by
  have ready : directory.Ready (.execute stmt) m := ⟨valid, scopes, renders, knows⟩
  unfold Machine.execute
  cases stmt with
  | expression e =>
    refine (sound.evaluating ready .expression).anywhere.bind fun v m₁ first _ _ => ?_
    obtain ⟨valid, renders⟩ := sound.tested valid renders (knows.agrees renders) first
    exact .pure valid (.onward renders)
  | print e =>
    refine (sound.evaluating ready .print).anywhere.bind fun v m₁ first _ _ => ?_
    obtain ⟨valid, renders⟩ := sound.tested valid renders (knows.agrees renders) first
    refine (Ends.emit valid v).bind fun _ m₂ _ steps ⟨store, current⟩ => .pure steps.valid (.onward ?_)
    rw [store, current]
    exact renders
  | declare name initial =>
    refine (sound.evaluating? ready .declare).anywhere.bind fun v m₁ first steps admits => ?_
    obtain ⟨valid, renders⟩ := sound.tested? valid renders (knows.agrees renders) first
    have grows := Store.Grows.add renders.covers.lt_size name.lexeme v
    rw [← steps.current]
    refine (Ends.define valid renders name (admits.grow grows)).bind fun _ m₂ _ later renders => ?_
    exact .pure later.valid (.onward renders)
  | block body =>
    apply Ends.get
    refine (Ends.imp (P := fun flow m' => directory.AdmitsFlow m'.store flow) ?_ ?_).anywhere
    · refine Ends.outside (f := m.store.frames.size) ?_ (Nat.le_refl _)
      refine (Ends.newFrame valid m.current).bind ?_
      rintro _ _ opened steps ⟨rfl, rfl⟩
      exact .inFrame steps.valid (sound.executingAll ready (.block opened)) fun _ _ admits => admits
    · exact fun flow m' steps admits => ⟨fun _ => steps.renders renders, admits⟩
  | ifThen condition yes =>
    refine (sound.evaluating ready .ifThenCondition).anywhere.bind fun v m₁ first steps _ => ?_
    obtain ⟨valid, renders⟩ := sound.tested valid renders (knows.agrees renders) first
    split
    · next holds =>
      exact sound.executing valid renders knows.ifThen knows.plain.1.1 steps.current (.ifThenYes first holds)
    · exact .pure valid (.onward renders)
  | ifElse condition yes no =>
    refine (sound.evaluating ready .ifElseCondition).anywhere.bind fun v m₁ first steps _ => ?_
    obtain ⟨valid, renders⟩ := sound.tested valid renders (knows.agrees renders) first
    split
    · next holds =>
      exact sound.executing valid renders knows.ifElse.1 knows.plain.1.1.1 steps.current (.ifElseYes first holds)
    · next fails =>
      have entered := Bool.eq_false_iff.2 fails
      exact sound.executing valid renders knows.ifElse.2 knows.plain.1.2.1 steps.current (.ifElseNo first entered)
  | loop condition body =>
    refine (sound.evaluating ready .loopCondition).anywhere.bind fun v m₁ first steps _ => ?_
    obtain ⟨valid, renders⟩ := sound.tested valid renders (knows.agrees renders) first
    split
    · next holds =>
      have round := sound.executing valid renders knows.loop knows.plain.1.1 steps.current (.loopBody first holds)
      refine round.bind fun flow m₂ second later follows => ?_
      cases flow with
      | onward =>
        have same := later.current.trans steps.current
        exact sound.executing later.valid (follows.1 rfl) knows rfl same (.loopAgain first holds second)
      | returned v => exact .pure later.valid (.returned follows.2)
    · exact .pure valid (.onward renders)
  | function name parameters body =>
    apply Ends.get
    refine (Ends.newFunction valid _).bind fun v m₁ _ steps ⟨⟨serial, function⟩, store, current⟩ => ?_
    have renders : m₁.store.Renders m₁.current scopes := store ▸ current ▸ renders
    rw [← current] at function ⊢
    refine (Ends.define steps.valid renders name ?_).bind fun _ m₂ _ later renders => ?_
    · -- the body may call the function by its name, which the definition itself binds
      rintro _ _ same
      cases function.symm.trans same
      exact knows.admits (renders.add name.lexeme v).covers
    · exact .pure later.valid (.onward renders)
  | leave keyword value =>
    refine (sound.evaluating? ready .leave).anywhere.bind fun v m₁ _ steps admits => .pure steps.valid (.returned ?_)
    rintro _ ⟨⟩
    exact admits

theorem executeAll_succ (sound : Sound directory clock n) (ready : directory.Ready (.executeAll stmts) m) :
    Ends directory (some m.current) (directory.Blames clock (n + 1) (.executeAll stmts) m) m
      (Machine.executeAll (directory.setting clock) (n + 1) stmts) fun flow m' =>
        directory.AdmitsFlow m'.store flow := by
  obtain ⟨valid, scopes, renders, knows⟩ := id ready
  unfold Machine.executeAll
  cases stmts with
  | nil => exact .pure valid (admitsFlow_onward _)
  | cons stmt rest =>
    have run := sound.execute valid renders knows.head
    refine (run.blaming fun _ => Blames.enter .first).bind fun flow m₁ first steps follows => ?_
    cases flow with
    | onward =>
      rw [← steps.current]
      exact sound.executingAll ready (.next first)
    | returned v => exact .pure steps.valid follows.2

end Sound

theorem sound (directory : Directory) (clock : Nat → Float) : ∀ n, Sound directory clock n
  | 0 => by
    constructor
    case execute => exact fun valid _ _ => .exhausted valid
    all_goals exact fun ready => .exhausted ready.valid
  | n + 1 =>
    have ih := sound directory clock n
    ⟨ih.evaluate_succ, ih.evaluateAll_succ, ih.evaluate?_succ, ih.call_succ, ih.apply_succ, ih.execute_succ,
      ih.executeAll_succ⟩

/-- Every moment of a run that began ready is ready. -/
theorem Ready.visit {k : Nat} {m' : Machine} (ready : directory.Ready task m)
    (visits : Visits (directory.setting clock) n task m k task' m') : directory.Ready task' m' := by
  induction visits with
  | here n task m => exact ready
  | step enters _ ih => exact ih ((directory.sound clock _).enter ready enters)

section Moment

variable {id : UseId} {name : Token} {value : Expr} {d : Nat} {v : Value} {m' : Machine}

theorem lookUp_run (address : directory.addresses[id]? = some d) (bound : m.store.BindsAt m.current d name.lexeme) :
    ∃ v, lookUp (directory.setting clock) id name m = .ok v m := by
  obtain ⟨f, v, found, _⟩ := bound.getAt
  refine ⟨v, ?_⟩
  unfold lookUp setting
  simp only [address, found]

theorem assign_run (address : directory.addresses[id]? = some d)
    (run : evaluate (directory.setting clock) n value m = .ok v m') :
    evaluate (directory.setting clock) (n + 1) (.assign id name value) m =
      match m'.store.ownerAt m'.current d name.lexeme with
      | .ok f => .ok v { m' with store := m'.store.replace f name.lexeme v }
      | .error defect => .error (.defective defect) m' := by
  have second : assign (directory.setting clock) id name v =
      write .defective (fun current store => store.ownerAt current d name.lexeme)
        fun store frame => store.replace frame name.lexeme v := by
    unfold assign setting
    simp only [address]
  unfold evaluate
  change EStateM.bind _ _ m = _
  unfold EStateM.bind
  simp only [run]
  rw [second]
  change EStateM.bind _ _ m' = _
  unfold EStateM.bind write
  dsimp only
  cases m'.store.ownerAt m'.current d name.lexeme <;> rfl

theorem Ready.read (ready : directory.Ready (.evaluate (.read id name)) m)
    (address : directory.addresses[id]? = some d) :
    m.store.BindsAt m.current d name.lexeme ∧ ∃ v, lookUp (directory.setting clock) id name m = .ok v m := by
  have agrees : directory.Agrees m ⟨id, name, false⟩ := ready.fits _ (by simp [Expr.uses])
  cases agrees with
  | bound mature binds => exact ⟨binds d address, lookUp_run address (binds d address)⟩
  | unborn assigns => cases assigns

theorem Ready.assigned (ready : directory.Ready (.evaluate (.assign id name value)) m)
    (run : evaluate (directory.setting clock) n value m = .ok v m') : directory.Agrees m' ⟨id, name, true⟩ := by
  have agrees : directory.Agrees m ⟨id, name, true⟩ := ready.fits _ (by simp [Expr.uses])
  have right := (directory.sound clock n).enter_evaluate ready .assign
  exact agrees.step ready.valid (((directory.sound clock n).evaluate right).ok run).1

theorem Ready.assign (ready : directory.Ready (.evaluate (.assign id name value)) m)
    (mature : ¬directory.premature id) (address : directory.addresses[id]? = some d) :
    m.store.BindsAt m.current d name.lexeme ∧
      ∀ n v m', evaluate (directory.setting clock) n value m = .ok v m' →
        m'.store.BindsAt m'.current d name.lexeme ∧
          ∃ m'', evaluate (directory.setting clock) (n + 1) (.assign id name value) m = .ok v m'' := by
  have bound {m : Machine} (agrees : directory.Agrees m ⟨id, name, true⟩) :
      m.store.BindsAt m.current d name.lexeme := by
    cases agrees with
    | bound _ binds => exact binds d address
    | unborn _ premature => exact absurd premature mature
  refine ⟨bound (ready.fits _ (by simp [Expr.uses])), fun n v m' run => ?_⟩
  have there := bound (ready.assigned run)
  obtain ⟨f, owner⟩ := there.ownerAt
  exact ⟨there, _, by rw [assign_run address run, owner]⟩

theorem Ready.premature (ready : directory.Ready (.evaluate (.assign id name value)) m)
    (premature : directory.premature id) :
    directory.addresses[id]? = some 0 ∧
      ∀ n v m', evaluate (directory.setting clock) n value m = .ok v m' →
        evaluate (directory.setting clock) (n + 1) (.assign id name value) m =
          .error (.defective (.unbound name.lexeme 0)) m' := by
  have zero : directory.addresses[id]? = some 0 := by
    cases ready.fits ⟨id, name, true⟩ (by simp [Expr.uses]) with
    | bound mature => exact absurd premature mature
    | unborn _ _ address => exact address
  refine ⟨zero, fun n v m' run => ?_⟩
  cases ready.assigned run with
  | bound mature => exact absurd premature mature
  | unborn _ _ _ unbound => rw [assign_run zero run, Store.ownerAt_zero unbound]

end Moment

end Scriptlet.Directory
