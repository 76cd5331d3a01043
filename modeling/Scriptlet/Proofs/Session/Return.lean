import Scriptlet.Proofs.Machine.Sequence
import Scriptlet.Proofs.Session.Control

namespace Scriptlet

namespace Machine

variable {s : Setting} {n k : Nat} {task task' : Task} {tasks : List Task} {m m₁ m' m'' : Machine} {v : Value}

def Task.isStatement : Task → Bool
  | .execute _ | .executeAll _ => true
  | .evaluate _ | .evaluateAll _ | .evaluate? _ | .call .. | .apply .. => false

def Task.Returns (s : Setting) (n : Nat) (m : Machine) (v : Value) (m' : Machine) : Task → Prop
  | .execute stmt => Machine.execute s n stmt m = .ok (.returned v) m'
  | .executeAll stmts => Machine.executeAll s n stmts m = .ok (.returned v) m'
  | .evaluate _ | .evaluateAll _ | .evaluate? _ | .call .. | .apply .. => False

theorem with_current (same : m'.current = m.current) : { m' with current := m.current } = m' := by
  rw [← same]

theorem Task.Returns.current (h : task.Returns s n m v m') : m'.current = m.current := by
  have control := (Task.control_left s n task m).1
  cases task with
  | execute stmt => rwa [Task.left, show Machine.execute s n stmt m = _ from h] at control
  | executeAll stmts => rwa [Task.left, show Machine.executeAll s n stmts m = _ from h] at control
  | _ => exact h.elim

theorem inFrame_of_ok {α : Type} {frame : FrameId} {run : Run α} {a : α} (h : run { m with current := frame } = .ok a m') :
    inFrame frame run m = .ok a { m' with current := m.current } := by
  rw [inFrame, h]

theorem Enters.returns (enters : Enters s n task m task' m₁) (statement : task.isStatement = true)
    (returns : task'.Returns s n m₁ v m') : task.Returns s (n + 1) m v { m' with current := m.current } := by
  have onto (h : task.Returns s (n + 1) m v m') : task.Returns s (n + 1) m v { m' with current := m.current } :=
    (with_current h.current).symm ▸ h
  cases enters with
  | block opened =>
    cases opened
    change execute s (n + 1) (.block _) m = _
    unfold execute
    exact inFrame_of_ok returns
  | ifThenYes first holds =>
    refine onto (show execute s (n + 1) (.ifThen _ _) m = _ from ?_)
    unfold execute
    rw [bind_of_ok first, if_pos holds]
    exact returns
  | ifElseYes first holds =>
    refine onto (show execute s (n + 1) (.ifElse _ _ _) m = _ from ?_)
    unfold execute
    rw [bind_of_ok first, if_pos holds]
    exact returns
  | ifElseNo first fails =>
    refine onto (show execute s (n + 1) (.ifElse _ _ _) m = _ from ?_)
    unfold execute
    rw [bind_of_ok first, if_neg (by simp [fails])]
    exact returns
  | loopBody first holds =>
    refine onto (show execute s (n + 1) (.loop _ _) m = _ from ?_)
    unfold execute
    rw [bind_of_ok first, if_pos holds, bind_of_ok returns]
    rfl
  | loopAgain first holds second =>
    refine onto (show execute s (n + 1) (.loop _ _) m = _ from ?_)
    unfold execute
    rw [bind_of_ok first, if_pos holds, bind_of_ok second]
    exact returns
  | first =>
    refine onto (show executeAll s (n + 1) (_ :: _) m = _ from ?_)
    unfold executeAll
    rw [bind_of_ok returns]
    rfl
  | next first =>
    refine onto (show executeAll s (n + 1) (_ :: _) m = _ from ?_)
    unfold executeAll
    rw [bind_of_ok first]
    exact returns
  | _ => first | exact returns.elim | cases statement

theorem Enters.applies (enters : Enters s n task m task' m₁) (outermost : task.isStatement = false)
    (returns : task'.Returns s n m₁ v m') : ∃ name parameters body frame values,
      task = .apply (.closure name parameters body frame) values ∧ task' = .executeAll body := by
  cases enters with
  | closure => exact ⟨_, _, _, _, _, rfl, rfl⟩
  | _ => first | exact returns.elim | cases outermost

theorem apply_of_returns {name : Token} {parameters : List Token} {body : List Stmt} {outer : FrameId} {values : List Value}
    (enters : Enters s n (.apply (.closure name parameters body outer) values) m (.executeAll body) m₁)
    (returns : (Task.executeAll body).Returns s n m₁ v m') :
    apply s (n + 1) (.closure name parameters body outer) values m = .ok v { m' with current := m.current } := by
  cases enters with
  | @closure _ _ frame m₂ _ _ m₃ _ _ opened bound =>
    have applied : apply s (n + 1) (.closure name parameters body outer) values m =
        .ok v { m' with current := m₃.current } := by
      unfold apply
      rw [bind_of_ok opened, bind_of_ok bound, bind_of_ok (inFrame_of_ok returns)]
      rfl
    have control := (Task.control_left s (n + 1) (.apply (.closure name parameters body outer) values) m).1
    rw [Task.left, applied] at control
    have same : m₃.current = m.current := control
    rw [applied, same]

/-- A return inside of a call. From the body of the function only statements lead to the task that returns, so this is the
innermost call, and its value is the one returned: nothing else is run before it ends. -/
inductive Caught (s : Setting) (n : Nat) (task : Task) (m : Machine) (k : Nat) (task' : Task) (m' : Machine) (v : Value)
    (m'' : Machine) : Prop
  | intro {outer inner : List Task} {l : Nat} {name : Token} {parameters : List Token} {body : List Stmt} {frame : FrameId}
      {values : List Value} {m₁ m₂ : Machine}
      (reached : Underway s n task m outer (l + 1) (.apply (.closure name parameters body frame) values) m₁)
      (called : Enters s l (.apply (.closure name parameters body frame) values) m₁ (.executeAll body) m₂)
      (below : Underway s l (.executeAll body) m₂ inner k task' m') (statements : ∀ t ∈ inner, t.isStatement = true)
      (value : apply s (l + 1) (.closure name parameters body frame) values m₁ = .ok v { m'' with current := m₁.current })

theorem Caught.enter (enters : Enters s n task m task' m₁) {task'' : Task} (h : Caught s n task' m₁ k task'' m' v m'') :
    Caught s (n + 1) task m k task'' m' v m'' := by
  obtain ⟨reached, called, below, statements, value⟩ := h
  exact ⟨.step enters reached, called, below, statements, value⟩

namespace Underway

theorem returns (h : Underway s n task m tasks k task' m') (statements : ∀ t ∈ tasks, t.isStatement = true)
    (returns : task'.Returns s k m' v m'') : task.Returns s n m v { m'' with current := m.current } := by
  induction h with
  | here =>
    rw [with_current returns.current]
    exact returns
  | step enters later ih =>
    obtain ⟨statement, deeper⟩ := List.forall_mem_cons.1 statements
    have outer := enters.returns statement (ih deeper returns)
    exact outer

theorem caught (h : Underway s n task m tasks k task' m') (call : ∃ t ∈ tasks, t.isStatement = false)
    (returns : task'.Returns s k m' v m'') : Caught s n task m k task' m' v m'' := by
  induction h with
  | here => simp at call
  | @step n k task task₁ task₂ tasks m m₁ m₂ enters later ih =>
    by_cases deeper : ∃ t ∈ tasks, t.isStatement = false
    · exact (ih deeper returns).enter enters
    · have statements : ∀ t ∈ tasks, t.isStatement = true := by simpa using deeper
      obtain ⟨_, mem, outermost⟩ := call
      rcases List.mem_cons.1 mem with rfl | inner
      · have inner := later.returns statements returns
        obtain ⟨_, _, _, _, _, rfl, rfl⟩ := enters.applies outermost inner
        have value := apply_of_returns enters inner
        exact ⟨.here .., enters, later, statements, value⟩
      · exact absurd (statements _ inner) (by simp [outermost])

end Underway

end Machine

namespace Session

open Machine

/-- However a text is run that has no breach of the rules, whatever ran before it: neither its statements nor what they are
made of outside of calls ever end with a return, and a return inside of calls gives its value to the innermost one. -/
theorem returns_caught {s : Session} {text : String} (accepts : s.Accepts text) (n : Nat) :
    (∀ v m, executeAll (s.settingOf text) n (s.programOf text) s.machine ≠ .ok (.returned v) m) ∧
    (∀ {tasks k task m}, Underway (s.settingOf text) n (.executeAll (s.programOf text)) s.machine tasks k task m →
      (∀ t ∈ tasks, t.isStatement = true) → ∀ v m', ¬task.Returns (s.settingOf text) k m v m') ∧
    ∀ {tasks k task m v m'}, Underway (s.settingOf text) n (.executeAll (s.programOf text)) s.machine tasks k task m →
      task.Returns (s.settingOf text) k m v m' →
      Caught (s.settingOf text) n (.executeAll (s.programOf text)) s.machine k task m v m' := by
  have never (v : Value) (m : Machine) :
      executeAll (s.settingOf text) n (s.programOf text) s.machine ≠ .ok (.returned v) m := by
    intro run
    cases onward_of_obeys ((proper_programOf s text).obeys accepts) run
  refine ⟨never, fun underway statements v m' returns => ?_, ?_⟩
  · exact never _ _ (underway.returns statements returns)
  · intro tasks k task m v m' underway returns
    refine underway.caught ?_ returns
    by_contra statements
    exact never _ _ (underway.returns (by simpa using statements) returns)

def returning : String := "{ fun f() { { return; } } f(); }"

def returningTokens : List Token :=
  [⟨.leftBrace, "\x7b", none, ⟨0, 1, 1⟩⟩, ⟨.funWord, "fun", none, ⟨2, 1, 3⟩⟩, ⟨.identifier, "f", none, ⟨6, 1, 7⟩⟩,
    ⟨.leftParen, "(", none, ⟨7, 1, 8⟩⟩, ⟨.rightParen, ")", none, ⟨8, 1, 9⟩⟩, ⟨.leftBrace, "\x7b", none, ⟨10, 1, 11⟩⟩,
    ⟨.leftBrace, "\x7b", none, ⟨12, 1, 13⟩⟩, ⟨.returnWord, "return", none, ⟨14, 1, 15⟩⟩, ⟨.semicolon, ";", none, ⟨20, 1, 21⟩⟩,
    ⟨.rightBrace, "\x7d", none, ⟨22, 1, 23⟩⟩, ⟨.rightBrace, "\x7d", none, ⟨24, 1, 25⟩⟩, ⟨.identifier, "f", none, ⟨26, 1, 27⟩⟩,
    ⟨.leftParen, "(", none, ⟨27, 1, 28⟩⟩, ⟨.rightParen, ")", none, ⟨28, 1, 29⟩⟩, ⟨.semicolon, ";", none, ⟨29, 1, 30⟩⟩,
    ⟨.rightBrace, "\x7d", none, ⟨31, 1, 32⟩⟩, ⟨.endMark, "", none, ⟨32, 1, 33⟩⟩]

theorem returns_caught_returning :
    let s := start fun _ => 0
    s.Accepts returning ∧
    (∀ v m, executeAll (s.settingOf returning) 14 (s.programOf returning) s.machine ≠ .ok (.returned v) m) ∧
    ∃ tasks keyword m, Underway (s.settingOf returning) 14 (.executeAll (s.programOf returning)) s.machine tasks 3
        (.execute (.leave keyword none)) m ∧
      Caught (s.settingOf returning) 14 (.executeAll (s.programOf returning)) s.machine 3 (.execute (.leave keyword none)) m
        .nil m := by
  intro s
  have accepts : s.Accepts returning := by
    unfold Accepts
    decide +kernel
  obtain ⟨never, -, caught⟩ := returns_caught accepts 14
  refine ⟨accepts, never, ?_⟩
  let f : Token := ⟨.identifier, "f", none, ⟨6, 1, 7⟩⟩
  let use : Token := ⟨.identifier, "f", none, ⟨26, 1, 27⟩⟩
  let paren : Token := ⟨.rightParen, ")", none, ⟨28, 1, 29⟩⟩
  let keyword : Token := ⟨.returnWord, "return", none, ⟨14, 1, 15⟩⟩
  let body : Program := [.block [.leave keyword none]]
  let program : Program := [.block [.function f [] body, .expression (.call (.read 0 use) paren [])]]
  have read : s.programOf returning = program := by
    have scanned : (Source.ofString returning).items.filterMap Token.Item.token? = returningTokens := by
      decide +kernel
    rw [programOf_of_tokens scanned (show _ = 0 from rfl)]
    rfl
  have address : (s.tableOf returning)[(0 : Nat)]? = some 0 := by decide +kernel
  rw [read] at caught ⊢
  generalize setting : s.settingOf returning = S at caught ⊢
  have lexical : S.addressing = .lexical := setting ▸ rfl
  have address : S.addresses[(0 : Nat)]? = some 0 := setting ▸ address
  let opened : Machine := { s.machine with store := (s.machine.store.child 0).2, current := 1 }
  let declared := Machine.left (execute S 11 (.function f [] body) opened)
  have declares : execute S 11 (.function f [] body) opened = .ok .onward declared := rfl
  have callee : evaluate S 8 (.read 0 use) declared = .ok (.function 1 (.closure f [] body 1)) declared := by
    unfold evaluate lookUp
    rw [lexical, address]
    rfl
  have arguments : evaluateAll S 8 [] declared = .ok [] declared := rfl
  have shallow : declared.depth < maxDepth := Nat.zero_lt_succ _
  have underway : Underway S 14 (.executeAll program) s.machine _ 3 (.execute (.leave keyword none)) _ :=
    .step .first (.step (.block rfl) (.step (.next declares) (.step .first (.step .expression
      (.step (.call callee arguments) (.step (.apply rfl shallow) (.step (.closure rfl rfl) (.step .first
        (.step (.block rfl) (.step .first (.here ..)))))))))))
  exact ⟨_, keyword, _, underway, caught underway rfl⟩

end Session
end Scriptlet
