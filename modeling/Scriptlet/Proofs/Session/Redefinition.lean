import Scriptlet.Proofs.Machine.Origin
import Scriptlet.Proofs.Session.Outcome

namespace Scriptlet

namespace Directory

open Machine

variable {directory : Directory} {clock : Nat → Float} {n : Nat} {task : Task} {m m' : Machine} {frame : FrameId}
  {name : Token}

theorem Ready.unbound (ready : directory.Ready task m) (defines : Defines (directory.setting clock) n task m frame name m')
    (inner : frame ≠ Store.global) : m'.store.binds frame name.lexeme = false := by
  cases defines with
  | declare first =>
    obtain ⟨valid, scopes, renders, knows⟩ := ready
    obtain ⟨_, renders⟩ := (directory.sound clock n).tested? valid renders (knows.agrees renders) first
    exact renders.binds_eq_false inner knows.fresh_declare
  | function made =>
    obtain ⟨valid, scopes, renders, knows⟩ := ready
    cases made
    exact renders.binds_eq_false inner knows.fresh_function
  | parameter opened paired bound =>
    -- the frame of the call binds just the parameters before this one, and they are others
    obtain ⟨valid, ⟨⟨scopes, covers, _⟩, distinct, _⟩, _, fits⟩ := ready
    obtain ⟨_, renders⟩ :=
      Sound.renders_bound valid covers opened paired (fun v mem => fits v (List.mem_append_left _ mem)) bound
    refine renders.binds_eq_false inner fun mem => ?_
    rw [List.map_append, List.map_cons] at distinct
    exact (List.nodup_append.1 distinct).2.2 _ (List.mem_reverse.1 mem) _ List.mem_cons_self rfl

theorem Ready.declares (ready : directory.Ready task m) (defines : Defines (directory.setting clock) n task m frame name m')
    (global : frame = Store.global) : Declares name task ∧ m.current = Store.global := by
  cases defines with
  | declare first =>
    obtain ⟨valid, scopes, renders, knows⟩ := ready
    obtain ⟨steps, _⟩ := ((directory.sound clock n).evaluate? ⟨valid, knows.agrees renders⟩).ok first
    exact ⟨.declare _, steps.current.symm.trans global⟩
  | function made =>
    cases made
    exact ⟨.function .., global⟩
  | parameter opened =>
    cases opened
    exact absurd (global ▸ ready.valid.current) (Nat.not_lt_zero _)

end Directory

namespace Session

open Machine

structure Redefinition (s : Session) (n : Nat) (text : String) : Prop where
  /-- What is defined in a frame other than the global one, be it by a declaration or as a parameter, is not bound in that
  frame. -/
  inner : ∀ {k task m frame name m'}, s.Moment n text (k + 1) task m →
    Defines (s.settingOf text) k task m frame name m' → frame ≠ Store.global → m'.store.binds frame name.lexeme = false
  /-- A redefinition is raised by a declaration, in the global frame and of a name that it binds. -/
  global : ∀ {k task m name x m'}, s.Moment n text (k + 1) task m →
    Raises (s.settingOf text) k task m (.failed ⟨name, .redefined x⟩) m' →
    Declares name task ∧ m.current = Store.global ∧ x = name.lexeme ∧ m'.store.binds Store.global x = true
  reported : ∀ {name x}, .failure ⟨name, .redefined x⟩ ∈ (s.run (.keeping .withFunctions n) text).2.events →
    ∃ k task m m', s.Moment n text (k + 1) task m ∧ Raises (s.settingOf text) k task m (.failed ⟨name, .redefined x⟩) m'

/-- This holds of every text run on a session that has run any others before, within any budgets. -/
theorem redefinition_global (clock : Nat → Float) (batches : List (Nat × String)) (n : Nat) (text : String) :
    Redefinition (play clock batches) n text := by
  have inner {k : Nat} {task : Task} {m : Machine} {frame : FrameId} {name : Token} {m' : Machine}
      (moment : (play clock batches).Moment n text (k + 1) task m)
      (defines : Defines ((play clock batches).settingOf text) k task m frame name m') (inner : frame ≠ Store.global) :
      m'.store.binds frame name.lexeme = false :=
    (ready_of_moment moment).unbound defines inner
  refine ⟨inner, ?_, ?_⟩
  · intro k task m name x m' moment raises
    obtain ⟨rfl, frame, defines, bound⟩ := raises.defines
    have global : frame = Store.global := by
      by_contra away
      exact Bool.false_ne_true ((inner moment defines away).symm.trans bound)
    obtain ⟨declares, current⟩ := (ready_of_moment moment).declares defines global
    exact ⟨declares, current, rfl, global ▸ bound⟩
  · intro name x reported
    obtain ⟨accepts, m, run⟩ := failure_mem_run.1 reported
    have stops : (Task.executeAll _).Stops _ _ _ _ := ⟨m, run⟩
    obtain ⟨k, task, m, m', visits, raises⟩ := stops.raised nofun
    exact ⟨k, task, m, m', ⟨accepts, visits⟩, raises⟩

def boundInCall : String := "{ fun f(p) { } f(nil); }"

def boundInCallTokens : List Token :=
  [⟨.leftBrace, "\x7b", none, ⟨0, 1, 1⟩⟩, ⟨.funWord, "fun", none, ⟨2, 1, 3⟩⟩, ⟨.identifier, "f", none, ⟨6, 1, 7⟩⟩,
    ⟨.leftParen, "(", none, ⟨7, 1, 8⟩⟩, ⟨.identifier, "p", none, ⟨8, 1, 9⟩⟩, ⟨.rightParen, ")", none, ⟨9, 1, 10⟩⟩,
    ⟨.leftBrace, "\x7b", none, ⟨11, 1, 12⟩⟩, ⟨.rightBrace, "\x7d", none, ⟨13, 1, 14⟩⟩, ⟨.identifier, "f", none, ⟨15, 1, 16⟩⟩,
    ⟨.leftParen, "(", none, ⟨16, 1, 17⟩⟩, ⟨.nilWord, "nil", none, ⟨17, 1, 18⟩⟩, ⟨.rightParen, ")", none, ⟨20, 1, 21⟩⟩,
    ⟨.semicolon, ";", none, ⟨21, 1, 22⟩⟩, ⟨.rightBrace, "\x7d", none, ⟨23, 1, 24⟩⟩, ⟨.endMark, "", none, ⟨24, 1, 25⟩⟩]

def declaredTwice : String := "var a; var a;"

def declaredTwiceTokens : List Token :=
  [⟨.varWord, "var", none, ⟨0, 1, 1⟩⟩, ⟨.identifier, "a", none, ⟨4, 1, 5⟩⟩, ⟨.semicolon, ";", none, ⟨5, 1, 6⟩⟩,
    ⟨.varWord, "var", none, ⟨7, 1, 8⟩⟩, ⟨.identifier, "a", none, ⟨11, 1, 12⟩⟩, ⟨.semicolon, ";", none, ⟨12, 1, 13⟩⟩,
    ⟨.endMark, "", none, ⟨13, 1, 14⟩⟩]

theorem redefinition_global_boundInCall_declaredTwice :
    let s := play (fun _ => 0) []
    (∃ k task m frame name m', s.Moment 20 boundInCall (k + 1) task m ∧
      Defines (s.settingOf boundInCall) k task m frame name m' ∧ frame ≠ Store.global ∧ name.lexeme = "p" ∧
      m'.store.binds frame name.lexeme = false) ∧
    ∃ k task m name m', s.Moment 20 declaredTwice (k + 1) task m ∧
      Raises (s.settingOf declaredTwice) k task m (.failed ⟨name, .redefined "a"⟩) m' ∧ m.current = Store.global ∧
      m'.store.binds Store.global "a" = true := by
  intro s
  constructor
  · let f : Token := ⟨.identifier, "f", none, ⟨6, 1, 7⟩⟩
    let p : Token := ⟨.identifier, "p", none, ⟨8, 1, 9⟩⟩
    let use : Token := ⟨.identifier, "f", none, ⟨15, 1, 16⟩⟩
    let paren : Token := ⟨.rightParen, ")", none, ⟨20, 1, 21⟩⟩
    let program : Program := [.block [.function f [p] [], .expression (.call (.read 0 use) paren [.constant .nil])]]
    have read : s.programOf boundInCall = program := by
      have scanned : (Source.ofString boundInCall).items.filterMap Token.Item.token? = boundInCallTokens := by
        decide +kernel
      rw [programOf_of_tokens scanned (show _ = 0 from rfl)]
      rfl
    have address : (s.tableOf boundInCall)[(0 : Nat)]? = some 0 := by decide +kernel
    have accepts : s.Accepts boundInCall := by
      unfold Accepts
      decide +kernel
    have redefinition := redefinition_global (fun _ => 0) [] 20 boundInCall
    generalize setting : s.settingOf boundInCall = S
    have lexical : S.addressing = .lexical := setting ▸ rfl
    have address : S.addresses[(0 : Nat)]? = some 0 := setting ▸ address
    let opened : Machine := { s.machine with store := (s.machine.store.child 0).2, current := 1 }
    let declared := Machine.left (execute S 17 (.function f [p] []) opened)
    have declares : execute S 17 (.function f [p] []) opened = .ok .onward declared := rfl
    have callee : evaluate S 14 (.read 0 use) declared = .ok (.function 1 (.closure f [p] [] 1)) declared := by
      unfold evaluate lookUp
      rw [lexical, address]
      rfl
    have arguments : evaluateAll S 14 [.constant .nil] declared = .ok [.nil] declared := rfl
    have shallow : declared.depth < maxDepth := Nat.zero_lt_succ _
    let called : Machine := { declared with depth := 1 }
    let task : Task := .apply (.closure f ([] ++ p :: []) [] 1) ([] ++ .nil :: [])
    have visits : Visits S 20 (.executeAll program) s.machine 13 task called :=
      .step .first (.step (.block rfl) (.step (.next declares) (.step .first (.step .expression
        (.step (.call callee arguments) (.step (.apply rfl shallow) (.here ..)))))))
    have moment : s.Moment 20 boundInCall 13 task called := ⟨accepts, by rw [setting, read]; exact visits⟩
    have defines : Defines S 12 task called 2 p { called with store := (called.store.child 1).2 } :=
      .parameter rfl rfl rfl
    exact ⟨12, task, called, 2, p, _, moment, defines, by decide, rfl,
      redefinition.inner moment (setting ▸ defines) (by decide)⟩
  · let first : Token := ⟨.identifier, "a", none, ⟨4, 1, 5⟩⟩
    let second : Token := ⟨.identifier, "a", none, ⟨11, 1, 12⟩⟩
    have read : s.programOf declaredTwice = [.declare first none, .declare second none] := by
      have scanned : (Source.ofString declaredTwice).items.filterMap Token.Item.token? = declaredTwiceTokens := by
        decide +kernel
      rw [programOf_of_tokens scanned (show _ = 0 from rfl)]
      rfl
    have accepts : s.Accepts declaredTwice := by
      unfold Accepts
      decide +kernel
    have redefinition := redefinition_global (fun _ => 0) [] 20 declaredTwice
    have reported : .failure ⟨second, .redefined "a"⟩ ∈ (s.run (.keeping .withFunctions 20) declaredTwice).2.events := by
      refine failure_mem_run.2 ⟨accepts, ?_⟩
      rw [read]
      exact ⟨_, rfl⟩
    obtain ⟨k, task, m, m', moment, raises⟩ := redefinition.reported reported
    obtain ⟨_, current, _, bound⟩ := redefinition.global moment raises
    exact ⟨k, task, m, second, m', moment, raises, current, bound⟩

end Session
end Scriptlet
