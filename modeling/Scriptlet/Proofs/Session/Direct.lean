import Scriptlet.Command
import Scriptlet.Proofs.Machine.Flat
import Scriptlet.Proofs.Session.Retention

namespace Scriptlet

open Machine (Stop Flow)

namespace Flattening

variable {F G : Flattening} {t u : Padded} {v v' : Value} {known : Stmt → Prop} {size : Nat}

theorem Values.retable (h : F.Values t v v') (is : v.Known known size) (flat : G.flat = F.flat)
    (agrees : ∀ g, known g → Agrees F G g.uses) : G.Values t v v' := by
  cases h with
  | nil => exact .nil
  | boolean value => exact .boolean value
  | number value => exact .number value
  | text content => exact .text content
  | builtin serial clock => exact .builtin serial clock
  | closure serial covers aligned =>
    cases is with
    | closure _ _ declared => exact .closure serial covers (Agrees.alignedIn _ (agrees _ declared) flat aligned)

theorem Valid.retable (valid : F.Valid t) (holds : t.left.Holds known) (flat : G.flat = F.flat)
    (agrees : ∀ g, known g → Agrees F G g.uses) : G.Valid t where
  present := valid.present
  global := valid.global
  inside := valid.inside
  injective := valid.injective
  bindings f' there :=
    (valid.bindings f' there).imp_of_mem fun b mem _ same => same.retable (holds.values _ b mem) flat agrees
  extra := valid.extra
  depth := valid.depth
  readings := valid.readings
  nextSerial := valid.nextSerial
  printed := by
    have none : t.right.printed = [] := by simpa [holds.printed] using valid.printed
    rw [holds.printed, none]
    exact .nil

theorem Valid.clear (valid : F.Valid t) :
    F.Valid ⟨{ t.left with printed := [] }, { t.right with printed := [] }, t.embed⟩ :=
  valid.ofStores rfl rfl rfl valid.depth valid.readings valid.nextSerial .nil

theorem values_self (is : v.Known (fun _ => False) size) : F.Values t v v := by
  cases is with
  | nil => exact .nil
  | boolean value => exact .boolean value
  | number value => exact .number value
  | text content => exact .text content
  | builtin serial clock => exact .builtin serial clock
  | closure serial inside declared => exact declared.elim

variable (F) in
inductive Events (t : Padded) : Event → Event → Prop
  | same (event : Event) : Events t event event
  | printed {v v' : Value} (same : F.Values t v v') : Events t (.printed v) (.printed v')

inductive Endings : Ending → Ending → Prop
  | same (ending : Ending) : Endings ending ending
  | unbound (name : String) {layers : List Layer} {d d' : Nat} (shrinks : Layer.shrink layers d = some d') :
      Endings (.defective (.unbound name d)) (.defective (.unbound name d'))

theorem Events.grow {event event' : Event} (h : F.Events t event event') (grows : Padded.Grows t u) :
    F.Events u event event' := by
  cases h with
  | same event => exact .same event
  | printed same => exact .printed (same.grow grows)

theorem Events.map_eq {β : Type} {f : Event → β} {events events' : List Event} (h : List.Forall₂ (F.Events t) events events')
    (k : ∀ v v', F.Values t v v' → f (.printed v') = f (.printed v)) : events'.map f = events.map f := by
  refine forall₂_map_eq_iff.1 (h.imp fun event event' both => ?_)
  cases both with
  | same event => rfl
  | printed same => exact k _ _ same

theorem Events.any_isError_eq {events events' : List Event} (h : List.Forall₂ (F.Events t) events events') :
    events'.any Event.isError = events.any Event.isError := by
  have errors := map_eq (f := Event.isError) h fun _ _ _ => rfl
  calc events'.any Event.isError = (events'.map Event.isError).any id := by rw [List.any_map]; rfl
    _ = (events.map Event.isError).any id := by rw [errors]
    _ = events.any Event.isError := by rw [List.any_map]; rfl

theorem Events.ofEvents_eq {events events' : List Event} (h : List.Forall₂ (F.Events t) events events') :
    Command.Transcript.ofEvents events' = Command.Transcript.ofEvents events := by
  have filterMap_eq {f : Event → Option String} (k : ∀ v v', F.Values t v v' → f (.printed v') = f (.printed v)) :
      events'.filterMap f = events.filterMap f := by
    calc events'.filterMap f = (events'.map f).filterMap id := by rw [List.filterMap_map]; rfl
      _ = (events.map f).filterMap id := by rw [map_eq h k]
      _ = events.filterMap f := by rw [List.filterMap_map]; rfl
  unfold Command.Transcript.ofEvents
  rw [filterMap_eq fun v v' same => congrArg some same.display_eq, filterMap_eq (f := Event.complaint?) fun _ _ _ => rfl,
    any_isError_eq h]

theorem Ends.report {α : Type} {P : α → α → Padded → Prop} {r r' : EStateM.Result Stop Machine α} (ends : F.Ends t P r r') :
    ∃ embed, F.Steps t ⟨Machine.left r, Machine.left r', embed⟩ ∧
      List.Forall₂ (F.Events ⟨Machine.left r, Machine.left r', embed⟩) (Report.ofResult r).events
        (Report.ofResult r').events ∧
      Endings (Report.ofResult r).ending (Report.ofResult r').ending := by
  have printed {u : Padded} (valid : F.Valid u) :
      List.Forall₂ (F.Events u) (u.left.printed.reverse.map Event.printed) (u.right.printed.reverse.map Event.printed) := by
    rw [List.forall₂_map_left_iff, List.forall₂_map_right_iff, List.forall₂_reverse_iff]
    exact valid.printed.imp fun _ _ => .printed
  cases ends with
  | @ok a a' u steps post => exact ⟨u.embed, steps, printed steps.valid, .same _⟩
  | @error e e' u steps same =>
    refine ⟨u.embed, steps, ?_⟩
    cases same with
    | failed error => exact ⟨List.rel_append (printed steps.valid) (.cons (.same _) .nil), .same _⟩
    | unbound name shrinks => exact ⟨printed steps.valid, .unbound name shrinks⟩
    | tooShallow => exact ⟨printed steps.valid, .same _⟩
    | exhausted => exact ⟨printed steps.valid, .same _⟩

end Flattening

namespace Session

section Direct

variable (flat : List Stmt → Bool) (n : Nat) (s : Session)

def performDirect (program : Program) : Session × Report :=
  match (Scoping.start.resolve program).2 with
  | some breach => (s, ⟨[.scope breach], .regular⟩)
  | none =>
    let found := program.flatAddresses flat
    let table := addAll found s.addresses
    let result := (Machine.direct flat ⟨table, .lexical, s.clock⟩ n).executeAll program s.machine
    ({ s with
        machine := { Machine.left result with printed := [] }
        addresses := retain .withFunctions program found table },
      Report.ofResult result)

def runDirect (text : String) : Session × Report :=
  note (Parse.ofString text s.nextId).events (performDirect flat n { s with nextId := s.nextIdOf text } (s.programOf text))

def afterDirect (texts : List String) : Session :=
  texts.foldl (fun s text => (s.runDirect flat n text).1) s

def flatTableOf (text : String) : Addresses :=
  addAll ((s.programOf text).flatAddresses flat) s.addresses

def flatSettingOf (text : String) : Machine.Setting :=
  ⟨s.flatTableOf flat text, .lexical, s.clock⟩

variable {flat n s} {text : String}

theorem runDirect_accepted (accepts : s.Accepts text) :
    let result :=
      (Machine.direct flat (s.flatSettingOf flat text) n).executeAll (s.programOf text) s.machine
    s.runDirect flat n text =
      note (Parse.ofString text s.nextId).events
        ({ s with
            machine := { Machine.left result with printed := [] }
            addresses :=
              retain .withFunctions (s.programOf text) ((s.programOf text).flatAddresses flat) (s.flatTableOf flat text)
            nextId := s.nextIdOf text },
          Report.ofResult result) := by
  have accepts : (Scoping.start.resolve (s.programOf text)).2 = none := accepts
  unfold runDirect performDirect
  rw [accepts]
  rfl

theorem runDirect_refused {breach : Located Scope.Fault} (refused : (s.scopingOf text).2 = some breach) :
    s.runDirect flat n text =
      note (Parse.ofString text s.nextId).events ({ s with nextId := s.nextIdOf text }, ⟨[.scope breach], .regular⟩) := by
  have refused : (Scoping.start.resolve (s.programOf text)).2 = some breach := refused
  unfold runDirect performDirect
  rw [refused]

theorem runDirect_never (n : Nat) (s : Session) (text : String) :
    s.runDirect (fun _ => false) n text = s.run (.keeping .withFunctions n) text := by
  cases breach : (s.scopingOf text).2 with
  | some fault => rw [run_keeping_refused breach, runDirect_refused breach]
  | none =>
    rw [run_keeping breach, runDirect_accepted breach, flatSettingOf, flatTableOf,
      Program.flatAddresses_never (proper_programOf s text) breach, Machine.direct_never]
    rfl

end Direct

structure Flattened (flat : List Stmt → Bool) (s s' : Session) : Prop where
  machine : ∃ embed, (Flattening.mk flat s.addresses s'.addresses).Valid ⟨s.machine, s'.machine, embed⟩
  current : s'.machine.current = Store.global
  nextId : s'.nextId = s.nextId
  clock : s'.clock = s.clock
  hadError : s'.hadError = s.hadError
  unused : ∀ i : Nat, s.nextId ≤ i → s'.addresses[i]? = none

def flatteningOf (flat : List Stmt → Bool) (s s' : Session) (text : String) : Flattening :=
  ⟨flat, s.tableOf text, s'.flatTableOf flat text⟩

theorem flattened_start (flat : List Stmt → Bool) (clock : Nat → Float) : Flattened flat (start clock) (start clock) where
  machine := by
    have holds := holds_start (fun _ => False) clock
    refine ⟨id, holds.present, rfl, fun _ => id, fun _ _ _ _ => id, fun f _ => ?_, fun f extra => ?_, rfl, rfl, rfl, .nil⟩
    · exact List.forall₂_same.2 fun b mem => ⟨rfl, Flattening.values_self (holds.values f b mem)⟩
    · exact Store.bindings_of_size_le (Nat.le_of_not_lt fun inside => extra f inside rfl)
  current := rfl
  nextId := rfl
  clock := rfl
  hadError := rfl
  unused _ _ := Std.TreeMap.getElem?_emptyc

namespace Flattened

variable {flat : List Stmt → Bool} {clock : Nat → Float} {s s' : Session} {text : String}
  (same : Flattened flat s s') (reachable : Reachable clock s)

include same

theorem programOf_eq (text : String) : s'.programOf text = s.programOf text := by
  unfold programOf
  rw [same.nextId]

theorem nextIdOf_eq (text : String) : s'.nextIdOf text = s.nextIdOf text := by
  unfold nextIdOf
  rw [same.nextId]

theorem scopingOf_eq (text : String) : s'.scopingOf text = s.scopingOf text := by
  unfold scopingOf
  rw [same.programOf_eq]

theorem accepts_iff : s'.Accepts text ↔ s.Accepts text := by
  unfold Accepts
  rw [same.scopingOf_eq]

omit same in
theorem flatAddresses_of_outside {i : Nat} (outside : i < s.nextId ∨ s.nextIdOf text ≤ i) :
    ((s.programOf text).flatAddresses flat)[i]? = none := by
  refine Program.getElem?_flatAddresses_of_unused fun u used => ?_
  obtain ⟨low, high⟩ := (within_programOf s text).bounds _ (List.mem_map_of_mem used)
  rcases outside with below | above
  · exact Nat.ne_of_gt (Nat.lt_of_lt_of_le below low)
  · exact Nat.ne_of_lt (Nat.lt_of_lt_of_le high above)

theorem flatTableOf_of_outside {i : Nat} (outside : i < s.nextId ∨ s.nextIdOf text ≤ i) :
    (s'.flatTableOf flat text)[i]? = s'.addresses[i]? := by
  refine getElem?_addAll_of_none ?_ _
  rw [same.programOf_eq]
  exact flatAddresses_of_outside outside

theorem flatTableOf_site {site : Site} (mem : site ∈ (s.programOf text).flatSites flat) :
    (s'.flatTableOf flat text)[site.use.id]? = site.address? := by
  have found := Program.getElem?_flatAddresses (proper_programOf s text) mem
  rw [flatTableOf, same.programOf_eq]
  cases address : site.address? with
  | some d => exact getElem?_addAll_of_some (found.trans address) _
  | none =>
    have used : site.use ∈ (s.programOf text).uses := by
      rw [← Program.map_use_flatSites flat]
      exact List.mem_map_of_mem mem
    have high := ((within_programOf s text).bounds _ (List.mem_map_of_mem used)).1
    exact (getElem?_addAll_of_none (found.trans address) _).trans (same.unused _ high)

variable (accepts : s.Accepts text)

include reachable accepts

theorem aligned : (flatteningOf flat s s' text).AlignedIn [] (s.programOf text) := by
  have unused (i : Nat) (high : s.nextId ≤ i) := (reachable.matches_self.unused i high).1
  refine Flattening.alignedIn_of_sites _ .nil (plain_programOf s text) (fun _ _ _ => Layer.open_nil) ?_ ?_
  · exact fun site mem => tableOf_site accepts unused mem
  · exact fun site mem => same.flatTableOf_site mem

theorem valid : ∃ embed, (flatteningOf flat s s' text).Valid ⟨s.machine, s'.machine, embed⟩ := by
  obtain ⟨embed, valid⟩ := same.machine
  refine ⟨embed, valid.retable reachable.matches_self.holds rfl fun g agreed => ⟨fun u used => ?_, fun u used => ?_⟩⟩
  · exact getElem?_addAll_of_none (found_of_lt accepts (agreed u used).1) _
  · exact same.flatTableOf_of_outside (.inl (agreed u used).1)

omit accepts in
theorem currents {embed : FrameId → FrameId} : Padded.Current ⟨s.machine, s'.machine, embed⟩ [] :=
  ⟨reachable.matches_self.holds.current, same.current⟩

theorem ends (n : Nat) {embed : FrameId → FrameId}
    (valid : (flatteningOf flat s s' text).Valid ⟨s.machine, s'.machine, embed⟩) :
    (flatteningOf flat s s' text).Ends ⟨s.machine, s'.machine, embed⟩
      (fun flow flow' u => (flatteningOf flat s s' text).Flows u flow flow')
      (Machine.executeAll (s.settingOf text) n (s.programOf text) s.machine)
      ((Machine.direct flat (s'.flatSettingOf flat text) n).executeAll (s'.programOf text) s'.machine) := by
  rw [same.programOf_eq, flatSettingOf, same.clock]
  exact (Flattening.lockstep _ s.clock n).executeAll valid (same.currents reachable) (same.aligned reachable accepts)

theorem reported (n : Nat) :
    let F := flatteningOf flat s s' text
    let r := s.run (.keeping .withFunctions n) text
    let r' := s'.runDirect flat n text
    (∃ embed, F.Valid ⟨r.1.machine, r'.1.machine, embed⟩ ∧
        List.Forall₂ (F.Events ⟨r.1.machine, r'.1.machine, embed⟩) r.2.events r'.2.events) ∧
      r'.1.machine.current = Store.global ∧ Flattening.Endings r.2.ending r'.2.ending := by
  obtain ⟨embed, valid⟩ := same.valid reachable accepts
  obtain ⟨embed, steps, events, ending⟩ := (same.ends reachable accepts n valid).report
  rw [run_keeping accepts, runDirect_accepted (same.accepts_iff.2 accepts), same.nextId]
  refine ⟨⟨embed, steps.valid.clear, ?_⟩, steps.current'.trans same.current, ending⟩
  refine List.rel_append (List.forall₂_same.2 fun event _ => .same event) (events.imp fun _ _ both => both.grow ?_)
  exact .ofStores rfl rfl rfl

omit same reachable in
theorem agrees {g : Stmt} (agreed : Agreed (Matches.limitOf s text) (s.tableOf text) (s.tableOf text) g) :
    Flattening.Agrees (flatteningOf flat s s' text)
      ⟨flat, retain .withFunctions (s.programOf text) (s.scopingOf text).1.addresses (s.tableOf text),
        retain .withFunctions (s.programOf text) ((s.programOf text).flatAddresses flat) (s'.flatTableOf flat text)⟩
      g.uses := by
  have mindful : Retention.withFunctions ≠ .never := nofun
  by_cases declares : (s.programOf text).declaresFunction = true
  · rw [retain_of_declares mindful declares, retain_of_declares mindful declares]
    exact ⟨fun _ _ => rfl, fun _ _ => rfl⟩
  · refine ⟨fun u used => ?_, fun u used => ?_⟩ <;> have low := (agreed u used).1 <;>
      rw [Matches.limitOf, if_neg declares] at low
    · exact getElem?_retain_of_none (found_of_lt accepts low) _
    · exact getElem?_retain_of_none (flatAddresses_of_outside (.inl low)) _

theorem run_accepted (n : Nat) :
    Flattened flat (s.run (.keeping .withFunctions n) text).1 (s'.runDirect flat n text).1 := by
  obtain ⟨⟨embed, valid, events⟩, current, -⟩ := same.reported reachable accepts n
  have holds := (reachable.matches_self.execute accepts n).2
  have errors := Flattening.Events.any_isError_eq events
  have left : s.run (.keeping .withFunctions n) text = _ := run_keeping accepts
  have right : s'.runDirect flat n text = _ := runDirect_accepted (same.accepts_iff.2 accepts)
  rw [same.programOf_eq, same.nextIdOf_eq] at right
  generalize s.run (.keeping .withFunctions n) text = r at *
  generalize s'.runDirect flat n text = r' at *
  subst left
  subst right
  refine ⟨⟨embed, ?_⟩, current, rfl, same.clock, ?_, fun i high => ?_⟩
  · exact valid.retable holds rfl fun g agreed => agrees accepts agreed
  · exact congrArg₂ or same.hadError errors
  · refine (getElem?_retain_of_none (flatAddresses_of_outside (.inr high)) _).trans ?_
    exact (same.flatTableOf_of_outside (.inr high)).trans (same.unused i (Nat.le_trans (within_programOf s text).le high))

omit accepts in
theorem run (n : Nat) (text : String) :
    let r := s.run (.keeping .withFunctions n) text
    let r' := s'.runDirect flat n text
    Flattened flat r.1 r'.1 ∧
      Command.Transcript.ofEvents r'.2.events = Command.Transcript.ofEvents r.2.events ∧
      Flattening.Endings r.2.ending r'.2.ending := by
  cases breach : (s.scopingOf text).2 with
  | some fault =>
    have parse : Parse.ofString text s'.nextId = Parse.ofString text s.nextId := by rw [same.nextId]
    rw [run_keeping_refused breach, runDirect_refused ((congrArg Prod.snd (same.scopingOf_eq text)).trans breach), parse,
      same.nextIdOf_eq]
    refine ⟨⟨same.machine, same.current, rfl, same.clock, ?_, fun i high => ?_⟩, rfl, .same _⟩
    · simp only [note, same.hadError]
    · exact same.unused i (Nat.le_trans (within_programOf s text).le high)
  | none =>
    obtain ⟨⟨embed, -, events⟩, -, ending⟩ := same.reported reachable breach n
    exact ⟨same.run_accepted reachable breach n, Flattening.Events.ofEvents_eq events, ending⟩

theorem tracks_directFor {part : Part} (mem : part ∈ (s.programOf text).parts flat) {initial : Option Stmt}
    {condition increment : Option Expr} {body : Stmt} (loop : part.stmt = .forLoop initial condition increment body)
    (directly : Machine.Directly flat increment body) {t : Padded} (k : Nat)
    (valid : (flatteningOf flat s s' text).Valid t) (here : t.Current part.layers) :
    (flatteningOf flat s s' text).Tracks t (Machine.execute (s.settingOf text) k part.stmt)
      (Machine.directFor flat (s'.flatSettingOf flat text) initial condition increment body k)
      fun flow flow' u => (flatteningOf flat s s' text).Flows u flow flow' := by
  have aligned := Flattening.aligned_of_mem_partsIn _ (same.aligned reachable accepts) mem
  rw [loop] at aligned ⊢
  rw [← Machine.execute_forLoop directly, flatSettingOf, same.clock]
  exact (Flattening.lockstep _ s.clock k).execute valid here (Flattening.aligned_forLoop aligned)

end Flattened

theorem flattened_after (flat : List Stmt → Bool) (clock : Nat → Float) (n : Nat) (texts : List String) :
    Reachable clock ((start clock).after (.keeping .withFunctions n) texts) ∧
      Flattened flat ((start clock).after (.keeping .withFunctions n) texts) ((start clock).afterDirect flat n texts) := by
  induction texts using List.reverseRecOn with
  | nil => exact ⟨.start, flattened_start flat clock⟩
  | append_singleton texts text ih =>
    obtain ⟨reachable, same⟩ := ih
    rw [after_append, afterDirect, List.foldl_append]
    exact ⟨.run reachable n text, (same.run reachable n text).1⟩

/-- Whatever loops of a session are run directly, in one scope for all their rounds, nobody can tell: every text writes the
same and ends in the same way. While a text is run, each of these loops does in two corresponding states what its direct form
does: it ends in the same way, prints the same, and leaves corresponding values in corresponding frames. States correspond if
the frames of the second are among those of the first, with the same names and with values that are the same but for extra
frames in the chains of functions, and if the extra frames are empty. -/
theorem forLoop_direct (flat : List Stmt → Bool) (clock : Nat → Float) (n : Nat) (texts : List String) (text : String) :
    let s := (start clock).after (.keeping .withFunctions n) texts
    let s' := (start clock).afterDirect flat n texts
    let r := s.run (.keeping .withFunctions n) text
    let r' := s'.runDirect flat n text
    let F := flatteningOf flat s s' text
    (Command.Transcript.ofEvents r'.2.events = Command.Transcript.ofEvents r.2.events ∧
      Flattening.Endings r.2.ending r'.2.ending) ∧
      (s.Accepts text →
        (∃ embed, F.Valid ⟨s.machine, s'.machine, embed⟩ ∧ Padded.Current ⟨s.machine, s'.machine, embed⟩ []) ∧
        (∃ embed, F.Valid ⟨r.1.machine, r'.1.machine, embed⟩ ∧
          List.Forall₂ (F.Events ⟨r.1.machine, r'.1.machine, embed⟩) r.2.events r'.2.events) ∧
        ∀ part ∈ (s.programOf text).parts flat, ∀ initial condition increment body,
          part.stmt = .forLoop initial condition increment body → Machine.Directly flat increment body →
          ∀ (t : Padded) (k : Nat), F.Valid t → t.Current part.layers →
            F.Tracks t (Machine.execute (s.settingOf text) k part.stmt)
              (Machine.directFor flat (s'.flatSettingOf flat text) initial condition increment body k)
              fun flow flow' u => F.Flows u flow flow') := by
  obtain ⟨reachable, same⟩ := flattened_after flat clock n texts
  refine ⟨(same.run reachable n text).2, fun accepts => ⟨?_, ?_, ?_⟩⟩
  · obtain ⟨embed, valid⟩ := same.valid reachable accepts
    exact ⟨embed, valid, same.currents reachable⟩
  · exact (same.reported reachable accepts n).1
  · intro part mem initial condition increment body loop directly t k valid here
    exact same.tracks_directFor reachable accepts mem loop directly k valid here

def closingOver : String := "for (var go = true; go; go = false) { fun f() { return go; } print f(); }"

def isLoop : Program → Bool
  | [.block [_, .loop _ (.block [body, .expression _])]] => !body.isDeclaration
  | _ => false

set_option maxRecDepth 20000 in
theorem forLoop_direct_closingOver :
    let s := start fun _ => 0
    let flat (_ : List Stmt) := true
    let F := flatteningOf flat s s closingOver
    (F.addresses[2]? = some 1 ∧ F.addresses'[2]? = some 0 ∧ F.addresses[3]? = some 3 ∧ F.addresses'[3]? = some 2) ∧
      (Command.Transcript.ofEvents (s.run (.keeping .withFunctions 20) closingOver).2.events).output = "true\n" ∧
      (Command.Transcript.ofEvents (s.runDirect flat 20 closingOver).2.events).output = "true\n" ∧
      ∃ first condition increment body embed,
        s.programOf closingOver = [.forLoop (some first) (some condition) (some increment) body] ∧
          F.Tracks ⟨s.machine, s.machine, embed⟩
            (Machine.execute (s.settingOf closingOver) 20 (.forLoop (some first) (some condition) (some increment) body))
            (Machine.directFor flat (s.flatSettingOf flat closingOver) (some first) (some condition) (some increment)
              body 20)
            fun flow flow' u => F.Flows u flow flow' := by
  have direct := forLoop_direct (fun _ => true) (fun _ => 0) 20 [] closingOver
  simp only [after, afterDirect, List.foldl_nil] at direct
  have addresses : ((start fun _ => 0).tableOf closingOver)[2]? = some 1 ∧
      ((start fun _ => 0).flatTableOf (fun _ => true) closingOver)[2]? = some 0 ∧
      ((start fun _ => 0).tableOf closingOver)[3]? = some 3 ∧
      ((start fun _ => 0).flatTableOf (fun _ => true) closingOver)[3]? = some 2 := by decide +kernel
  have output : (Command.Transcript.ofEvents
      ((start fun _ => 0).run (.keeping .withFunctions 20) closingOver).2.events).output = "true\n" := by decide +kernel
  have accepts : ((start fun _ => 0).scopingOf closingOver).2.isNone = true := by decide +kernel
  have shape : isLoop ((start fun _ => 0).programOf closingOver) = true := by decide +kernel
  dsimp only
  -- from here on it does not matter which session this is
  generalize (start fun _ => 0) = s at *
  obtain ⟨⟨written, -⟩, loops⟩ := direct
  obtain ⟨⟨embed, valid, here⟩, -, loops⟩ := loops (Option.isNone_iff_eq_none.1 accepts)
  refine ⟨addresses, output, (congrArg Command.Transcript.output written).trans output, ?_⟩
  unfold isLoop at shape
  split at shape
  · next first condition body increment eq =>
    refine ⟨first, condition, increment, body, embed, eq, ?_⟩
    refine loops ⟨[], false, .forLoop (some first) (some condition) (some increment) body⟩ ?_ _ _ _ _ rfl ?_ _ 20 valid here
    · rw [eq]
      exact List.mem_cons_self
    · exact (Bool.and_true _).trans ((Bool.true_and _).trans shape)
  · cases shape

end Session

end Scriptlet
