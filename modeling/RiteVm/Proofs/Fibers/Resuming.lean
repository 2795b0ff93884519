import RiteVm.Proofs.Fibers.Switching

/-!
Contract: a resumed fiber runs on a stack of its own, and its resumer goes on where it was.

Owns:
- fibers that can be resumed, and what happens to all others;
- the start of a fiber's loop, the first time and behind a value that it handed over;
- resuming as a balanced action, and what it leaves of the fiber.
-/

namespace RiteVm

namespace VM

variable {tidy firm : Prop} {machine : Machine} {handle : Handle} {record : FiberRecord}

/-! ### The start of a loop -/

/-- How the start of a loop ends: if it succeeds, there is a frame to run. -/
def EndsStart : EStateM.Result Failure Machine Unit → Prop
  | .ok _ machine => machine.frames ≠ []
  | .error _ _ => True

/-- From one machine, an action starts a loop on the running stack. -/
abbrev StartsFrom (tidy : Prop) (machine : Machine) (action : VM Unit) : Prop :=
  TracksFrom tidy (fun _ _ => True) EndsStart machine action action

theorem Pushes.startsFrom {kind : Frame → Prop} {action : VM Unit} (pushes : Pushes kind action)
    (linked : machine.Linked tidy) : StartsFrom tidy machine action := by
  obtain ⟨linked', beside, pushed⟩ := pushes.pushesFrom tidy machine linked
  refine ⟨rfl, fun _ => ⟨linked', beside, trivial⟩, ?_⟩
  cases result : action machine with
  | ok value next =>
      rw [result] at pushed
      obtain ⟨frame, -, isPushed⟩ := pushed
      have nonempty : next.frames ≠ [] := isPushed ▸ List.concat_ne_nil _ _
      exact nonempty
  | error failure next => trivial

/-- The new frame may be changed. -/
theorem Pushes.modified {kind : Frame → Prop} {push : VM Unit} (pushes : Pushes kind push)
    (change : Frame → Frame) :
    Pushes (fun _ => True) (push >>= fun _ => modifyFrame change) where
  pushesFrom tidy machine linked := by
    obtain ⟨linked', beside, pushed⟩ := pushes.pushesFrom tidy machine linked
    cases result : push machine with
    | ok value next =>
        rw [after_of_ok result] at linked' beside
        rw [result] at pushed
        obtain ⟨frame, -, isPushed⟩ := pushed
        have keeps : next.KeepsOthers ((modifyFrame change).after next) :=
          Machine.keepsOthers_modifyContext linked'.wellFormed _
        have isNext : (push >>= fun _ => modifyFrame change).after machine =
            (modifyFrame change).after next := after_bind_of_ok result
        refine ⟨isNext ▸ keeps.linked linked',
          isNext ▸ beside.trans (.of_keepsOthers linked' keeps), ?_⟩
        rw [bind_of_ok result]
        refine ⟨change frame, trivial, (frames_modifyFrame linked' change).trans ?_⟩
        rw [isPushed, List.length_append, List.length_singleton, Nat.add_sub_cancel,
          List.modify_eq_take_drop, List.take_left, List.drop_left]
        rfl
    | error failure next =>
        rw [after_of_error result] at linked' beside
        rw [result] at pushed
        have failed : (push >>= fun _ => modifyFrame change) machine = .error failure next :=
          bind_of_error result
        refine ⟨?_, ?_, ?_⟩
        · rw [after_of_error failed]
          exact linked'
        · rw [after_of_error failed]
          exact beside
        · rw [failed]
          exact pushed

instance Pushes.enterFiberBody (body : Handle) (args : List Value) :
    Pushes (fun _ => True) (enterFiberBody body args) := by
  have push (self : Value) (method : Option Symbol) (owner : Option Handle) :
      Pushes (fun _ => True) (do
        let site ← layOutArgs 0 self (.ofList args)
        pushProcFrame site body none none .nil true
        modifyFrame ({ · with method, owner }) : VM Unit) :=
    behind fun site => modified (procFrame site body none none .nil true) _
  unfold VM.enterFiberBody
  refine behind fun object => ?_
  dsimp only
  split
  · exact behind fun _ => behind fun _ => behind fun _ => push _ _ _
  · exact behind fun _ => behind fun _ => push _ _ _

theorem InPlaceFrom.startsFrom {action : VM Unit} (inPlace : InPlaceFrom machine action)
    (linked : machine.Linked tidy) (nonempty : machine.frames ≠ []) :
    StartsFrom tidy machine action where
  same := rfl
  leads _ := inPlace.leads linked trivial
  ends := by
    have frames := inPlace.frames
    cases result : action machine with
    | ok value next =>
        rw [after_of_ok result] at frames
        exact fun isEmpty => nonempty (frames.symm.trans isEmpty)
    | error failure next => trivial

theorem StartsFrom.behind {α : Type} {first : List Frame → List Frame → Prop} {action : VM α}
    {rest : α → VM Unit} (start : TracksFrom tidy first (fun _ => True) machine action action)
    (go : ∀ value next, Leads tidy first machine next → StartsFrom tidy next (rest value)) :
    StartsFrom tidy machine (action >>= rest) :=
  TracksFrom.bind (fun _ => EndsStart) start (fun value next _ leads => go value next leads)
    (fun _ => trivial) (fun _ _ => trivial) (fun _ _ _ => trivial) fun _ _ _ _ _ _ ends => ends

theorem startsFrom_completeYield (linked : machine.Linked tidy) (deep : 2 ≤ machine.frames.length)
    (args : List Value) : StartsFrom tidy machine (completeYield args) := by
  obtain ⟨keeps, frames, -⟩ := popsFrom linked
  have pops : TracksFrom tidy (fun before after => after = before.dropLast) (fun _ => True) machine
      popFrame? popFrame? :=
    ⟨rfl, fun _ => ⟨keeps.linked linked, .of_keepsOthers linked keeps, frames⟩, trivial⟩
  unfold completeYield
  refine StartsFrom.behind pops fun frame? next leads => ?_
  have nonempty : next.frames ≠ [] := by
    rw [leads.frames, ← List.length_pos_iff, List.length_dropLast]
    omega
  refine InPlaceFrom.startsFrom ?_ leads.linked nonempty
  split <;> exact .of_inPlace leads.linked.wellFormed

/-- The start of the loop of a fiber that was just switched to. -/
def startFiber (record : FiberRecord) (args : List Value) : VM Unit :=
  if record.state = .created then enterFiberBody record.body args else completeYield args

/-- What a fiber does until it hands a value over or ends. -/
def runFiber (engine : Engine) (record : FiberRecord) (args : List Value) : VM Exit := do
  startFiber record args
  nested (engine.loop 0)

/-- How a cycle of a fiber ends. -/
def EndsCycle (tidy : Prop) : EStateM.Result Failure Machine Exit → Prop
  | .ok exit machine => exit.LeavesAt tidy 0 machine
  | .error _ _ => True

theorem startsFrom_startFiber (linked : machine.Linked tidy)
    (deep : record.state ≠ .created → 2 ≤ machine.frames.length) (args : List Value) :
    StartsFrom tidy machine (startFiber record args) := by
  unfold startFiber
  split
  · exact (Pushes.enterFiberBody record.body args).startsFrom linked
  · rename_i suspended
    exact startsFrom_completeYield linked (deep suspended) args

theorem tracksFrom_runFiber {engine engine' : Engine} [agrees : engine.Agrees tidy engine']
    (linked : machine.Linked tidy) (room : HasRoom machine)
    (deep : record.state ≠ .created → 2 ≤ machine.frames.length) (args : List Value) :
    TracksFrom tidy (fun _ _ => True) (EndsCycle tidy) machine (runFiber engine record args)
      (runFiber engine' record args) := by
  have start : StartsFrom tidy machine (startFiber record args) :=
    startsFrom_startFiber linked deep args
  have go (next : Machine) (leads : Leads tidy (fun _ _ => True) machine next)
      (nonempty : next.frames ≠ []) :
      TracksFrom tidy (fun _ _ => True) (EndsCycle tidy) next (nested (engine.loop 0))
        (nested (engine'.loop 0)) := by
    have room' : HasRoom next := by
      rw [HasRoom, leads.beside.nativeDepth, leads.beside.config]
      exact room
    have runs : (deeper next).RunsFrom 0 :=
      ⟨_, List.getElem?_eq_getElem (List.length_pos_iff.mpr nonempty), nofun⟩
    obtain ⟨same, leads', ends⟩ := agrees.loop 0 _ (linked_deeper leads.linked) runs
    refine TracksFrom.nested room' ⟨same, fun isIntact => ?_, ?_⟩ fun result ends => ?_
    · exact { leads' isIntact with frames := trivial }
    · cases result : engine.loop 0 (deeper next) with
      | ok exit last =>
          rw [result] at ends
          exact ends
      | error failure last => trivial
    · cases result with
      | ok exit last => cases exit <;> exact ends
      | error failure last => trivial
  refine TracksFrom.bind (fun _ => EndsCycle tidy) start (fun _ next succeeded leads => ?_)
    (fun _ => trivial) (fun _ (_ : True) => trivial) (fun _ _ _ => trivial)
    fun _ _ _ _ _ _ ends => ends
  have nonempty := start.ends
  rw [succeeded] at nonempty
  exact go next leads nonempty

/-! ### Resuming -/

/-- A fiber waits to be resumed, and there is room for its loop. -/
structure Resumable (machine : Machine) (handle : Handle) (record : FiberRecord) : Prop where
  found : machine.fiber? handle = some record
  waiting : record.state = .created ∨ record.state = .suspended
  calls : machine.resumers.length < machine.config.maxCallDepth
  room : HasRoom machine

/-- Runs a cycle of a fiber that can be resumed. -/
def resumeFiber (engine : Engine) (handle : Handle) (record : FiberRecord) (args : List Value) :
    VM Value := do
  switchTo handle record.context
  leaveFiber handle record.context (← attempt (runFiber engine record args))

theorem exists_ended {α : Type} (action : VM α) (machine : Machine) :
    ∃ result last, action machine = ended result last := by
  cases action machine with
  | ok value last => exact ⟨.ok value, last, rfl⟩
  | error failure last => exact ⟨.error failure, last, rfl⟩

theorem attempt_of_ended {α : Type} {action : VM α} {result : Except Failure α} {last : Machine}
    (ran : action machine = ended result last) : attempt action machine = .ok result last := by
  cases result with
  | ok value => exact attempt_of_ok ran
  | error failure => exact attempt_of_error ran

/-- Behind the switch, a resume leaves the fiber as its cycle ended. -/
theorem resumeFiber_of_ended {engine : Engine} {args : List Value} {switched last : Machine}
    {result : Except Failure Exit}
    (isSwitch : switchTo handle record.context machine = .ok () switched)
    (ran : runFiber engine record args switched = ended result last) :
    resumeFiber engine handle record args machine =
      leaveFiber handle record.context result last :=
  (bind_of_ok isSwitch).trans (bind_of_ok (attempt_of_ended ran))

theorem expectFiber_of_found (found : machine.fiber? handle = some record) :
    expectFiber (.object handle) machine = .ok handle machine := by
  obtain ⟨object, isObject, isFiber⟩ := Option.bind_eq_some_iff.mp found
  have read : Query.object handle machine = .ok object := Query.object_eq_ok_iff.mpr isObject
  rw [expectFiber]
  refine (bind_of_ok (liftM_of_ok read)).trans ?_
  rw [isFiber]
  rfl

theorem expectFiber_eq_ok {fiber : Value} {next : Machine}
    (expected : expectFiber fiber machine = .ok handle next) :
    fiber = .object handle ∧ next = machine ∧ ∃ record, machine.fiber? handle = some record := by
  have isOther (failed : (do
      raise .typeError s!"wrong argument type {← Query.typeName fiber} (expected Fiber)" :
      VM Handle) machine = .ok handle next) : False := by
    obtain ⟨_, _, _, raised⟩ := bind_eq_ok_iff.mp failed
    exact raise_ne_ok raised
  unfold expectFiber at expected
  split at expected
  · obtain ⟨object, between, read, expected⟩ := bind_eq_ok_iff.mp expected
    obtain ⟨isObject, rfl⟩ := liftM_eq_ok_iff.mp read
    split at expected
    · rename_i isFiber
      obtain ⟨record, isRecord⟩ := Option.isSome_iff_exists.mp isFiber
      cases expected
      refine ⟨rfl, rfl, record, Option.bind_eq_some_iff.mpr ⟨object, ?_, isRecord⟩⟩
      exact Query.object_eq_ok_iff.mp isObject
    · exact (isOther expected).elim
  · exact (isOther expected).elim

theorem resume_of_resumable (resumable : Resumable machine handle record) (engine : Engine)
    (args : List Value) :
    resume engine (.object handle) args machine = resumeFiber engine handle record args machine := by
  obtain ⟨found, waiting, calls, room⟩ := resumable
  have read : Query.fiberRecord handle machine = .ok record :=
    Query.fiberRecord_eq_ok_iff.mpr found
  have enough : ¬ machine.config.maxCallDepth ≤ machine.resumers.length := Nat.not_le_of_lt calls
  have checked {α : Type} (rest : Unit → VM α) : (checkNativeDepth >>= rest) machine = rest () machine :=
    bind_of_ok (checkNativeDepth_of_room room)
  rw [resume, bind_of_ok (expectFiber_of_found found), bind_of_ok (liftM_of_ok read)]
  obtain ⟨context, body, state, signals⟩ := record
  dsimp only at waiting
  rcases waiting with rfl | rfl
  · dsimp only
    rw [get_bind, if_neg enough, checked]
    rfl
  · dsimp only
    rw [get_bind, if_neg enough, checked]
    rfl

/-- A quiet action that does not return ends whatever it is followed by. -/
theorem Quiet.fails {α β : Type} {first : VM α} (quiet : Quiet first)
    (ne_ok : ∀ value next, first machine ≠ .ok value next) :
    ∃ failure next, machine.KeepsFibers next ∧
      ∀ rest : α → VM β, (first >>= rest) machine = .error failure next := by
  have keeps := quiet.quietFrom machine
  cases result : first machine with
  | ok value next => exact absurd result (ne_ok value next)
  | error failure next =>
      rw [QuietFrom, after_of_error result] at keeps
      exact ⟨failure, next, keeps, fun rest => bind_of_error result⟩

/-- A raise ends whatever it is followed by, and changes no fiber. -/
theorem raise_fails (machine : Machine) (core : CoreClass) (message : String) :
    ∃ failure next, machine.KeepsFibers next ∧ ∀ rest : Unit → VM Value,
      (raise core message >>= rest) machine = .error failure next :=
  Quiet.fails (.raise core message) fun _ _ => raise_ne_ok

/-- One of the two checks of depth raises if there is no room for another resume. -/
theorem checks_fail
    (full : machine.config.maxCallDepth ≤ machine.resumers.length ∨ ¬ HasRoom machine) :
    ∃ failure next, machine.KeepsFibers next ∧ ∀ rest : VM Value,
      (do
        let machine ← get
        if machine.config.maxCallDepth ≤ machine.resumers.length then raiseStackError
        checkNativeDepth
        rest : VM Value) machine = .error failure next := by
  by_cases calls : machine.config.maxCallDepth ≤ machine.resumers.length
  · obtain ⟨failure, next, keeps, failed⟩ :=
      raise_fails machine .systemStackError "stack level too deep"
    refine ⟨failure, next, keeps, fun rest => ?_⟩
    rw [get_bind, if_pos calls]
    exact failed _
  · have noRoom := full.resolve_left calls
    have quiet : Quiet checkNativeDepth := inferInstance
    obtain ⟨failure, next, keeps, failed⟩ := @Quiet.fails machine _ Value _ quiet
      fun _ _ checked => noRoom (room_of_checkNativeDepth checked)
    refine ⟨failure, next, keeps, fun rest => ?_⟩
    rw [get_bind, if_neg calls]
    exact failed _

/-- A resume that is rejected, for whatever reason, does nothing but raise. -/
theorem resume_of_not_resumable {fiber : Value}
    (rejected : ∀ handle record, fiber = .object handle → ¬ Resumable machine handle record)
    (args : List Value) :
    ∃ failure next, machine.KeepsFibers next ∧
      ∀ engine, resume engine fiber args machine = .error failure next := by
  unfold resume
  cases expected : expectFiber fiber machine with
  | error failure next =>
      have ne_ok : ∀ value next, expectFiber fiber machine ≠ .ok value next := by
        rw [expected]
        exact nofun
      obtain ⟨failure, next, keeps, failed⟩ := Quiet.fails (.expectFiber fiber) ne_ok
      exact ⟨failure, next, keeps, fun engine => failed _⟩
  | ok handle next =>
      obtain ⟨rfl, rfl, record, found⟩ := expectFiber_eq_ok expected
      have read : Query.fiberRecord handle next = .ok record :=
        Query.fiberRecord_eq_ok_iff.mpr found
      simp only [bind_of_ok expected, bind_of_ok (liftM_of_ok read)]
      have notReady := rejected handle record rfl
      obtain ⟨context, body, state, signals⟩ := record
      have full (waiting : state = .created ∨ state = .suspended) :
          next.config.maxCallDepth ≤ next.resumers.length ∨ ¬ HasRoom next := by
        by_contra enough
        obtain ⟨calls, room⟩ := not_or.mp enough
        exact notReady ⟨found, waiting, Nat.lt_of_not_le calls, Classical.not_not.mp room⟩
      cases state with
      | running | resumed =>
          obtain ⟨failure, last, keeps, failed⟩ := raise_fails next .fiberError "double resume"
          exact ⟨failure, last, keeps, fun engine => failed _⟩
      | dead | failed =>
          obtain ⟨failure, last, keeps, failed⟩ :=
            raise_fails next .fiberError "resuming dead fiber"
          exact ⟨failure, last, keeps, fun engine => failed _⟩
      | created =>
          obtain ⟨failure, last, keeps, failed⟩ := checks_fail (full (.inl rfl))
          exact ⟨failure, last, keeps, fun engine => failed _⟩
      | suspended =>
          obtain ⟨failure, last, keeps, failed⟩ := checks_fail (full (.inr rfl))
          exact ⟨failure, last, keeps, fun engine => failed _⟩

/-- How the loop of a fiber ended, when it was run for a resumer. -/
def EndedCycle (tidy : Prop) (machine : Machine) : Except Failure Exit → Prop
  | .ok exit => exit.LeavesAt tidy 0 machine
  | .error failure => failure.isBreach = false

/-- The resumer goes on where it was, with its own frames. -/
structure Returns (tidy : Prop) (before : Machine) (handle : Handle) (last : Machine)
    (result : Except Failure Exit) (after : Machine) : Prop where
  linked : after.Linked tidy
  beside : before.Beside after
  frames : after.frames = before.frames
  leaves : ∃ record, last.fiber? handle = some record ∧ last.current = record.context ∧
    LeavesTo last handle record (stateBehind result) after

/-- Stacks in use when a fiber was resumed keep their frames up to the return to its resumer:
the fiber runs on a stack of its own, above those of all that wait. -/
theorem SwitchesTo.framesOf_returned {before last after : Machine}
    (switches : SwitchesTo before handle record machine) (linked : before.Linked tidy)
    (found : before.fiber? handle = some record)
    (waiting : record.state = .created ∨ record.state = .suspended)
    (beside : machine.Beside last) {record' : FiberRecord} {state : FiberState}
    (leaves : LeavesTo last handle record' state after)
    (sameStack : record'.context = record.context) {id : ContextId}
    (member : id ∈ before.chain.map (·.1)) : after.framesOf id = before.framesOf id := by
  have idle := FiberState.idle_of_waiting waiting
  have isOther : id ≠ record'.context := by
    rw [sameStack]
    rintro rfl
    rw [Machine.chain, List.map_append, List.mem_append] at member
    rcases member with isResumer | isCurrent
    · exact linked.context_not_mem_resumers found idle.2 isResumer
    · exact linked.context_ne_current found idle.1 (List.mem_singleton.mp isCurrent)
  have isBelow : id ∈ machine.resumers.map (·.1) := by
    rw [switches.resumers]
    exact member
  calc after.framesOf id = last.framesOf id := by
        rw [Machine.framesOf, leaves.contexts, if_neg fun holds => isOther holds.2]
        rfl
    _ = machine.framesOf id := beside.below id isBelow
    _ = before.framesOf id := by rw [Machine.framesOf, switches.context?_eq]; rfl

/-- Who was in use when a fiber was resumed is so when it returns, and completed no cycle. -/
theorem SwitchesTo.keepsBusy_returned {before last after : Machine}
    (switches : SwitchesTo before handle record machine) (linked : before.Linked tidy)
    (found : before.fiber? handle = some record)
    (waiting : record.state = .created ∨ record.state = .suspended)
    (cycle : Leads tidy (fun _ _ => True) machine last)
    (running : last.currentFiber = some handle) {record' : FiberRecord} {state : FiberState}
    (found' : last.fiber? handle = some record')
    (leaves : LeavesTo last handle record' state after) : before.KeepsBusy after := by
  intro other otherRecord busy isFiber
  have isOther : other ≠ handle := by
    rintro rfl
    obtain ⟨id, member⟩ := busy
    exact linked.not_mem_chain found (FiberState.idle_of_waiting waiting) member
  obtain ⟨busyBetween, ⟨between, isBetween, sameSignals⟩, sameCycles⟩ :=
    (switches.keepsBusy.trans cycle.beside.busy) other otherRecord busy isFiber
  obtain ⟨busyAfter, ⟨behind, isBehind, sameSignals'⟩, sameCycles'⟩ :=
    leaves.keepsBusy cycle.linked found' running isOther busyBetween isBetween
  rw [sameSignals] at sameCycles'
  exact ⟨busyAfter, ⟨behind, isBehind, sameSignals'.trans sameSignals⟩,
    sameCycles'.trans sameCycles⟩

theorem stateBehind_ends (result : Except Failure Exit) :
    stateBehind result = .suspended ∨ (stateBehind result).isAlive = false := by
  cases result with
  | ok exit => cases exit <;> first | exact .inl rfl | exact .inr rfl
  | error failure => exact .inr rfl

/-- A fiber that suspends leaves the frame that handed a value over, and one below. -/
theorem EndedCycle.parked {last : Machine} {result : Except Failure Exit}
    (ended : EndedCycle tidy last result) (suspended : stateBehind result = .suspended)
    {context : Context} (isContext : last.context? last.current = some context) :
    2 ≤ context.frames.size ∧ (tidy → context.EndsNative) := by
  have frames := Machine.frames_of_context? isContext
  cases result with
  | error failure => cases suspended
  | ok exit =>
      cases exit with
      | returned value => cases suspended
      | yielded value =>
          obtain ⟨deep, endsNative⟩ := ended
          rw [frames, Array.length_toList] at deep
          refine ⟨deep, fun isTidy => ?_⟩
          obtain ⟨frame, isLast, isNative⟩ := endsNative isTidy
          rw [frames, Array.getLast?_toList] at isLast
          exact ⟨frame, isLast, isNative⟩

/-- If no invariant is broken, the end of a fiber's cycle returns to the resumer, with the fiber
in the state it ended in and everything of the resumer in place. -/
theorem SwitchesTo.returns {before last : Machine} (switches : SwitchesTo before handle record machine)
    (linked : before.Linked tidy) (found : before.fiber? handle = some record)
    (waiting : record.state = .created ∨ record.state = .suspended)
    (cycle : Leads tidy (fun _ _ => True) machine last) {result : Except Failure Exit}
    (ended : EndedCycle tidy last result)
    (isIntact : IsIntact (leaveFiber handle record.context result last)) :
    ∃ outcome after, leaveFiber handle record.context result last = resolve outcome after ∧
      Receives result outcome ∧ Returns tidy before handle last result after := by
  have running : last.currentFiber = some handle :=
    cycle.beside.currentFiber.trans switches.currentFiber
  have isStack : last.current = record.context := cycle.beside.current.trans switches.current
  obtain ⟨record', found', isStack'⟩ := cycle.linked.chain_fiber last.current handle
    (List.mem_append_right _ (running ▸ List.mem_singleton_self _))
  have sameStack : record'.context = record.context := isStack'.trans isStack
  have resumers : last.resumers = before.resumers ++ [(before.current, before.currentFiber)] :=
    cycle.beside.resumers.trans switches.resumers
  have nonempty : last.resumers ≠ [] := resumers ▸ List.concat_ne_nil _ _
  rw [← sameStack] at isIntact ⊢
  obtain ⟨outcome, after, isLeft, receives, leaves⟩ :=
    leaveFiber_of_intact cycle.linked found' nonempty result isIntact
  refine ⟨outcome, after, isLeft, receives, ?_⟩
  -- the resumer's place is the last one of the resumers
  obtain ⟨sameResumers, samePlace⟩ := List.append_inj' (leaves.resumers.symm.trans resumers) rfl
  obtain ⟨sameCurrent, sameFiber⟩ := Prod.mk.inj (List.singleton_inj.mp samePlace)
  have framesOf {id : ContextId} (member : id ∈ before.chain.map (·.1)) :
      after.framesOf id = before.framesOf id :=
    switches.framesOf_returned linked found waiting cycle.beside leaves sameStack member
  refine
    { linked := leaves.linked_after cycle.linked found' running (stateBehind_ends result)
        fun suspended context isContext => ended.parked suspended (isStack' ▸ isContext)
      beside :=
        { config := leaves.config.trans (cycle.beside.config.trans switches.config)
          current := sameCurrent
          currentFiber := sameFiber
          resumers := sameResumers
          nativeDepth := leaves.nativeDepth.trans
            (cycle.beside.nativeDepth.trans switches.nativeDepth)
          below := fun id member => framesOf ?_
          watched := fun watch holds =>
            (cycle.beside.watched watch (holds.step switches.keepsParked)).step
              (leaves.keepsParked cycle.linked found' running)
          informs := (switches.informs linked found waiting).trans
            (cycle.beside.informs.trans (leaves.informs cycle.linked found' running))
          busy := switches.keepsBusy_returned linked found waiting cycle running found' leaves }
      frames := ?_
      leaves := ⟨record', found', isStack'.symm, leaves⟩ }
  · rw [Machine.chain, List.map_append]
    exact List.mem_append_left _ member
  · rw [Machine.frames, sameCurrent]
    refine framesOf ?_
    rw [Machine.chain, List.map_append]
    exact List.mem_append_right _ List.mem_cons_self

section Switched

variable {before : Machine} (resumable : Resumable before handle record)
  (switches : SwitchesTo before handle record machine)

include resumable switches

theorem Resumable.room_after : HasRoom machine := by
  rw [HasRoom, switches.nativeDepth, switches.config]
  exact resumable.room

/-- A suspended fiber keeps the frame that handed a value over, and one below. -/
theorem Resumable.deep_after (linked : before.Linked tidy) (notCreated : record.state ≠ .created) :
    2 ≤ machine.frames.length := by
  have suspended := resumable.waiting.resolve_left notCreated
  have fits := linked.fits handle record resumable.found
  have live : (before.context? record.context).isSome := by
    rw [fits.live, suspended]
    rfl
  obtain ⟨context, isContext⟩ := Option.isSome_iff_exists.mp live
  have running : machine.context? machine.current = some context := by
    rw [switches.current, switches.context?_eq]
    exact isContext
  rw [Machine.frames_of_context? running]
  exact (fits.parked suspended context isContext).1

end Switched

/-- If no invariant is broken, a resume ends as its cycle did, with the resumer where it was. -/
theorem Resumable.returns {engine engine' : Engine} {switched last : Machine} (resumable : Resumable machine handle record)
    (linked : machine.Linked tidy) (switches : SwitchesTo machine handle record switched)
    {args : List Value} {result : Except Failure Exit}
    (cycle : TracksFrom tidy (fun _ _ => True) (EndsCycle tidy) switched
      (runFiber engine record args) (runFiber engine' record args))
    (ran : runFiber engine record args switched = ended result last)
    (isIntact : IsIntact (leaveFiber handle record.context result last)) :
    Leads tidy (fun _ _ => True) switched last ∧
      ∃ outcome after, leaveFiber handle record.context result last = resolve outcome after ∧
        Receives result outcome ∧ Returns tidy machine handle last result after := by
  obtain ⟨-, leads, ends⟩ := cycle
  rw [ran] at leads ends
  rw [after, ran] at leads
  have goesOn : Leads tidy (fun _ _ => True) switched last ∧ EndedCycle tidy last result := by
    cases result with
    | ok exit => exact ⟨leads trivial, ends⟩
    | error failure =>
        cases failure with
        | breach cause => exact absurd isIntact (not_isIntact_leaveFiber _ _ _ _)
        | _ => exact ⟨leads rfl, rfl⟩
  exact ⟨goesOn.1, switches.returns linked resumable.found resumable.waiting goesOn.1 goesOn.2 isIntact⟩

section Agreement

variable {engine engine' : Engine} [agrees : engine.Agrees tidy engine']

/-- A cycle of a fiber that can be resumed, behind the switch. -/
theorem Resumable.tracksFrom_runFiber {before : Machine} (resumable : Resumable before handle record)
    (linked : before.Linked tidy) (switches : SwitchesTo before handle record machine)
    (args : List Value) :
    TracksFrom tidy (fun _ _ => True) (EndsCycle tidy) machine (runFiber engine record args)
      (runFiber engine' record args) :=
  VM.tracksFrom_runFiber (switches.linked_after linked resumable.found resumable.waiting)
    (resumable.room_after switches) (resumable.deep_after switches linked) args

theorem balancedFrom_resumeFiber (linked : machine.Linked tidy)
    (resumable : Resumable machine handle record) (args : List Value) :
    BalancedFrom tidy firm machine (resumeFiber engine handle record args)
      (resumeFiber engine' handle record args) := by
  obtain ⟨switched, isSwitch, switches⟩ := switchTo_of_linked linked resumable.found
  have cycle : TracksFrom tidy (fun _ _ => True) (EndsCycle tidy) switched
      (runFiber engine record args) (runFiber engine' record args) :=
    resumable.tracksFrom_runFiber linked switches args
  obtain ⟨result, last, isEnd⟩ := exists_ended (runFiber engine record args) switched
  have resumed := resumeFiber_of_ended isSwitch isEnd
  have resumed' := resumeFiber_of_ended isSwitch (cycle.same.trans isEnd)
  have intact (isIntact : IsIntact (resumeFiber engine handle record args machine)) :
      ∃ outcome after, resumeFiber engine handle record args machine = resolve outcome after ∧
        Returns tidy machine handle last result after := by
    rw [resumed] at isIntact ⊢
    obtain ⟨-, outcome, after, isLeft, -, returns⟩ :=
      resumable.returns linked switches cycle isEnd isIntact
    exact ⟨outcome, after, isLeft, returns⟩
  refine ⟨resumed'.trans resumed.symm, fun isIntact => ?_, ?_⟩
  · obtain ⟨outcome, after, isOutcome, returns⟩ := intact isIntact
    rw [after_congr isOutcome, after_resolve]
    exact ⟨returns.linked, returns.beside, returns.frames ▸ List.prefix_refl _⟩
  · by_cases isIntact : IsIntact (resumeFiber engine handle record args machine)
    · obtain ⟨outcome, after, isOutcome, returns⟩ := intact isIntact
      rw [isOutcome]
      cases outcome with
      | ok value => exact fun _ => returns.frames
      | error failure => exact fun _ _ => returns.frames
    · exact .of_not_isIntact isIntact

/-- Whatever a fiber does, resuming it leaves the frames of its resumer as they were. -/
instance Balanced.resume (fiber : Value) (args : List Value) :
    Balanced tidy firm (resume engine fiber args) (resume engine' fiber args) where
  balancedFrom machine linked := by
    by_cases isReady : ∃ handle record, fiber = .object handle ∧ Resumable machine handle record
    · obtain ⟨handle, record, rfl, resumable⟩ := isReady
      have isResumed := resume_of_resumable resumable engine args
      have isResumed' := resume_of_resumable resumable engine' args
      have balanced : BalancedFrom tidy firm machine (resumeFiber engine handle record args)
          (resumeFiber engine' handle record args) :=
        balancedFrom_resumeFiber linked resumable args
      exact balanced.congr isResumed isResumed'
    · have rejected (handle : Handle) (record : FiberRecord) (isFiber : fiber = .object handle) :
          ¬ Resumable machine handle record :=
        fun resumable => isReady ⟨handle, record, isFiber, resumable⟩
      obtain ⟨failure, next, keeps, failed⟩ := resume_of_not_resumable rejected args
      have quiet : QuietFrom machine (VM.resume engine fiber args) := by
        rw [QuietFrom, after_of_error (failed engine)]
        exact keeps
      have balanced : BalancedFrom tidy firm machine (VM.resume engine fiber args) _ :=
        .of_inPlaceFrom linked (.of_quietFrom linked.wellFormed quiet)
      exact balanced.congr rfl ((failed engine').trans (failed engine).symm)

end Agreement

end VM

end RiteVm
