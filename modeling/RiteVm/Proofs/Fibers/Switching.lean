import RiteVm.Proofs.Fibers.Frames

/-!
Contract: switching between fibers keeps them in step with their stacks.

Owns:
- changes of the states of fibers, and what they leave of linked machines and watches;
- switching to a fiber and leaving it;
- new fibers.

Between the steps of a switch the states are not in step with the stacks. So each switch is
one change here.
-/

namespace RiteVm

namespace Machine

variable {tidy : Prop} {before machine after : Machine} {handle : Handle} {record : FiberRecord}

/-- The machine with another record of a fiber. -/
def setFiber (machine : Machine) (handle : Handle) (record : FiberRecord) : Machine :=
  { machine with heap := machine.heap.modify handle ({ · with content := .fiber record }) }

/-- Of what matters to fibers, the heap changed at most their states. -/
structure Restates (before after : Machine) (state : Handle → FiberRecord → FiberState) : Prop where
  wellFormed : after.heap.WellFormed
  fibers : ∀ handle, after.fiber? handle =
    (before.fiber? handle).map fun record => { record with state := state handle record }
  captures : ∀ id index, after.heap.Captures id index → before.heap.Captures id index
  passed : ∀ handle, before.heap.Passed handle → after.heap.Passed handle

namespace Restates

variable {state second : Handle → FiberRecord → FiberState}

theorem of_keepsFibers (keeps : before.heap.KeepsFibers after.heap) :
    before.Restates after fun _ record => record.state where
  wellFormed := keeps.wellFormed
  fibers handle := (keeps.fibers handle).trans Option.map_id'.symm
  captures := keeps.captures
  passed := keeps.passed

theorem trans (first : before.Restates machine state) (next : machine.Restates after second) :
    before.Restates after fun handle record =>
      second handle { record with state := state handle record } where
  wellFormed := next.wellFormed
  fibers handle := by
    rw [next.fibers, first.fibers, Option.map_map]
    rfl
  captures id index captured := first.captures id index (next.captures id index captured)
  passed handle passed := next.passed handle (first.passed handle passed)

theorem congr (restates : before.Restates after state)
    (same : ∀ handle record, before.fiber? handle = some record →
      state handle record = second handle record) : before.Restates after second where
  wellFormed := restates.wellFormed
  fibers handle := by
    rw [restates.fibers]
    cases found : before.fiber? handle with
    | none => rfl
    | some record => rw [Option.map_some, Option.map_some, same handle record found]
  captures := restates.captures
  passed := restates.passed

theorem setFiber (wellFormed : machine.heap.WellFormed) (found : machine.fiber? handle = some record)
    (state : FiberState) : machine.Restates (machine.setFiber handle { record with state })
      fun other otherRecord => if other = handle then state else otherRecord.state where
  wellFormed := wellFormed.modify _ _
  fibers other := by
    obtain ⟨object, isObject, -⟩ := Option.bind_eq_some_iff.mp found
    refine (Heap.fiber?_modify _ _ _ _).trans ?_
    split
    · rename_i isHandle
      rw [isHandle, found, isObject]
      rfl
    · exact Option.map_id'.symm
  captures _ _ := Heap.captures_modify fun _ _ _ _ captured =>
    absurd captured (Object.not_captures rfl _ _)
  passed _ passed := passed.modify _ _

/-- A machine is linked behind a change of states if these fit the stacks in use. -/
theorem linked (restates : before.Restates after state) (linked : before.Linked tidy)
    (contextCount : after.contexts.size = before.contexts.size)
    (signalCount : after.signals.size = before.signals.size)
    (live : ∀ id, (after.context? id).isSome → (before.context? id).isSome)
    (root : (after.context? rootContext).isSome)
    (chain_nodup : (after.chain.map (·.1)).Nodup)
    (chain_root : ∀ id, (id, none) ∈ after.chain → id = rootContext)
    (chain_fiber : ∀ id handle, (id, some handle) ∈ after.chain →
      ∃ record, before.fiber? handle = some record ∧ record.context = id)
    (running : ∀ handle record, before.fiber? handle = some record →
      (state handle record = .running ↔ after.currentFiber = some handle))
    (resumed : ∀ handle record, before.fiber? handle = some record →
      (state handle record = .resumed ↔ some handle ∈ after.resumers.map (·.2)))
    (stack : ∀ handle record, before.fiber? handle = some record →
      (after.context? record.context).isSome = (state handle record).isAlive)
    (parked : ∀ handle record, before.fiber? handle = some record →
      state handle record = .suspended → ∀ context, after.context? record.context = some context →
        2 ≤ context.frames.size ∧ (tidy → context.EndsNative)) :
    after.Linked tidy where
  wellFormed := restates.wellFormed
  root := root
  chain_nodup := chain_nodup
  chain_root := chain_root
  chain_fiber id handle member := by
    obtain ⟨record, found, isStack⟩ := chain_fiber id handle member
    have isFiber := restates.fibers handle
    rw [found] at isFiber
    exact ⟨_, isFiber, isStack⟩
  fits handle record found := by
    rw [restates.fibers] at found
    obtain ⟨original, wasFound, rfl⟩ := Option.map_eq_some_iff.mp found
    have fits := linked.fits handle original wasFound
    exact
      { running := running handle original wasFound
        resumed := resumed handle original wasFound
        notRoot := fits.notRoot
        live := stack handle original wasFound
        context_lt := contextCount ▸ fits.context_lt
        signals_lt := signalCount ▸ fits.signals_lt
        parked := parked handle original wasFound }
  apart first second firstRecord secondRecord isFirst isSecond same := by
    rw [restates.fibers] at isFirst isSecond
    obtain ⟨_, wasFirst, rfl⟩ := Option.map_eq_some_iff.mp isFirst
    obtain ⟨_, wasSecond, rfl⟩ := Option.map_eq_some_iff.mp isSecond
    exact linked.apart first second _ _ wasFirst wasSecond same
  owned id isLive := by
    rcases linked.owned id (live id isLive) with isRoot | ⟨handle, record, found, isStack⟩
    · exact .inl isRoot
    · have isFiber := restates.fibers handle
      rw [found] at isFiber
      exact .inr ⟨handle, _, isFiber, isStack⟩

end Restates

end Machine

/-- A fiber that can be resumed neither runs nor waits for another one. -/
theorem FiberState.idle_of_waiting {state : FiberState}
    (waiting : state = .created ∨ state = .suspended) : state ≠ .running ∧ state ≠ .resumed := by
  rcases waiting with rfl | rfl <;> exact ⟨by rintro ⟨⟩, by rintro ⟨⟩⟩

namespace VM

variable {tidy : Prop} {machine : Machine} {handle : Handle} {record : FiberRecord}

/-! ### Switching to a fiber -/

theorem setFiberState_of_found (found : machine.fiber? handle = some record) (state : FiberState) :
    setFiberState handle state machine =
      .ok () (machine.setFiber handle { record with state }) := by
  have read : Query.fiberRecord handle machine = .ok record :=
    Query.fiberRecord_eq_ok_iff.mpr found
  rw [setFiberState, bind_of_ok (liftM_of_ok read)]
  rfl

/-- A fiber, if there is one, gets a state, and nothing else happens. -/
theorem forM_setFiberState (wellFormed : machine.heap.WellFormed) (fiber? : Option Handle)
    (known : ∀ handle, fiber? = some handle → ∃ record, machine.fiber? handle = some record)
    (state : FiberState) :
    ∃ heap, fiber?.forM (setFiberState · state) machine = .ok ⟨⟩ { machine with heap } ∧
      machine.Restates { machine with heap } fun handle record =>
        if fiber? = some handle then state else record.state := by
  cases fiber? with
  | none =>
      refine ⟨machine.heap, rfl, (Machine.Restates.of_keepsFibers (.refl wellFormed)).congr ?_⟩
      exact fun _ _ _ => (if_neg nofun).symm
  | some handle =>
      obtain ⟨record, found⟩ := known handle rfl
      refine ⟨_, setFiberState_of_found found state,
        (Machine.Restates.setFiber wellFormed found state).congr fun other _ _ => ?_⟩
      simp only [Option.some.injEq, eq_comm]

/-- The machine that runs a fiber for the stack that was running. -/
structure SwitchesTo (before : Machine) (handle : Handle) (record : FiberRecord) (after : Machine) :
    Prop where
  config : after.config = before.config
  contexts : after.contexts = before.contexts
  signals : after.signals = before.signals
  woken : after.woken = before.woken
  nativeDepth : after.nativeDepth = before.nativeDepth
  resumers : after.resumers = before.resumers ++ [(before.current, before.currentFiber)]
  current : after.current = record.context
  currentFiber : after.currentFiber = some handle
  restates : before.Restates after fun other otherRecord =>
    if other = handle then .running
    else if before.currentFiber = some other then .resumed
    else otherRecord.state

theorem switchTo_of_linked (linked : machine.Linked tidy)
    (found : machine.fiber? handle = some record) :
    ∃ next, switchTo handle record.context machine = .ok () next ∧
      SwitchesTo machine handle record next := by
  have known : ∀ current, machine.currentFiber = some current →
      ∃ record, machine.fiber? current = some record := by
    intro current isCurrent
    have member : (machine.current, some current) ∈ machine.chain :=
      List.mem_append_right _ (isCurrent ▸ List.mem_singleton_self _)
    obtain ⟨record, found, -⟩ := linked.chain_fiber _ _ member
    exact ⟨record, found⟩
  obtain ⟨heap, waits, restates⟩ :=
    forM_setFiberState linked.wellFormed machine.currentFiber known .resumed
  let running : Machine :=
    { machine with
      heap
      resumers := machine.resumers ++ [(machine.current, machine.currentFiber)]
      current := record.context
      currentFiber := some handle }
  have restates' : machine.Restates running _ :=
    restates.trans (.of_keepsFibers (.refl restates.wellFormed))
  have isFiber := restates'.fibers handle
  rw [found] at isFiber
  have started := setFiberState_of_found isFiber .running
  refine ⟨running.setFiber handle { record with state := .running }, ?_, ?_⟩
  · rw [switchTo, get_bind, bind_of_ok waits]
    exact (bind_of_ok rfl).trans started
  · exact
      { config := rfl
        contexts := rfl
        signals := rfl
        woken := rfl
        nativeDepth := rfl
        resumers := rfl
        current := rfl
        currentFiber := rfl
        restates := restates'.trans (.setFiber restates'.wellFormed isFiber .running) }

section SwitchesTo

variable {before after : Machine} (switches : SwitchesTo before handle record after)
  (linked : before.Linked tidy) (found : before.fiber? handle = some record)
  (waiting : record.state = .created ∨ record.state = .suspended)

include switches

theorem SwitchesTo.context?_eq (id : ContextId) : after.context? id = before.context? id := by
  rw [Machine.context?, Machine.context?, switches.contexts]

theorem SwitchesTo.chain_eq : after.chain = before.chain ++ [(record.context, some handle)] := by
  rw [Machine.chain, switches.resumers, switches.current, switches.currentFiber]
  rfl

include linked

/-- The fiber whose state is running is the one the machine runs. -/
theorem SwitchesTo.running_iff {other : Handle} {otherRecord : FiberRecord}
    (isFiber : before.fiber? other = some otherRecord) :
    (if other = handle then FiberState.running
      else if before.currentFiber = some other then .resumed else otherRecord.state) = .running ↔
      after.currentFiber = some other := by
  have otherFits := (linked.fits other otherRecord isFiber).running
  rw [switches.currentFiber, Option.some.injEq]
  by_cases isHandle : other = handle
  · rw [if_pos isHandle]
    exact iff_of_true rfl isHandle.symm
  · rw [if_neg isHandle]
    refine iff_of_false ?_ fun same => isHandle same.symm
    split
    · rintro ⟨⟩
    · rename_i notCurrent
      exact fun isRunning => notCurrent (otherFits.mp isRunning)

include found waiting

/-- The fibers whose state is resumed are those that wait for another one. -/
theorem SwitchesTo.resumed_iff {other : Handle} {otherRecord : FiberRecord}
    (isFiber : before.fiber? other = some otherRecord) :
    (if other = handle then FiberState.running
      else if before.currentFiber = some other then .resumed else otherRecord.state) = .resumed ↔
      some other ∈ after.resumers.map (·.2) := by
  have idle := FiberState.idle_of_waiting waiting
  have fits := linked.fits handle record found
  have otherFits := (linked.fits other otherRecord isFiber).resumed
  rw [switches.resumers, List.map_append, List.mem_append, List.map_singleton, List.mem_singleton]
  by_cases isHandle : other = handle
  · rw [if_pos isHandle, isHandle]
    refine iff_of_false (by rintro ⟨⟩) ?_
    rintro (isResumed | isCurrent)
    · exact idle.2 (fits.resumed.mpr isResumed)
    · exact idle.1 (fits.running.mpr isCurrent.symm)
  · rw [if_neg isHandle]
    split
    · rename_i isCurrent
      exact iff_of_true rfl (.inr isCurrent.symm)
    · rename_i notCurrent
      rw [otherFits]
      exact ⟨.inl, fun member => member.resolve_right fun same => notCurrent same.symm⟩

/-- The same fibers have a stack as before. -/
theorem SwitchesTo.live_eq {other : Handle} {otherRecord : FiberRecord}
    (isFiber : before.fiber? other = some otherRecord) :
    (after.context? otherRecord.context).isSome =
      (if other = handle then FiberState.running
        else if before.currentFiber = some other then .resumed else otherRecord.state).isAlive := by
  have otherFits := linked.fits other otherRecord isFiber
  rw [switches.context?_eq, otherFits.live]
  split
  · rename_i isHandle
    subst isHandle
    cases found.symm.trans isFiber
    rcases waiting with isState | isState <;> rw [isState] <;> rfl
  · split
    · rename_i isCurrent
      rw [otherFits.running.mpr isCurrent]
      rfl
    · rfl

theorem SwitchesTo.chain_nodup : (after.chain.map (·.1)).Nodup := by
  rw [switches.chain_eq, List.map_append, List.nodup_append]
  refine ⟨linked.chain_nodup, by simp, fun id member other isOther same => ?_⟩
  obtain rfl : id = record.context := same.trans (List.mem_singleton.mp isOther)
  obtain ⟨⟨id, fiber?⟩, isChain, same⟩ := List.mem_map.mp member
  refine linked.context_ne_of_chain found isChain ?_ same.symm
  rintro rfl
  exact linked.not_mem_chain found (FiberState.idle_of_waiting waiting) isChain

theorem SwitchesTo.linked_after : after.Linked tidy := by
  refine switches.restates.linked linked (by rw [switches.contexts]) (by rw [switches.signals])
    (fun id isLive => switches.context?_eq id ▸ isLive) ?_
    (switches.chain_nodup linked found waiting) ?_ ?_
    (fun _ _ => switches.running_iff linked)
    (fun _ _ => switches.resumed_iff linked found waiting)
    (fun _ _ => switches.live_eq linked found waiting) ?_
  · rw [switches.context?_eq]
    exact linked.root
  · intro id member
    rw [switches.chain_eq] at member
    rcases List.mem_append.mp member with isChain | isNew
    · exact linked.chain_root id isChain
    · cases List.mem_singleton.mp isNew
  · intro id other member
    rw [switches.chain_eq] at member
    rcases List.mem_append.mp member with isChain | isNew
    · exact linked.chain_fiber id other isChain
    · cases List.mem_singleton.mp isNew
      exact ⟨record, found, rfl⟩
  · intro other otherRecord isFiber suspended context isStack
    rw [switches.context?_eq] at isStack
    split at suspended
    · cases suspended
    · split at suspended
      · cases suspended
      · exact (linked.fits other otherRecord isFiber).parked suspended context isStack

omit linked found waiting

theorem SwitchesTo.keepsParked : before.KeepsParked after := by
  refine ⟨switches.restates.passed, switches.restates.captures, ?_⟩
  intro other otherRecord isFiber
  have restated := switches.restates.fibers other
  have sameCycles (number : Nat) : after.cycles number = before.cycles number := by
    rw [Machine.cycles, Machine.cycles, switches.signals]
  rw [isFiber] at restated
  refine .inr ⟨_, restated, rfl, rfl, Nat.le_of_eq (sameCycles _).symm, fun suspended _ => ?_⟩
  refine ⟨?_, switches.context?_eq _⟩
  dsimp only at suspended
  split at suspended
  · cases suspended
  · split at suspended
    · cases suspended
    · exact suspended

include linked found waiting

/-- No fiber ends by a switch, and nobody is told of it. -/
theorem SwitchesTo.informs : before.Informs after where
  size_le := Nat.le_of_eq (congrArg Array.size switches.signals).symm
  fit fit other restated isRestated := by
    rw [switches.restates.fibers] at isRestated
    obtain ⟨otherRecord, isFiber, rfl⟩ := Option.map_eq_some_iff.mp isRestated
    have noEnd : (after.signalsOf otherRecord.signals).finished = otherRecord.state.final? := by
      rw [Machine.signalsOf, switches.signals]
      exact fit other otherRecord isFiber
    dsimp only
    rw [noEnd]
    split
    · rename_i isHandle
      subst isHandle
      cases found.symm.trans isFiber
      rcases waiting with isState | isState <;> rw [isState] <;> rfl
    · split
      · rename_i isCurrent
        rw [(linked.fits other otherRecord isFiber).running.mpr isCurrent]
        rfl
      · rfl
  hears _ := .of_signals switches.signals switches.woken

omit linked found waiting

theorem SwitchesTo.busy : Machine.Busy after handle :=
  ⟨record.context, by rw [switches.chain_eq]; exact List.mem_append_right _ List.mem_cons_self⟩

/-- Who was in use is so still. -/
theorem SwitchesTo.keepsBusy : before.KeepsBusy after := by
  rintro other otherRecord ⟨id, member⟩ isFiber
  have restated := switches.restates.fibers other
  rw [isFiber] at restated
  refine ⟨⟨id, ?_⟩, ⟨_, restated, rfl⟩, ?_⟩
  · rw [switches.chain_eq]
    exact List.mem_append_left _ member
  · rw [Machine.cycles, Machine.cycles, switches.signals]

end SwitchesTo

/-! ### Leaving a fiber -/

/-- The state of a fiber behind a cycle. -/
def stateBehind : Except Failure Exit → FiberState
  | .ok (.yielded _) => .suspended
  | .ok (.returned _) => .dead
  | .error _ => .failed

/-- The end of a resume: the stack of the resumer runs again, and the fiber has completed a
cycle. -/
def leaveFiber (handle : Handle) (context : ContextId) (result : Except Failure Exit) :
    VM Value := do
  switchBack
  let (state, outcome) ← fiberOutcome result
  setFiberState handle state
  if !state.isAlive then modify (·.removeContext context)
  completeCycle handle state
  resolve outcome

namespace OnlyBreaches

instance setFiberState (handle : Handle) (state : FiberState) :
    OnlyBreaches (setFiberState handle state) := by
  unfold VM.setFiberState
  infer_instance

instance switchBack : OnlyBreaches switchBack := by
  unfold VM.switchBack
  refine @seq _ _ _ _ _ fun machine => ?_
  split <;> infer_instance

instance fiberOutcome (result : Except Failure Exit) : OnlyBreaches (fiberOutcome result) := by
  unfold VM.fiberOutcome
  split <;> infer_instance

instance completeCycle (fiber : Handle) (state : FiberState) :
    OnlyBreaches (completeCycle fiber state) := by
  unfold VM.completeCycle
  infer_instance

end OnlyBreaches

/-- Once an invariant is broken, leaving a fiber is no way back. -/
theorem not_isIntact_leaveFiber (handle : Handle) (context : ContextId) (breach : Breach)
    (machine : Machine) :
    ¬ IsIntact (leaveFiber handle context (.error (.breach breach)) machine) := by
  have only : OnlyBreaches (leaveFiber handle context (.error (.breach breach))) := by
    have fail : OnlyBreaches (throw (.breach breach) : VM Value) := .ofBreach breach
    unfold leaveFiber fiberOutcome resolve
    dsimp only
    rw [pure_bind]
    infer_instance
  intro isIntact
  cases left : leaveFiber handle context (.error (.breach breach)) machine with
  | ok value next =>
      rw [leaveFiber] at left
      obtain ⟨_, _, _, left⟩ := bind_eq_ok_iff.mp left
      obtain ⟨⟨state, outcome⟩, _, isOutcome, left⟩ := bind_eq_ok_iff.mp left
      cases isOutcome
      obtain ⟨_, _, _, left⟩ := bind_eq_ok_iff.mp left
      obtain ⟨_, _, _, left⟩ := bind_eq_ok_iff.mp left
      obtain ⟨_, _, _, left⟩ := bind_eq_ok_iff.mp left
      exact nomatch left
  | error failure next =>
      rw [left] at isIntact
      have isBreach := only.isBreach _ _ _ left
      exact Bool.noConfusion (isBreach.symm.trans isIntact)

/-- What a resumer receives when a cycle ends as a loop did. -/
def Receives (result : Except Failure Exit) (outcome : Except Failure Value) : Prop :=
  match result with
  | .ok exit => outcome = .ok exit.value
  | .error (.unwinding _ _) => ∃ exception, outcome = .error (.raised exception)
  | .error failure => outcome = .error failure

theorem fiberOutcome_of_intact (result : Except Failure Exit)
    (isIntact : IsIntact (fiberOutcome result machine)) :
    ∃ outcome next, fiberOutcome result machine = .ok (stateBehind result, outcome) next ∧
      Receives result outcome ∧ machine.KeepsFibers next := by
  have plain (outcome : Except Failure Value)
      (isOutcome : fiberOutcome result machine = .ok (stateBehind result, outcome) machine)
      (receives : Receives result outcome) :
      ∃ outcome next, fiberOutcome result machine = .ok (stateBehind result, outcome) next ∧
        Receives result outcome ∧ machine.KeepsFibers next :=
    ⟨outcome, machine, isOutcome, receives, .refl machine⟩
  cases result with
  | ok exit => cases exit <;> exact plain _ rfl rfl
  | error failure =>
      cases failure with
      | unwinding target value =>
          have quiet := (Quiet.exceptionHere .localJumpError "break from proc-closure").quietFrom
            machine
          cases raised : exceptionHere .localJumpError "break from proc-closure" machine with
          | ok exception next =>
              rw [QuietFrom, after_of_ok raised] at quiet
              exact ⟨.error (.raised exception), next, bind_of_ok raised, ⟨exception, rfl⟩, quiet⟩
          | error failure next =>
              have failed : fiberOutcome (.error (.unwinding target value)) machine =
                  .error failure next := bind_of_error raised
              rw [failed] at isIntact
              have isBreach := (OnlyBreaches.exceptionHere _ _).isBreach _ _ _ raised
              exact absurd isBreach (by rw [isIntact]; exact Bool.false_ne_true)
      | raised exception => exact plain _ rfl rfl
      | load error => exact plain _ rfl rfl
      | fatal cause => exact plain _ rfl rfl
      | breach breach => exact plain _ rfl rfl
      | outOfFuel => exact plain _ rfl rfl

/-- The machine that runs the resumer of a fiber again, behind a cycle of the fiber. -/
structure LeavesTo (before : Machine) (handle : Handle) (record : FiberRecord) (state : FiberState)
    (after : Machine) : Prop where
  config : after.config = before.config
  nativeDepth : after.nativeDepth = before.nativeDepth
  resumers : before.resumers = after.resumers ++ [(after.current, after.currentFiber)]
  contextCount : after.contexts.size = before.contexts.size
  signalCount : after.signals.size = before.signals.size
  contexts : ∀ id, after.context? id =
    if state.isAlive = false ∧ id = record.context then none else before.context? id
  signals : ∀ number, after.signalsOf number =
    if number = record.signals then (before.signalsOf record.signals).told (.cycle state)
    else before.signalsOf number
  woken : after.woken.toList =
    before.woken.toList ++ (before.signalsOf record.signals).wakes (.cycle state)
  restates : before.Restates after fun other otherRecord =>
    if other = handle then state
    else if after.currentFiber = some other then .running
    else otherRecord.state

theorem context?_removeContext (machine : Machine) (id other : ContextId) :
    (machine.removeContext id).context? other =
      if other = id then none else machine.context? other := by
  rw [Machine.context?, Machine.context?, Machine.removeContext, Array.getElem?_setIfInBounds]
  by_cases same : other = id
  · subst same
    rw [if_pos rfl, if_pos rfl]
    split <;> rfl
  · have apart : id.index ≠ other.index := fun sameIndex => same (by
      obtain ⟨index⟩ := id
      exact (congrArg ContextId.mk sameIndex).symm)
    rw [if_neg same, if_neg apart]

/-- The machine that runs the resumer of a fiber again. -/
structure SwitchesBack (before after : Machine) : Prop where
  config : after.config = before.config
  nativeDepth : after.nativeDepth = before.nativeDepth
  contexts : after.contexts = before.contexts
  signals : after.signals = before.signals
  woken : after.woken = before.woken
  resumers : before.resumers = after.resumers ++ [(after.current, after.currentFiber)]
  restates : before.Restates after fun handle record =>
    if after.currentFiber = some handle then .running else record.state

theorem switchBack_of_linked (linked : machine.Linked tidy) (waiting : machine.resumers ≠ []) :
    ∃ next, switchBack machine = .ok ⟨⟩ next ∧ SwitchesBack machine next := by
  have isLast := List.dropLast_concat_getLast waiting
  generalize machine.resumers.getLast waiting = resumer at isLast
  obtain ⟨id, fiber?⟩ := resumer
  let resumed : Machine :=
    { machine with
      resumers := machine.resumers.dropLast, current := id, currentFiber := fiber? }
  have known : ∀ handle, fiber? = some handle → ∃ record, resumed.fiber? handle = some record := by
    rintro handle rfl
    have member : (id, some handle) ∈ machine.chain :=
      List.mem_append_left _ (isLast ▸ List.mem_append_right _ List.mem_cons_self)
    obtain ⟨record, found, -⟩ := linked.chain_fiber _ _ member
    exact ⟨record, found⟩
  have unchanged : machine.Restates resumed fun _ record => record.state :=
    .of_keepsFibers (.refl linked.wellFormed)
  have wellFormed : resumed.heap.WellFormed := linked.wellFormed
  obtain ⟨heap, running, restates⟩ := forM_setFiberState wellFormed fiber? known .running
  refine ⟨{ resumed with heap }, ?_, ?_⟩
  · have located : machine.resumers.getLast? = some (id, fiber?) := by
      rw [← isLast, List.getLast?_concat]
    rw [switchBack, get_bind, located]
    exact (bind_of_ok rfl).trans running
  · exact
      { config := rfl
        nativeDepth := rfl
        contexts := rfl
        signals := rfl
        woken := rfl
        resumers := isLast.symm
        restates := unchanged.trans restates }

theorem SwitchesBack.of_keepsFibers {before after : Machine} (back : SwitchesBack before machine)
    (keeps : machine.KeepsFibers after) : SwitchesBack before after where
  config := keeps.config.trans back.config
  nativeDepth := keeps.nativeDepth.trans back.nativeDepth
  contexts := keeps.contexts.trans back.contexts
  signals := keeps.signals.trans back.signals
  woken := keeps.woken.trans back.woken
  resumers := by rw [keeps.resumers, keeps.current, keeps.currentFiber, back.resumers]
  restates := by
    rw [keeps.currentFiber]
    exact back.restates.trans (.of_keepsFibers (keeps.heap back.restates.wellFormed))

/-- The machine in which a fiber has completed a cycle. -/
def afterCycle (machine : Machine) (handle : Handle) (record : FiberRecord) (state : FiberState) :
    Machine :=
  let completed := (machine.signals.getD record.signals {}).completeCycle state
  { machine.setFiber handle { record with state } with
    contexts :=
      if state.isAlive then machine.contexts else (machine.removeContext record.context).contexts
    signals := machine.signals.setIfInBounds record.signals completed.1
    woken := machine.woken ++ completed.2 }

theorem fiber?_setFiber (found : machine.fiber? handle = some record) (record' : FiberRecord) :
    (machine.setFiber handle record').fiber? handle = some record' := by
  obtain ⟨object, isObject, -⟩ := Option.bind_eq_some_iff.mp found
  refine (Heap.fiber?_modify _ _ _ _).trans ?_
  rw [if_pos rfl, isObject]
  rfl

theorem completeCycle_of_found (found : machine.fiber? handle = some record) (state : FiberState) :
    completeCycle handle state machine =
      .ok ⟨⟩ { machine with
        signals := machine.signals.setIfInBounds record.signals
          ((machine.signals.getD record.signals {}).completeCycle state).1
        woken := machine.woken ++ ((machine.signals.getD record.signals {}).completeCycle state).2 } := by
  have read : Query.fiberRecord handle machine = .ok record :=
    Query.fiberRecord_eq_ok_iff.mpr found
  rw [completeCycle, bind_of_ok (liftM_of_ok read)]
  rfl

theorem settle_of_found (found : machine.fiber? handle = some record) (state : FiberState)
    (outcome : Except Failure Value) :
    (do
      setFiberState handle state
      if !state.isAlive then modify (·.removeContext record.context)
      completeCycle handle state
      resolve outcome : VM Value) machine =
      resolve outcome (afterCycle machine handle record state) := by
  have isFiber := fiber?_setFiber found { record with state }
  rw [bind_of_ok (setFiberState_of_found found state)]
  cases isAlive : state.isAlive with
  | true =>
      rw [afterCycle, isAlive]
      exact bind_of_ok (completeCycle_of_found isFiber state)
  | false =>
      have isFiber' : ((machine.setFiber handle { record with state }).removeContext
          record.context).fiber? handle = some { record with state } := isFiber
      rw [afterCycle, isAlive]
      exact (bind_of_ok rfl).trans (bind_of_ok (completeCycle_of_found isFiber' state))

theorem leavesTo_afterCycle {before : Machine} (back : SwitchesBack before machine)
    (linked : before.Linked tidy) (wasFound : before.fiber? handle = some record)
    {behind : FiberState} (found : machine.fiber? handle = some { record with state := behind })
    (state : FiberState) :
    LeavesTo before handle record state
      (afterCycle machine handle { record with state := behind } state) where
  config := back.config
  nativeDepth := back.nativeDepth
  resumers := back.resumers
  contextCount := by
    rw [← back.contexts]
    refine (apply_ite Array.size _ _ _).trans ?_
    split
    · rfl
    · exact Array.size_setIfInBounds
  signalCount := by
    rw [← back.signals]
    exact Array.size_setIfInBounds
  contexts id := by
    have same : before.context? id = machine.context? id := by
      rw [Machine.context?, Machine.context?, back.contexts]
    rw [same]
    change (if state.isAlive then machine.contexts
      else (machine.removeContext record.context).contexts)[id.index]?.join = _
    cases isAlive : state.isAlive with
    | true =>
        rw [if_neg (not_and_of_not_left _ (by decide))]
        rfl
    | false =>
        refine (context?_removeContext machine record.context id).trans ?_
        simp only [true_and]
  signals number := by
    have inside : record.signals < before.signals.size :=
      (linked.fits handle record wasFound).signals_lt
    have isSet : (afterCycle machine handle { record with state := behind } state).signals =
        before.signals.setIfInBounds record.signals
          ((before.signalsOf record.signals).told (.cycle state)) := by
      rw [Machine.signalsOf, ← back.signals]
      rfl
    exact Machine.signalsOf_of_set inside isSet number
  woken := by
    rw [Machine.signalsOf, ← back.signals, ← back.woken]
    exact Array.toList_appendList
  restates :=
    have restates := back.restates.trans (.setFiber back.restates.wellFormed found state)
    ⟨restates.wellFormed, restates.fibers, restates.captures, restates.passed⟩

/-- If no invariant is broken, leaving a fiber leads to the machine of its resumer. -/
theorem leaveFiber_of_intact (linked : machine.Linked tidy)
    (found : machine.fiber? handle = some record) (waiting : machine.resumers ≠ [])
    (result : Except Failure Exit)
    (isIntact : IsIntact (leaveFiber handle record.context result machine)) :
    ∃ outcome next, leaveFiber handle record.context result machine = resolve outcome next ∧
      Receives result outcome ∧ LeavesTo machine handle record (stateBehind result) next := by
  obtain ⟨resumed, switched, back⟩ := switchBack_of_linked linked waiting
  rw [leaveFiber, bind_of_ok switched] at isIntact ⊢
  obtain ⟨outcome, ended, isOutcome, receives, keeps⟩ :=
    fiberOutcome_of_intact result (isIntact_of_bind isIntact)
  have back := back.of_keepsFibers keeps
  have isFiber := back.restates.fibers handle
  rw [found] at isFiber
  rw [bind_of_ok isOutcome]
  exact ⟨outcome, _, settle_of_found isFiber (stateBehind result) outcome, receives,
    leavesTo_afterCycle back linked found isFiber (stateBehind result)⟩

section LeavesTo

variable {before after : Machine} {state : FiberState}
  (leaves : LeavesTo before handle record state after) (linked : before.Linked tidy)
  (found : before.fiber? handle = some record) (running : before.currentFiber = some handle)

include leaves linked found

/-- The stacks of other fibers are kept. -/
theorem LeavesTo.context?_other {other : Handle} {otherRecord : FiberRecord}
    (isFiber : before.fiber? other = some otherRecord) (isOther : other ≠ handle) :
    after.context? otherRecord.context = before.context? otherRecord.context := by
  rw [leaves.contexts, if_neg]
  rintro ⟨-, same⟩
  exact isOther (linked.apart other handle _ _ isFiber found (.inl same))

include running

theorem LeavesTo.chain_eq : before.chain = after.chain ++ [(record.context, some handle)] := by
  rw [Machine.chain, leaves.resumers, running, ← linked.context_eq_current found running]
  rfl

theorem LeavesTo.currentFiber_ne : after.currentFiber ≠ some handle := by
  intro isHandle
  have isResumed : some handle ∈ before.resumers.map (·.2) := by
    rw [leaves.resumers, List.map_append, isHandle]
    exact List.mem_append_right _ List.mem_cons_self
  have fits := linked.fits handle record found
  exact nomatch (fits.running.mpr running).symm.trans (fits.resumed.mpr isResumed)

theorem LeavesTo.mem_chain {place : ContextId × Option Handle} (member : place ∈ after.chain) :
    place ∈ before.chain :=
  leaves.chain_eq linked found running ▸ List.mem_append_left _ member

theorem LeavesTo.chain_nodup : (after.chain.map (·.1)).Nodup := by
  have nodup := linked.chain_nodup
  rw [leaves.chain_eq linked found running, List.map_append, List.nodup_append] at nodup
  exact nodup.1

/-- The resumer does not wait for another fiber as well. -/
theorem LeavesTo.not_mem_resumers {other : Handle} (isCurrent : after.currentFiber = some other) :
    some other ∉ after.resumers.map (·.2) := by
  intro member
  obtain ⟨⟨id, fiber?⟩, isResumer, isOther⟩ := List.mem_map.mp member
  obtain rfl : fiber? = some other := isOther
  obtain ⟨_, found', isStack⟩ := linked.chain_fiber _ _
    (leaves.mem_chain linked found running (List.mem_append_left _ isResumer))
  obtain ⟨_, found'', isStack'⟩ := linked.chain_fiber after.current other
    (leaves.mem_chain linked found running
      (List.mem_append_right _ (isCurrent ▸ List.mem_singleton_self _)))
  cases found'.symm.trans found''
  have distinct := leaves.chain_nodup linked found running
  rw [Machine.chain, List.map_append, List.nodup_append] at distinct
  exact distinct.2.2 id (List.mem_map.mpr ⟨_, isResumer, rfl⟩) _ List.mem_cons_self
    (isStack.symm.trans isStack')

omit linked found running in
/-- Who waited before still waits, or is the resumer. -/
theorem LeavesTo.mem_resumers_iff (other : Handle) : some other ∈ before.resumers.map (·.2) ↔
    some other ∈ after.resumers.map (·.2) ∨ after.currentFiber = some other := by
  rw [leaves.resumers, List.map_append, List.mem_append]
  exact or_congr_right (List.mem_singleton.trans eq_comm)

section

variable (ended : state = .suspended ∨ state.isAlive = false)

include ended

/-- The fiber whose state is running is the one the machine runs. -/
theorem LeavesTo.running_iff {other : Handle} {otherRecord : FiberRecord}
    (isFiber : before.fiber? other = some otherRecord) :
    (if other = handle then state
      else if after.currentFiber = some other then .running else otherRecord.state) = .running ↔
      after.currentFiber = some other := by
  by_cases isHandle : other = handle
  · rw [if_pos isHandle, isHandle]
    refine iff_of_false (fun isState => ?_) (leaves.currentFiber_ne linked found running)
    rcases ended with same | same <;> rw [isState] at same <;> cases same
  · rw [if_neg isHandle]
    split
    · rename_i isCurrent
      exact iff_of_true rfl isCurrent
    · rename_i notCurrent
      rw [(linked.fits other otherRecord isFiber).running, running]
      exact iff_of_false (fun same => isHandle (Option.some.inj same).symm) notCurrent

/-- The fibers whose state is resumed are those that wait for another one. -/
theorem LeavesTo.resumed_iff {other : Handle} {otherRecord : FiberRecord}
    (isFiber : before.fiber? other = some otherRecord) :
    (if other = handle then state
      else if after.currentFiber = some other then .running else otherRecord.state) = .resumed ↔
      some other ∈ after.resumers.map (·.2) := by
  have isResumed := (linked.fits other otherRecord isFiber).resumed.trans
    (leaves.mem_resumers_iff other)
  by_cases isHandle : other = handle
  · rw [if_pos isHandle]
    subst isHandle
    cases found.symm.trans isFiber
    rw [(linked.fits other record found).running.mpr running] at isResumed
    refine iff_of_false (fun isState => ?_) fun member => by cases isResumed.mpr (.inl member)
    rcases ended with same | same <;> rw [isState] at same <;> cases same
  · rw [if_neg isHandle]
    split
    · rename_i isCurrent
      exact iff_of_false (by rintro ⟨⟩) (leaves.not_mem_resumers linked found running isCurrent)
    · rename_i notCurrent
      rw [isResumed]
      exact ⟨fun waits => waits.resolve_right notCurrent, .inl⟩

omit ended

/-- A fiber keeps its stack unless it has ended. -/
theorem LeavesTo.live_eq {other : Handle} {otherRecord : FiberRecord}
    (isFiber : before.fiber? other = some otherRecord) :
    (after.context? otherRecord.context).isSome =
      (if other = handle then state
        else if after.currentFiber = some other then .running else otherRecord.state).isAlive := by
  have otherFits := linked.fits other otherRecord isFiber
  by_cases isHandle : other = handle
  · subst isHandle
    cases found.symm.trans isFiber
    rw [if_pos rfl, leaves.contexts]
    cases isAlive : state.isAlive with
    | true =>
        rw [if_neg (not_and_of_not_left _ (by decide)), otherFits.live,
          otherFits.running.mpr running]
        rfl
    | false =>
        rw [if_pos ⟨rfl, rfl⟩]
        rfl
  · rw [leaves.context?_other linked found isFiber isHandle, otherFits.live, if_neg isHandle]
    split
    · rename_i isCurrent
      rw [otherFits.resumed.mpr ((leaves.mem_resumers_iff other).mpr (.inr isCurrent))]
      rfl
    · rfl

end

theorem LeavesTo.linked_after (ended : state = .suspended ∨ state.isAlive = false)
    (parked : state = .suspended → ∀ context, before.context? record.context = some context →
      2 ≤ context.frames.size ∧ (tidy → context.EndsNative)) : after.Linked tidy := by
  have fits := linked.fits handle record found
  refine leaves.restates.linked linked leaves.contextCount leaves.signalCount ?_ ?_
    (leaves.chain_nodup linked found running)
    (fun id member => linked.chain_root id (leaves.mem_chain linked found running member))
    (fun id other member =>
      linked.chain_fiber id other (leaves.mem_chain linked found running member))
    (fun _ _ => leaves.running_iff linked found running ended)
    (fun _ _ => leaves.resumed_iff linked found running ended)
    (fun _ _ => leaves.live_eq linked found running) ?_
  · intro id isLive
    rw [leaves.contexts] at isLive
    split at isLive
    · cases isLive
    · exact isLive
  · rw [leaves.contexts, if_neg fun holds => fits.notRoot holds.2.symm]
    exact linked.root
  · intro other otherRecord isFiber suspended context isStack
    by_cases isHandle : other = handle
    · subst isHandle
      cases found.symm.trans isFiber
      rw [if_pos rfl] at suspended
      rw [leaves.contexts, if_neg (by rw [suspended]; exact fun holds => by cases holds.1)] at isStack
      exact parked suspended context isStack
    · rw [leaves.context?_other linked found isFiber isHandle] at isStack
      rw [if_neg isHandle] at suspended
      split at suspended
      · cases suspended
      · exact (linked.fits other otherRecord isFiber).parked suspended context isStack

omit linked found running in
theorem LeavesTo.cycles (number : Nat) : after.cycles number =
    if number = record.signals then before.cycles number + 1 else before.cycles number := by
  have isCycles : after.cycles number = (after.signalsOf number).cycles := rfl
  rw [isCycles, leaves.signals]
  split
  · rename_i isNumber
    rw [isNumber]
    exact cycles_told
  · rfl

theorem LeavesTo.keepsParked : before.KeepsParked after := by
  refine ⟨leaves.restates.passed, leaves.restates.captures, ?_⟩
  intro other otherRecord isFiber
  have restated := leaves.restates.fibers other
  rw [isFiber] at restated
  refine .inr ⟨_, restated, rfl, rfl, ?_, fun suspended sameCycle => ?_⟩
  · rw [leaves.cycles]
    split <;> omega
  · rw [leaves.cycles] at sameCycle
    by_cases isHandle : other = handle
    · subst isHandle
      cases found.symm.trans isFiber
      rw [if_pos rfl] at sameCycle
      omega
    · refine ⟨?_, leaves.context?_other linked found isFiber isHandle⟩
      dsimp only at suspended
      rw [if_neg isHandle] at suspended
      split at suspended
      · cases suspended
      · exact suspended

/-- All others that were in use are so still. -/
theorem LeavesTo.keepsBusy {other : Handle} {otherRecord : FiberRecord} (isOther : other ≠ handle)
    (busy : before.Busy other) (isFiber : before.fiber? other = some otherRecord) :
    after.Busy other ∧ (∃ record', after.fiber? other = some record' ∧
      record'.signals = otherRecord.signals) ∧
      after.cycles otherRecord.signals = before.cycles otherRecord.signals := by
  obtain ⟨id, member⟩ := busy
  have restated := leaves.restates.fibers other
  rw [isFiber] at restated
  rw [leaves.chain_eq linked found running] at member
  refine ⟨⟨id, (List.mem_append.mp member).resolve_right fun isLast => ?_⟩, ⟨_, restated, rfl⟩, ?_⟩
  · exact isOther (Option.some.inj (congrArg Prod.snd (List.mem_singleton.mp isLast)))
  · rw [leaves.cycles, if_neg]
    exact fun same => isOther (linked.apart other handle _ _ isFiber found (.inr same))

/-- The signals of the fiber are told that a cycle is completed. It was running, so it had not
ended. -/
theorem LeavesTo.tells (fit : before.SignalsFit) :
    before.Tells record.signals (.cycle state) after where
  signals := leaves.signals
  woken := leaves.woken
  allowed _ := by
    rw [fit handle record found, (linked.fits handle record found).running.mpr running]
    rfl

theorem LeavesTo.informs : before.Informs after where
  size_le := Nat.le_of_eq leaves.signalCount.symm
  fit fit other restated isRestated := by
    rw [leaves.restates.fibers] at isRestated
    obtain ⟨otherRecord, isFiber, rfl⟩ := Option.map_eq_some_iff.mp isRestated
    have wasFit := fit other otherRecord isFiber
    have otherFits := linked.fits other otherRecord isFiber
    dsimp only
    rw [leaves.signals]
    by_cases isHandle : other = handle
    · subst isHandle
      cases found.symm.trans isFiber
      rw [if_pos rfl, if_pos rfl, finished_told, wasFit, otherFits.running.mpr running]
      exact Option.or_none
    · have isApart : otherRecord.signals ≠ record.signals := fun same =>
        isHandle (linked.apart other handle _ _ isFiber found (.inr same))
      rw [if_neg isHandle, if_neg isApart, wasFit]
      split
      · rename_i isCurrent
        have isResumed : some other ∈ before.resumers.map (·.2) := by
          rw [leaves.resumers, List.map_append, isCurrent]
          exact List.mem_append_right _ List.mem_cons_self
        rw [otherFits.resumed.mpr isResumed]
        rfl
      · rfl
  hears fit := .of_tells (leaves.tells linked found running fit)

end LeavesTo

end VM

end RiteVm
