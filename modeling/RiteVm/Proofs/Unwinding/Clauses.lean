import RiteVm.Proofs.Unwinding.Settling

/-!
Contract: the cycles of an ensure clause.

Owns:
- a cycle as a collection, if one is due, and the instruction behind it;
- the cycle that loads what is pending into the register of the clause;
- straight instructions, which leave the register alone;
- the cycle that ends the clause by going on with the departure.

The record of a departure stays in use all along, first as what is pending and then in
the register, which lies below the top of the frame.
-/

namespace RiteVm

open RiteVm.Bytecode

/-- The machine behind the collection of a cycle, if one is due. -/
def Machine.collectedIfDue (machine : Machine) : Machine :=
  if machine.heap.isDue then machine.collect else machine

/-- The machine whose frame on top goes on at an address. -/
def Machine.fetched (machine : Machine) (pc : Nat) : Machine :=
  machine.modifyContext machine.current (Context.modifyTop · fun frame => { frame with pc })

variable {machine next : Machine} {context : Context} {frame : Frame} {below : List Frame}
  {unit : CodeUnit} {instruction : Instruction} {engine : Engine} {stop : Nat}
  {departure : Departure} {value : Value}

/-! ### Cycles -/

theorem VM.collectIfDue_ok : VM.collectIfDue machine = .ok () machine.collectedIfDue := by
  have isState : (get : VM Machine) machine = .ok machine machine := rfl
  rw [VM.collectIfDue, VM.bind_of_ok isState, Machine.collectedIfDue]
  split <;> rfl

/-- A cycle settles the instruction that it executes behind a collection. -/
theorem VM.cycle_eq : VM.cycle engine stop machine =
    VM.settle stop machine.collectedIfDue.heap.arenaMark (VM.step engine stop)
      machine.collectedIfDue := by
  rw [VM.cycle_eq_settle, VM.bind_of_ok VM.collectIfDue_ok]
  rfl

theorem Machine.RunsOn.collectedIfDue (runs : machine.RunsOn context) :
    machine.collectedIfDue.RunsOn context := by
  rw [Machine.collectedIfDue]
  split
  · exact runs.collect
  · exact runs

/-- A collection keeps what a departure waits for as long as the stack refers to it. -/
theorem Departure.StoredAs.collectedIfDue (stored : departure.StoredAs machine.heap value)
    (runs : machine.RunsOn context)
    (refers : ∀ handle, value = .object handle → context.RefersTo (.object handle)) :
    departure.StoredAs machine.collectedIfDue.heap value := by
  rw [Machine.collectedIfDue]
  split
  · have kept {handle : Handle} (isValue : value = .object handle) :
        machine.collect.heap.get? handle = machine.heap.get? handle :=
      runs.get?_collect (refers handle isValue)
    cases departure with
    | fall => exact stored
    | jump target =>
        obtain ⟨record, object, isValue, found, isExit⟩ := stored
        exact ⟨record, object, isValue, (kept isValue).trans found, isExit⟩
    | leave target result =>
        obtain ⟨record, object, isValue, found, isExit⟩ := stored
        exact ⟨record, object, isValue, (kept isValue).trans found, isExit⟩
    | raise exception =>
        obtain ⟨isValue, object, found, isException⟩ := stored
        exact ⟨isValue, object, (kept isValue).trans found, isException⟩
  · exact stored

/-- What a register below the top of a frame holds is in use. -/
theorem Context.refersTo_slot (member : frame ∈ context.activations) {index : Nat}
    (inside : index < frame.top) {handle : Handle}
    (isSlot : context.slot index = .object handle) : context.RefersTo (.object handle) := by
  have stored : context.stack[index]? = some (.object handle) := by
    rw [Context.slot, Array.getD_eq_getD_getElem?] at isSlot
    cases found : context.stack[index]? with
    | none =>
        rw [found] at isSlot
        cases isSlot
    | some value =>
        rw [found] at isSlot
        rw [show value = .object handle from isSlot]
  exact .slot (Context.mem_frames_iff.mpr member) inside stored (.object handle)

theorem Context.refersTo_pending {handle : Handle}
    (isPending : context.pendingValue = .object handle) : context.RefersTo (.object handle) := by
  rw [Context.pendingValue] at isPending
  split at isPending
  · exact nomatch isPending
  · rename_i pending found
    obtain rfl := Value.object.inj isPending
    exact .pending found

/-- An instruction is executed with the address behind it in the frame. -/
theorem VM.step_of_frame (isFrame : Query.frame machine = .ok frame)
    (isUnit : frame.unit = some unit)
    (decoded : instructionAt? unit.code frame.pc = some instruction) :
    VM.step engine stop machine =
      VM.execute { engine, stop, frame, unit } instruction
        (machine.fetched instruction.next) := by
  rw [VM.step, VM.bind_of_ok (VM.liftM_of_ok isFrame), isUnit]
  dsimp only
  rw [decoded]
  dsimp only
  rw [VM.bind_of_ok (VM.modifyFrame_ok _)]
  rfl

section Instructions

variable (runs : machine.RunsOn context) (top : context.activations = frame :: below)

include runs top

theorem Machine.RunsOn.fetched (pc : Nat) :
    (machine.fetched pc).RunsOn (context.modifyTop fun frame => { frame with pc }) ∧
      (context.modifyTop fun frame => { frame with pc }).activations =
        { frame with pc } :: below :=
  runs.modifyTop top (Machine.movesTo_modifyContext runs.running _) rfl rfl

theorem VM.step_eq (isUnit : frame.unit = some unit)
    (decoded : instructionAt? unit.code frame.pc = some instruction) :
    VM.step engine stop machine =
      VM.execute { engine, stop, frame, unit } instruction
        (machine.fetched instruction.next) :=
  VM.step_of_frame (Query.frame_of_runsOn runs top) isUnit decoded

end Instructions

/-! ### The start of a clause -/

theorem VM.execute_loadPending (isLoad : instruction.op = .loadPending) :
    VM.execute { engine, stop, frame, unit } instruction = (do
      setRegister frame.base instruction.operands.a (← loadPending)
      return none) := by
  obtain ⟨op, ⟨a, b, c⟩, address, next⟩ := instruction
  obtain rfl : op = .loadPending := isLoad
  rfl

theorem VM.execute_resumePending (isResume : instruction.op = .resumePending) :
    VM.execute { engine, stop, frame, unit } instruction = (do
      resumePending (← Query.register frame.base instruction.operands.a) stop) := by
  obtain ⟨op, ⟨a, b, c⟩, address, next⟩ := instruction
  obtain rfl : op = .resumePending := isResume
  rfl

/-- Loading what is pending leaves nothing pending. -/
theorem VM.loadPending_of_runsOn (runs : machine.RunsOn context)
    (top : context.activations = frame :: below)
    (stored : departure.StoredAs machine.heap context.pendingValue)
    (isKind : ∀ pending, context.pending = some pending → pending.kind = .ensure) :
    ∃ next changed ensuring, VM.loadPending machine = .ok context.pendingValue next ∧
      next.RunsOn changed ∧ changed.activations = { frame with ensuring } :: below ∧
      changed.pending = none ∧ next.heap = machine.heap := by
  have read := VM.liftM_of_ok (Query.context_of_runsOn runs)
  rw [VM.loadPending, VM.bind_of_ok read, Context.pendingValue] at *
  cases isPending : context.pending with
  | none =>
      refine ⟨machine, context, frame.ensuring, rfl, runs, ?_, isPending, rfl⟩
      rw [top]
  | some pending =>
      rw [isPending] at stored
      obtain ⟨object, found⟩ := stored.found
      have cleared := Machine.movesTo_modifyContext runs.running ({ · with pending := none })
      have clearedRuns : Machine.RunsOn _ { context with pending := none } :=
        runs.movesTo cleared rfl fun other member handle holds => ⟨other, member, holds⟩
      have sameFrames : { context with pending := none }.activations = frame :: below := top
      have isException : (liftM (Query.object pending.record) : VM Object)
          (machine.modifyContext machine.current ({ · with pending := none })) =
            .ok object (machine.modifyContext machine.current ({ · with pending := none })) :=
        VM.liftM_of_ok (Query.object_of_found found)
      dsimp only
      rw [VM.bind_of_ok (VM.modifyContext_ok _), if_pos (isKind pending isPending),
        VM.bind_of_ok isException]
      obtain ⟨loadedRuns, loaded⟩ := clearedRuns.modifyTop sameFrames
        (Machine.movesTo_modifyContext clearedRuns.running (Context.modifyTop · fun frame =>
          { frame with
            ensuring := if object.exception?.isSome then some pending.record else none })) rfl rfl
      exact ⟨_, _, _, rfl, loadedRuns, loaded, rfl, rfl⟩

/-- A departure waits in the register of a clause while its frame is at an address. -/
structure InClause (departure : Departure) (frame : Frame) (below : List Frame)
    (register pc : Nat) (machine : Machine) (context : Context) : Prop where
  runs : machine.RunsOn context
  position : ∃ moved, context.activations = moved :: below ∧ frame.ContinuesAt pc moved
  nothingPending : context.pending = none
  stored : departure.StoredAs machine.heap (context.slot (frame.base + register))

theorem Departure.StoredAs.withArena (stored : departure.StoredAs machine.heap value)
    (arena : Array Handle) : departure.StoredAs (machine.withArena arena).heap value := by
  cases departure <;> exact stored

theorem Departure.StoredAs.of_heap_eq (stored : departure.StoredAs machine.heap value)
    (sameHeap : next.heap = machine.heap) : departure.StoredAs next.heap value := by
  rw [sameHeap]
  exact stored

/-- The first cycle of a clause loads what is pending into the register. -/
theorem VM.cycle_opening {clause : Clause} {start : Nat} {moved : Frame}
    (hasClause : unit.HasClause start clause) (isUnit : frame.unit = some unit)
    (runs : machine.RunsOn context) (top : context.activations = moved :: below)
    (moves : frame.ContinuesAt start moved)
    (stored : departure.StoredAs machine.heap context.pendingValue)
    (isKind : ∀ pending, context.pending = some pending → pending.kind = .ensure) :
    ∃ next changed, VM.cycle engine stop machine = .ok none next ∧
      InClause departure frame below clause.register clause.body next changed := by
  obtain ⟨⟨opening, decoded, isLoad, isRegister, isBody⟩, -, -⟩ := hasClause
  have collected := runs.collectedIfDue
  have storedThere := stored.collectedIfDue runs fun handle => Context.refersTo_pending
  have movedUnit := moves.unit.trans isUnit
  rw [← moves.pc] at decoded
  obtain ⟨fetchedRuns, fetched⟩ := collected.fetched top opening.next
  obtain ⟨loaded, loadedContext, ensuring, loads, loadedRuns, loadedTop, nothingPending,
    sameHeap⟩ := VM.loadPending_of_runsOn fetchedRuns fetched storedThere isKind
  obtain ⟨storedRuns, sameFrames, isStored⟩ :=
    loadedRuns.setSlot (moved.base + clause.register) context.pendingValue
  have stepped : VM.step engine stop machine.collectedIfDue = .ok none
      (loaded.modifyContext loaded.current
        (·.setSlot (moved.base + clause.register) context.pendingValue)) := by
    rw [VM.step_eq collected top movedUnit decoded, VM.execute_loadPending isLoad, isRegister,
      VM.bind_of_ok loads]
    rfl
  obtain ⟨arena, settled⟩ := VM.settle_of_ok stepped
  have position := sameFrames.trans loadedTop
  refine ⟨_, _, VM.cycle_eq.trans settled, storedRuns.withArena arena, ⟨_, position, ?_⟩, ?_, ?_⟩
  · exact ⟨moves.base, moves.top, moves.unit, isBody⟩
  · rw [Context.setSlot_pending, nothingPending]
  · rw [← moves.base, isStored]
    exact (storedThere.of_heap_eq sameHeap).withArena arena

/-! ### The body of a clause -/

/-- The frame on top has gone on to an address, on a stack that is fit to run on and on which
nothing else has become pending. -/
structure Machine.AdvancesTo (next : Machine) (context : Context) (frame : Frame)
    (below : List Frame) (pc : Nat) (changed : Context) : Prop where
  runs : next.RunsOn changed
  position : ∃ moved, changed.activations = moved :: below ∧ frame.ContinuesAt pc moved
  samePending : changed.pending = context.pending

/-- A straight instruction goes on to the address behind it and leaves a register with what
it holds alone. -/
def StraightStep (engine : Engine) (stop register : Nat) (machine : Machine)
    (context : Context) (frame : Frame) (below : List Frame) (pc : Nat) : Prop :=
  ∃ next changed, VM.step engine stop machine = .ok none next ∧
    next.AdvancesTo context frame below pc changed ∧
    changed.slot (frame.base + register) = context.slot (frame.base + register) ∧
    ∀ departure : Departure,
      departure.StoredAs machine.heap (context.slot (frame.base + register)) →
      departure.StoredAs next.heap (context.slot (frame.base + register))

theorem VM.execute_nop (isNop : instruction.op = .nop) :
    VM.execute { engine, stop, frame, unit } instruction = return none := by
  obtain ⟨op, ⟨a, b, c⟩, address, next⟩ := instruction
  obtain rfl : op = .nop := isNop
  rfl

theorem VM.execute_loadNil (isLoad : instruction.op = .loadNil) :
    VM.execute { engine, stop, frame, unit } instruction = (do
      setRegister frame.base instruction.operands.a .nil
      return none) := by
  obtain ⟨op, ⟨a, b, c⟩, address, next⟩ := instruction
  obtain rfl : op = .loadNil := isLoad
  rfl

section Straight

variable {register : Nat} (runs : machine.RunsOn context)
  (top : context.activations = frame :: below) (isUnit : frame.unit = some unit)
  (decoded : instructionAt? unit.code frame.pc = some instruction)

include runs top isUnit decoded

/-- An instruction that does nothing is straight. -/
theorem StraightStep.of_nothing
    (executes : VM.execute { engine, stop, frame, unit } instruction = return none) :
    StraightStep engine stop register machine context frame below instruction.next := by
  obtain ⟨fetchedRuns, fetched⟩ := runs.fetched top instruction.next
  have stepped : VM.step engine stop machine = .ok none (machine.fetched instruction.next) := by
    rw [VM.step_eq runs top isUnit decoded, executes]
    rfl
  exact ⟨_, _, stepped, ⟨fetchedRuns, ⟨_, fetched, ⟨rfl, rfl, rfl, rfl⟩⟩, rfl⟩, rfl,
    fun _ stored => stored⟩

/-- An instruction that stores a value in another register is straight. -/
theorem StraightStep.of_setRegister {other : Nat} {stored : Value} (isOther : register ≠ other)
    (executes : VM.execute { engine, stop, frame, unit } instruction = (do
      VM.setRegister frame.base other stored
      return none)) :
    StraightStep engine stop register machine context frame below instruction.next := by
  obtain ⟨fetchedRuns, fetched⟩ := runs.fetched top instruction.next
  obtain ⟨storedRuns, sameFrames, -⟩ := fetchedRuns.setSlot (frame.base + other) stored
  have stepped : VM.step engine stop machine = .ok none
      ((machine.fetched instruction.next).modifyContext
        (machine.fetched instruction.next).current (·.setSlot (frame.base + other) stored)) := by
    rw [VM.step_eq runs top isUnit decoded, executes]
    rfl
  refine ⟨_, _, stepped, ⟨storedRuns, ⟨_, sameFrames.trans fetched, ⟨rfl, rfl, rfl, rfl⟩⟩, ?_⟩, ?_,
    fun _ waits => waits⟩
  · rw [Context.setSlot_pending]
    rfl
  · rw [Context.slot_setSlot_of_ne _ _ (by omega)]
    rfl

end Straight

/-- A cycle of a straight instruction stays in the clause. -/
theorem VM.cycle_straight {register pc : Nat} {moved : Frame}
    (inClause : InClause departure frame below register pc machine context)
    (top : context.activations = moved :: below) (moves : frame.ContinuesAt pc moved)
    (inside : frame.base + register < frame.top)
    (straight : StraightStep engine stop register machine.collectedIfDue context moved below
      instruction.next) :
    ∃ next changed, VM.cycle engine stop machine = .ok none next ∧
      InClause departure frame below register instruction.next next changed := by
  obtain ⟨next, changed, stepped, ⟨nextRuns, ⟨further, isTop, continues⟩, samePending⟩,
    sameRegister, keeps⟩ := straight
  rw [moves.base] at sameRegister keeps
  have below' : frame.base + register < moved.top := by
    rw [moves.top]
    exact inside
  have member : moved ∈ context.activations := by simp [top]
  have storedThere := inClause.stored.collectedIfDue inClause.runs fun handle =>
    Context.refersTo_slot member below'
  obtain ⟨arena, settled⟩ := VM.settle_of_ok stepped
  refine ⟨_, changed, VM.cycle_eq.trans settled, nextRuns.withArena arena,
    ⟨further, isTop, ?_⟩, samePending.trans inClause.nothingPending, ?_⟩
  · exact ⟨continues.base.trans moves.base, continues.top.trans moves.top,
      continues.unit.trans moves.unit, continues.pc⟩
  · rw [sameRegister]
    exact (keeps departure storedThere).withArena arena

/-! ### The end of a clause -/

/-- Resuming a departure goes on with it. -/
theorem VM.resumePending_of_storedAs (stored : departure.StoredAs machine.heap value) :
    VM.resumePending value stop machine =
      departure.proceed stop (machine.modifyContext machine.current
        (Context.modifyTop · fun frame => { frame with ensuring := none })) := by
  unfold VM.resumePending
  rw [VM.bind_of_ok (VM.modifyFrame_ok _)]
  generalize isCleared : machine.modifyContext machine.current
    (Context.modifyTop · fun frame => { frame with ensuring := none }) = cleared
  have sameHeap : cleared.heap = machine.heap := by
    rw [← isCleared]
    rfl
  have reads {handle : Handle} {object : Object}
      (found : machine.heap.get? handle = some object) :
      (liftM (Query.object handle) : VM Object) cleared = .ok object cleared :=
    VM.liftM_of_ok (Query.object_of_found (by rw [sameHeap, found]))
  cases departure with
  | fall =>
      rw [show value = .nil from stored]
      rfl
  | jump target =>
      obtain ⟨record, object, rfl, found, isExit⟩ := stored
      dsimp only
      rw [VM.bind_of_ok (reads found), isExit]
      rfl
  | leave target result =>
      obtain ⟨record, object, rfl, found, isExit⟩ := stored
      dsimp only
      rw [VM.bind_of_ok (reads found), isExit]
      rfl
  | raise exception =>
      obtain ⟨rfl, object, found, isException⟩ := stored
      dsimp only
      rw [VM.bind_of_ok (reads found)]
      cases isContent : object.content with
      | exception record => rfl
      | _ =>
          rw [Object.exception?, isContent] at isException
          cases isException

/-- The last cycle of a clause goes on with the departure from the end of the clause. -/
theorem VM.cycle_closing {clause : Clause} {start : Nat}
    (hasClause : unit.HasClause start clause) (isUnit : frame.unit = some unit)
    (inside : frame.base + clause.register < frame.top)
    (inClause : InClause departure frame below clause.register clause.closing machine context) :
    ∃ mark left changed resumed, VM.cycle engine stop machine =
        VM.settle stop mark (departure.proceed stop) left ∧
      left.RunsOn changed ∧ changed.activations = resumed :: below ∧
      frame.ContinuesAt clause.finish resumed ∧ changed.pending = none ∧
      departure.StoredAs left.heap (context.slot (frame.base + clause.register)) := by
  obtain ⟨-, -, ⟨closing, decoded, isResume, isRegister, isFinish⟩⟩ := hasClause
  obtain ⟨runs, ⟨moved, top, moves⟩, nothingPending, stored⟩ := inClause
  have collected := runs.collectedIfDue
  have movedUnit := moves.unit.trans isUnit
  have below' : frame.base + clause.register < moved.top := by
    rw [moves.top]
    exact inside
  have member : moved ∈ context.activations := by simp [top]
  have storedThere := stored.collectedIfDue runs fun handle =>
    Context.refersTo_slot member below'
  rw [← moves.pc] at decoded
  obtain ⟨fetchedRuns, fetched⟩ := collected.fetched top closing.next
  obtain ⟨clearedRuns, cleared⟩ := fetchedRuns.modifyTop fetched
    (Machine.movesTo_modifyContext fetchedRuns.running
      (Context.modifyTop · fun frame => { frame with ensuring := none })) rfl rfl
  have isRead : (liftM (Query.register moved.base closing.operands.a) : VM Value)
      (machine.collectedIfDue.fetched closing.next) =
        .ok (context.slot (frame.base + clause.register))
          (machine.collectedIfDue.fetched closing.next) := by
    rw [isRegister, moves.base]
    exact VM.liftM_of_ok (Query.register_of_runsOn fetchedRuns _ _)
  have executes : VM.step engine stop machine.collectedIfDue =
      VM.resumePending (context.slot (frame.base + clause.register)) stop
        (machine.collectedIfDue.fetched closing.next) := by
    rw [VM.step_eq collected top movedUnit decoded, VM.execute_resumePending isResume,
      VM.bind_of_ok isRead]
  have fetchedStored : departure.StoredAs (machine.collectedIfDue.fetched closing.next).heap
      (context.slot (frame.base + clause.register)) := storedThere
  have goesOn := executes.trans (VM.resumePending_of_storedAs fetchedStored)
  refine ⟨_, _, _, _, VM.cycle_eq.trans (VM.settle_congr goesOn), clearedRuns, cleared, ?_,
    nothingPending, storedThere⟩
  exact ⟨moves.base, moves.top, moves.unit, isFinish⟩

end RiteVm
