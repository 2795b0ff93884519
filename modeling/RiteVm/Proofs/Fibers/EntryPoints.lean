import RiteVm.Proofs.Fibers.Asking

/-!
Contract: calls by which a host runs bytecode are balanced.

Owns:
- machines on the same level: the same stack with the same frames, the same fiber, the same
  resumers and as many nested loops;
- the theorem that an entry point which returns or raises ends on the level it began on, in
  every machine that a host and its methods come to;
- the run of a program that halts at once, and the loop that it comes to.

Methods of the host may rescue any failure but a broken invariant, also one after which the
machine cannot go on: whoever left frames behind, the loop of the entry point takes them off.
-/

namespace RiteVm

open RiteVm.Bytecode

namespace Machine

/-- The same stack runs, with the same frames, for the same resumers, in as many loops. -/
structure SameLevel (before after : Machine) : Prop where
  frames : after.frames = before.frames
  current : after.current = before.current
  currentFiber : after.currentFiber = before.currentFiber
  resumers : after.resumers = before.resumers
  nativeDepth : after.nativeDepth = before.nativeDepth

end Machine

namespace VM

variable {tidy : Prop} {machine : Machine}

/-- A firm action that returns or raises ends on its level. -/
theorem BalancedFrom.sameLevel {α : Type} {action action' : VM α}
    (balanced : BalancedFrom tidy True machine action action') (returns : IsMild (action machine)) :
    machine.SameLevel (action.after machine) := by
  obtain ⟨-, leads, ends⟩ := balanced
  have beside := (leads returns.intact).beside
  refine ⟨?_, beside.current, beside.currentFiber, beside.resumers, beside.nativeDepth⟩
  cases result : action machine with
  | ok value next =>
      rw [result] at ends
      rw [after_of_ok result]
      exact ends trivial
  | error failure next =>
      rw [result] at ends returns
      rw [after_of_error result]
      exact ends trivial returns

/-! ### A program that halts -/

/-- Code that does nothing but halt. -/
def haltingUnit : CodeUnit :=
  { localCount := 1, registerCount := 1, code := #[Opcode.stop.toByte], handlers := []
    pool := #[], symbols := #[], children := [] }

theorem haltingUnit_validate : haltingUnit.validate = .ok () := by cbv

/-- The machine runs the halting program, in the only frame of the main stack. -/
structure Halts (machine : Machine) (context : Context) (frame : Frame) : Prop where
  runs : machine.RunsOn context
  top : context.activations = [frame]
  unit : frame.unit = some haltingUnit
  pc : frame.pc = 0

theorem Halts.returnValue {context : Context} {frame : Frame} (runs : machine.RunsOn context)
    (top : context.activations = [frame]) (isUnit : frame.unit = some haltingUnit) (value : Value) :
    ∃ next, returnValue value 0 machine = .ok (some (.returned value)) next := by
  have depth : Query.depth machine = .ok 1 := by
    rw [Query.depth_of_runsOn runs, top]
    rfl
  have noClause : Query.coveringEnsure? machine = .ok none := by
    rw [Query.coveringEnsure?_of_runsOn runs top, isUnit]
    rfl
  obtain ⟨next, popped, -⟩ := popFrame?_of_runsOn runs top
  refine ⟨next, ?_⟩
  rw [VM.returnValue, bind_of_ok (liftM_of_ok depth), exitTo, bind_of_ok (liftM_of_ok depth),
    leaveFrames, bind_of_ok (liftM_of_ok noClause)]
  exact bind_of_ok popped

theorem Halts.cycle {context : Context} {frame : Frame} (halts : Halts machine context frame)
    (engine : Engine) :
    ∃ value next, cycle engine 0 machine = .ok (some (.returned value)) next := by
  obtain ⟨runs, top, isUnit, atStart⟩ := halts
  have collected := runs.collectedIfDue
  have decoded : instructionAt? haltingUnit.code frame.pc =
      some { op := .stop, operands := {}, address := 0, next := 1 } := by
    rw [atStart]
    rfl
  obtain ⟨fetchedRuns, fetched⟩ := collected.fetched top 1
  obtain ⟨value, isRead⟩ : ∃ value, Query.register frame.base haltingUnit.localCount.toNat
      (machine.collectedIfDue.fetched 1) = .ok value :=
    ⟨_, Query.register_of_runsOn fetchedRuns _ _⟩
  obtain ⟨next, returned⟩ := Halts.returnValue fetchedRuns fetched isUnit value
  have stepped : VM.step engine 0 machine.collectedIfDue = .ok (some (.returned value)) next := by
    rw [VM.step_eq collected top isUnit decoded]
    exact (bind_of_ok (liftM_of_ok isRead)).trans returned
  obtain ⟨arena, settled⟩ := VM.settle_of_ok stepped
  exact ⟨_, _, VM.cycle_eq.trans settled⟩

/-- A machine that runs no frame, on the main stack, takes a program. -/
structure Takes (machine : Machine) : Prop where
  linked : machine.Linked True
  isRoot : machine.current = Machine.rootContext
  running : machine.context? machine.current = some {}
  calls : 0 < machine.config.maxCallDepth
  room : HasRoom machine

/-- The proc of the halting program. -/
def haltingProc (machine : Machine) (target : Handle) : Object :=
  { classHandle := machine.coreClass .proc
    content := .proc
      { unit := haltingUnit, upper := none, env := none, targetClass := target, strict := true } }

/-- The frame in which a proc runs the halting program. -/
def haltingFrame (proc target : Handle) : Frame :=
  { base := 0, top := 1, proc := some proc, unit := some haltingUnit, argCount := 0
    hasKeywords := false, method := none, owner := none, targetClass := target, boundary := true
    block := .nil }

/-- The frame of a program is pushed on the empty stack. -/
theorem Takes.pushProgramFrame (takes : Takes machine) (self : Value) (target : Handle) :
    ∃ next context frame, pushProgramFrame haltingUnit self target machine = .ok () next ∧
      HasRoom next ∧ Halts (deeper next) context frame := by
  obtain ⟨linked, isRoot, running, calls, room⟩ := takes
  let code := haltingProc machine target
  let proc := (machine.heap.allocate code).2
  let loaded : Machine := machine.allocate code
  let cleared := loaded.modifyContext loaded.current (·.clear 0 1)
  let stored := cleared.modifyContext cleared.current (·.setSlot 0 self)
  let pushed := stored.modifyContext stored.current fun context =>
    { context with frames := context.frames.push (haltingFrame proc target) }
  have isEmpty : loaded.context? loaded.current = some {} := running
  have depth : Query.depth loaded = .ok 0 := by
    rw [Query.depth, Query.bind_of_ok (by rw [Query.context, isEmpty])]
    rfl
  have enough : ¬ loaded.config.maxCallDepth ≤ 0 := Nat.not_le_of_lt calls
  have pushes : VM.pushProgramFrame haltingUnit self target machine = .ok () pushed := by
    have newProc : newProc haltingUnit none none target true machine = .ok proc loaded := rfl
    have read : Query.context loaded = .ok {} := by rw [Query.context, isEmpty]
    have checked : checkDepth loaded = .ok () loaded := by
      rw [checkDepth, get_bind, bind_of_ok (liftM_of_ok depth), if_neg enough]
      rfl
    have checkedNative : checkNativeDepth loaded = .ok () loaded := checkNativeDepth_of_room room
    rw [VM.pushProgramFrame, bind_of_ok newProc, bind_of_ok (liftM_of_ok read),
      bind_of_ok checked, bind_of_ok checkedNative]
    rfl
  have isCleared := Machine.context?_modifyContext isEmpty (·.clear 0 1)
  have isStored := Machine.context?_modifyContext isCleared (·.setSlot 0 self)
  have isPushed := Machine.context?_modifyContext isStored fun context =>
    { context with frames := context.frames.push (haltingFrame proc target) }
  refine ⟨pushed, _, haltingFrame proc target, pushes, room,
    ⟨isPushed, linked.wellFormed.allocate code, ?_, ?_⟩, rfl, rfl, rfl⟩
  · -- the frame holds nothing but its proc
    intro frame member handle holds
    obtain rfl : frame = haltingFrame proc target := List.mem_singleton.mp member
    rcases holds with isProc | isEnv
    · obtain rfl : proc = handle := Option.some.inj isProc
      exact ⟨code, (linked.wellFormed.get?_allocate code proc).trans (if_pos rfl)⟩
    · cases isEnv
  · -- no fiber runs on the stack of the main program
    intro handle object record found isFiber onRoot
    have found : (machine.heap.allocate code).1.get? handle = some object := found
    rw [linked.wellFormed.get?_allocate] at found
    split at found
    · obtain rfl := Option.some.inj found
      cases isFiber
    · have wasFiber : machine.fiber? handle = some record := by
        rw [Machine.fiber?, Heap.fiber?, found, Option.bind_some, Object.fiber?, isFiber]
      exact absurd (onRoot.trans isRoot) (linked.fits handle record wasFiber).notRoot

/-- What becomes of the halting program is what its loop ends in, whatever object it runs for. -/
theorem Takes.runUnit_of_loop {next last : Machine} {engine : Engine} {result : Except Failure Exit}
    {self : Value} {target : Handle} (takes : Takes machine)
    (pushes : VM.pushProgramFrame haltingUnit self target machine = .ok () next)
    (room : HasRoom next) (ran : engine.loop 0 (deeper next) = ended result last) :
    runUnit engine haltingUnit self target machine = finishCall result (shallower last) := by
  have nests : attempt (nested (engine.loop 0)) next = .ok result (shallower last) := by
    rw [attempt, nested_of_room room, ran]
    cases result <;> rfl
  have read : Query.context machine = .ok {} := by rw [Query.context, takes.running]
  have depth : Query.depth machine = .ok 0 := by
    rw [Query.depth, Query.bind_of_ok read]
    rfl
  rw [runUnit, bind_of_ok (liftM_of_ok depth), bind_of_ok pushes, bind_of_ok nests]

theorem Takes.run_of_loop {next last : Machine} {engine : Engine} {result : Except Failure Exit}
    (takes : Takes machine)
    (pushes : VM.pushProgramFrame haltingUnit (.object machine.mainObject)
      (machine.coreClass .object) machine = .ok () next)
    (room : HasRoom next) (ran : engine.loop 0 (deeper next) = ended result last) :
    VM.run engine haltingUnit machine = finishCall result (shallower last) := by
  rw [VM.run, haltingUnit_validate]
  exact takes.runUnit_of_loop pushes room ran

/-- A machine that takes programs runs the halting one for every object. -/
theorem Takes.runUnit {hosts : Array HostMethod} {fuel : Nat} (takes : Takes machine) (self : Value)
    (target : Handle) :
    ∃ value next, VM.runUnit (.ofHosts hosts (fuel + 1)) haltingUnit self target machine =
      .ok value next := by
  obtain ⟨next, context, frame, pushes, room, halts⟩ := takes.pushProgramFrame self target
  obtain ⟨value, last, cycled⟩ := halts.cycle (.ofHosts hosts fuel)
  have loops : (Engine.ofHosts hosts (fuel + 1)).loop 0 (deeper next) =
      ended (.ok (.returned value)) last :=
    bind_of_ok cycled
  exact ⟨value, shallower last, takes.runUnit_of_loop pushes room loops⟩

/-- A machine that takes programs runs the halting one. -/
theorem Takes.run {hosts : Array HostMethod} {fuel : Nat} (takes : Takes machine) :
    ∃ value next, VM.run (.ofHosts hosts (fuel + 1)) haltingUnit machine = .ok value next := by
  rw [VM.run, haltingUnit_validate]
  exact takes.runUnit (.object machine.mainObject) (machine.coreClass .object)

/-- A run of the halting program comes to its loop. -/
theorem Takes.comesTo_loop {next : Machine} {context : Context} {frame : Frame}
    {hosts : Array HostMethod} {fuel : Nat} (takes : Takes machine)
    (pushes : VM.pushProgramFrame haltingUnit (.object machine.mainObject)
      (machine.coreClass .object) machine = .ok () next)
    (room : HasRoom next) (halts : Halts (deeper next) context frame) :
    (Engine.ofHosts hosts (fuel + 1)).ComesTo (VM.run · haltingUnit) machine (.loop 0)
      (deeper next) := by
  obtain ⟨value, last, cycled⟩ := halts.cycle (.ofHosts hosts fuel)
  have returns : (Engine.ofHosts hosts (fuel + 1)).loop 0 (deeper next) =
      ended (.ok (.returned value)) last :=
    bind_of_ok cycled
  have stops : (Engine.ofHosts hosts 0).loop 0 (deeper next) =
      ended (.error .outOfFuel) (deeper next) := rfl
  have differs : VM.run (.ofHosts hosts 0) haltingUnit machine ≠
      VM.run (.ofHosts hosts (fuel + 1)) haltingUnit machine := by
    rw [takes.run_of_loop pushes room stops, takes.run_of_loop pushes room returns]
    rintro ⟨⟩
  refine Engine.comesTo_of_same _ (fun engine engine' alike => ?_) differs
  obtain ⟨result, last, ran⟩ := exists_ended (engine.loop 0) (deeper next)
  rw [takes.run_of_loop pushes room ran, takes.run_of_loop pushes room (alike.symm.trans ran)]

/-- A new machine takes programs if its limits leave room. -/
theorem takes_new_of_pos {config : Config} (calls : 0 < config.maxCallDepth)
    (nesting : 0 < config.maxNativeDepth) : Takes (.new config) := by
  have keeps := Machine.keepsFibers_new config
  refine ⟨Machine.linked_new config, keeps.current, ?_, ?_, ?_⟩
  · rw [keeps.context?_eq, keeps.current]
    rfl
  · rw [keeps.config]
    exact calls
  · rw [HasRoom, keeps.nativeDepth, keeps.config]
    exact nesting

theorem takes_new : Takes (.new {}) :=
  takes_new_of_pos (by decide) (by decide)

end VM

/-! ### Entry points -/

namespace Machine

variable {machine : Machine} {call : Engine → VM Value}

/-- An entry point that returns or raises, in any machine that a host and its methods come
to, ends on the level it began on. -/
theorem Visited.entryPoint_sameLevel {config : Config} {catches : Failure → Bool}
    {hosts : Array HostMethod} (most : CatchesAtMost False catches)
    (conform : HostsConform catches hosts) (visited : Visited config catches hosts .host machine)
    (entry : EntryPoint call) (fuel : Nat)
    (returns : IsMild (call (.ofHosts hosts fuel) machine)) :
    machine.SameLevel ((call (.ofHosts hosts fuel)).after machine) := by
  have linked : machine.Linked False := (visited.fitsAt most conform).1
  have agrees := Engine.agrees_ofHosts most conform fuel
  have balanced : VM.Balanced False True (call (.ofHosts hosts fuel)) (call (.ofHosts hosts fuel)) :=
    .of_entryPoint entry
  exact (balanced.balancedFrom machine linked).sameLevel returns

/-- The halting program runs on a new machine, with a host that rescues every failure. -/
theorem entryPoint_sameLevel_new_halting :
    (new {}).SameLevel
      ((VM.run (.ofHosts #[rescuingMethod fun failure => !failure.isBreach] 1)
        VM.haltingUnit).after (new {})) :=
  have most : CatchesAtMost False fun failure => !failure.isBreach := ⟨fun _ => rfl, nofun⟩
  have returns : IsMild (VM.run (.ofHosts #[rescuingMethod fun failure => !failure.isBreach] 1)
      VM.haltingUnit (new {})) := by
    obtain ⟨value, next, ran⟩ := VM.takes_new.run
    rw [ran]
    trivial
  Visited.new.entryPoint_sameLevel most (hostsConform_rescuing _) (.run VM.haltingUnit) 1 returns

end Machine

end RiteVm
