import RiteVm.Proofs.Fibers.EntryPoints
import RiteVm.Proofs.Soundness.Steady
import RiteVm.Proofs.Unwinding.Exits

/-!
Contract: jumps, returns and breaks pass rescue clauses by, and rescue clauses find exceptions.

Owns:
- what a cycle has to go on with: an exit that its instruction makes, that waited for the end of
  a clause or that comes out of a call, or an exception;
- that what comes out of a call leaves a steady machine, and what is raised is an exception;
- where each of these lands, from every machine that a loop comes to.

Does not own: which clauses are entered, and how often, in code that is laid out.
-/

namespace RiteVm

open RiteVm.Bytecode

/-! ### Departures of a cycle -/

/-- The next instruction of the running frame. -/
structure Machine.Fetches (machine : Machine) (context : Context) (frame : Frame)
    (below : List Frame) (unit : CodeUnit) (instruction : Instruction) : Prop where
  running : machine.context? machine.current = some context
  top : context.activations = frame :: below
  isUnit : frame.unit = some unit
  decoded : instructionAt? unit.code frame.pc = some instruction

/-- What goes on behind the ensure clause that a record waits for. -/
def ExitRecord.departure (exit : ExitRecord) : Departure :=
  match exit.target with
  | .frame target => .leave target exit.value
  | .address target => .jump target

theorem ExitRecord.isExit_departure (exit : ExitRecord) : exit.departure.IsExit := by
  obtain ⟨target, value⟩ := exit
  cases target <;> trivial

/-- A cycle of a loop has to go on with a departure, from some frames with something pending or
not. -/
inductive Departing (engine : Engine) (stop : Nat) (machine : Machine) :
    Departure → List Frame → Option Pending → Prop where
  /-- an instruction jumps, breaks or returns -/
  | leaving {context : Context} {frame : Frame} {below : List Frame} {unit : CodeUnit}
      {instruction : Instruction} {departure : Departure} :
      machine.Fetches context frame below unit instruction →
      Leaves engine stop machine.collectedIfDue context frame below instruction departure →
      departure.IsExit →
      Departing engine stop machine departure ({ frame with pc := instruction.next } :: below)
        context.pending
  /-- an instruction ends the program -/
  | ending {context : Context} {frame : Frame} {below : List Frame} {unit : CodeUnit}
      {instruction : Instruction} :
      machine.Fetches context frame below unit instruction → instruction.op = .stop →
      Departing engine stop machine
        (.leave below.length (context.slot (frame.base + unit.localCount.toNat)))
        ({ frame with pc := instruction.next } :: below) context.pending
  /-- an instruction ends the clause that an exit has waited for -/
  | resuming {context : Context} {frame : Frame} {below : List Frame} {unit : CodeUnit}
      {instruction : Instruction} {record : Handle} {object : Object} {exit : ExitRecord} :
      machine.Fetches context frame below unit instruction → instruction.op = .resumePending →
      context.slot (frame.base + instruction.operands.a) = .object record →
      machine.collectedIfDue.heap.get? record = some object → object.content = .exit exit →
      Departing engine stop machine exit.departure
        ({ frame with pc := instruction.next, ensuring := none } :: below) context.pending
  /-- an exit comes out of a call -/
  | passing {target : Nat} {value : Value} {next : Machine} {context : Context} :
      VM.step engine stop machine.collectedIfDue = .error (.unwinding target value) next →
      next.context? next.current = some context → stop < context.activations.length →
      Departing engine stop machine (.leave target value) context.activations context.pending
  /-- an exception is raised, or comes out of a call -/
  | raising {exception : Handle} {next : Machine} {context : Context} :
      VM.step engine stop machine.collectedIfDue = .error (.raised exception) next →
      next.context? next.current = some context → stop < context.activations.length →
      Departing engine stop machine (.raise exception) context.activations context.pending

section Steps

variable {engine : Engine} {stop : Nat} {machine next : Machine} {context : Context}
  {frame : Frame} {below : List Frame} {unit : CodeUnit} {instruction : Instruction}
  {limits : Config} {strict : Prop} {level : Nat}

/-- Behind its clause an exit goes on. -/
theorem VM.resumePending_of_exit {record : Handle} {object : Object} {exit : ExitRecord}
    (found : machine.heap.get? record = some object) (isExit : object.content = .exit exit) :
    resumePending (.object record) stop machine =
      exit.departure.proceed stop (machine.modifyContext machine.current
        (Context.modifyTop · fun frame => { frame with ensuring := none })) := by
  have read : (liftM (Query.object record) : VM Object)
      (machine.modifyContext machine.current
        (Context.modifyTop · fun frame => { frame with ensuring := none })) = .ok object _ :=
    liftM_of_ok (Query.object_of_found found)
  obtain ⟨target, value⟩ := exit
  rw [resumePending, bind_of_ok (modifyFrame_ok _), bind_of_ok read, isExit]
  cases target <;> rfl

theorem VM.execute_stop (isStop : instruction.op = .stop) :
    VM.execute { engine, stop, frame, unit } instruction = (do
      returnValue (← Query.register frame.base unit.localCount.toNat) stop) := by
  obtain ⟨op, ⟨a, b, c⟩, address, next⟩ := instruction
  obtain rfl : op = .stop := isStop
  rfl

namespace Machine.Fetches

variable (fetches : machine.Fetches context frame below unit instruction)
  (runs : machine.RunsOn context)
include fetches runs

/-- An exit lands that an instruction goes on with. -/
theorem lands_of_step {departure : Departure} (inside : stop ≤ below.length)
    (isExit : departure.IsExit)
    (stepped : VM.step engine stop machine.collectedIfDue =
      departure.proceed stop (machine.collectedIfDue.fetched instruction.next)) :
    Lands stop context.pending ({ frame with pc := instruction.next } :: below) departure
      (VM.cycle engine stop machine) := by
  obtain ⟨fetchedRuns, fetched⟩ := runs.collectedIfDue.fetched fetches.top instruction.next
  rw [VM.cycle_eq, VM.settle_congr stepped]
  exact lands_settle_proceed isExit fetchedRuns fetched inside _

/-- The end of the program returns from the frame. -/
theorem step_of_stop (isStop : instruction.op = .stop) :
    VM.step engine stop machine.collectedIfDue =
      (Departure.leave below.length (context.slot (frame.base + unit.localCount.toNat))).proceed stop
        (machine.collectedIfDue.fetched instruction.next) := by
  obtain ⟨fetchedRuns, fetched⟩ := runs.collectedIfDue.fetched fetches.top instruction.next
  rw [VM.step_eq runs.collectedIfDue fetches.top fetches.isUnit fetches.decoded,
    VM.execute_stop isStop, VM.bind_of_ok (VM.liftM_of_ok (Query.register_of_runsOn fetchedRuns _ _)),
    VM.returnValue,
    VM.bind_of_ok (VM.liftM_of_ok (Query.depth_of_runsOn fetchedRuns)), fetched, List.length_cons]
  rfl

/-- The end of the clause that an exit has waited for lands the exit. -/
theorem lands_resuming {record : Handle} {object : Object} {exit : ExitRecord}
    (inside : stop ≤ below.length)
    (isResume : instruction.op = .resumePending)
    (isRecord : context.slot (frame.base + instruction.operands.a) = .object record)
    (found : machine.collectedIfDue.heap.get? record = some object)
    (isExit : object.content = .exit exit) :
    Lands stop context.pending
      ({ frame with pc := instruction.next, ensuring := none } :: below) exit.departure
      (VM.cycle engine stop machine) := by
  have collected := runs.collectedIfDue
  obtain ⟨fetchedRuns, fetched⟩ := collected.fetched fetches.top instruction.next
  obtain ⟨clearedRuns, cleared⟩ := fetchedRuns.modifyTop fetched
    (Machine.movesTo_modifyContext fetchedRuns.running
      (Context.modifyTop · fun frame => { frame with ensuring := none })) rfl rfl
  have isRead : (liftM (Query.register frame.base instruction.operands.a) : VM Value)
      (machine.collectedIfDue.fetched instruction.next) =
        .ok (.object record) (machine.collectedIfDue.fetched instruction.next) := by
    rw [← isRecord]
    exact VM.liftM_of_ok (Query.register_of_runsOn fetchedRuns _ _)
  let fetched := machine.collectedIfDue.fetched instruction.next
  have resumed : VM.step engine stop machine.collectedIfDue = exit.departure.proceed stop
      (fetched.modifyContext fetched.current
        (Context.modifyTop · fun frame => { frame with ensuring := none })) := by
    rw [VM.step_eq collected fetches.top fetches.isUnit fetches.decoded,
      VM.execute_resumePending isResume, VM.bind_of_ok isRead]
    exact VM.resumePending_of_exit found isExit
  rw [VM.cycle_eq, VM.settle_congr resumed]
  exact lands_settle_proceed exit.isExit_departure clearedRuns cleared inside _

end Machine.Fetches

/-- What comes out of the next instruction leaves a steady machine, and is an exception if it is
raised. -/
theorem steady_of_step (linked : machine.Linked False) (runs : machine.RunsFrom stop)
    (sound : machine.SoundAt limits strict level)
    (serves : ∀ next, engine.Serves limits strict level next engine) [engine.Agrees False engine]
    {failure : Failure} (isIntact : failure.isBreach = false)
    (ended : VM.step engine stop machine.collectedIfDue = .error failure next) :
    next.Steady limits strict level ∧
      (strict → ∀ exception, failure = .raised exception → next.IsException exception) := by
  have collects : VM.Balanced False True VM.collectIfDue VM.collectIfDue := inferInstance
  obtain ⟨-, leads, ends⟩ := collects.balancedFrom machine linked
  have collected : VM.SustainsFrom limits strict level machine VM.collectIfDue VM.collectIfDue :=
    .of_sustains sound
  have collectedSound := collected.sound_of_ok VM.collectIfDue_ok
  rw [VM.collectIfDue_ok, VM.after_of_ok VM.collectIfDue_ok] at leads
  rw [VM.collectIfDue_ok] at ends
  have collectedRuns : machine.collectedIfDue.RunsFrom stop := by
    rw [Machine.RunsFrom, ends trivial]
    exact runs
  have executes : VM.Executes False stop (VM.step engine stop) (VM.step engine stop) := inferInstance
  obtain ⟨-, leads', -⟩ := executes.executesFrom _ (leads trivial).linked collectedRuns
  rw [ended, VM.after_of_error ended] at leads'
  have steps : VM.SustainsFrom limits strict level machine.collectedIfDue (VM.step engine stop)
      (VM.step engine stop) :=
    VM.sustainsFrom_step collectedSound (serves _)
  refine ⟨(steps.sound_of_error ended).steady (leads' isIntact).linked, ?_⟩
  rintro isStrict exception rfl
  exact steps.raises isStrict exception next ended

/-- A departure lands from a steady machine whose loop has a frame to run from. -/
theorem Departing.lands {departure : Departure} {frames : List Frame} {pending : Option Pending}
    (departing : Departing engine stop machine departure frames pending)
    (linked : machine.Linked False) (runs : machine.RunsFrom stop)
    (sound : machine.SoundAt limits True level)
    (serves : ∀ next, engine.Serves limits True level next engine) [engine.Agrees False engine] :
    Lands stop pending frames departure (VM.cycle engine stop machine) := by
  have steady := sound.steady linked
  have inLoop {context : Context} {frame : Frame} {below : List Frame} {unit : CodeUnit}
      {instruction : Instruction} (fetches : machine.Fetches context frame below unit instruction) :
      stop ≤ below.length := by
    have isInside := runs.lt
    rw [Machine.frames_of_context? fetches.running, Array.length_toList,
      Context.size_of_activations fetches.top] at isInside
    exact Nat.le_of_lt_succ isInside
  cases departing with
  | leaving fetches leaves isExit =>
      have runs := steady.runsOn fetches.running
      exact fetches.lands_of_step runs (inLoop fetches) isExit
        (leaves.step_of_exit isExit runs.collectedIfDue fetches.top fetches.isUnit fetches.decoded)
  | ending fetches isStop =>
      have runs := steady.runsOn fetches.running
      exact fetches.lands_of_step runs (inLoop fetches) trivial (fetches.step_of_stop runs isStop)
  | resuming fetches isResume isRecord found isExit =>
      exact fetches.lands_resuming (steady.runsOn fetches.running) (inLoop fetches) isResume isRecord
        found isExit
  | passing ended running inside =>
      have next := (steady_of_step linked runs sound serves rfl ended).1
      rw [VM.cycle_eq]
      exact lands_settle_exiting ended (next.runsOn running) inside
  | raising ended running inside =>
      obtain ⟨next, isException⟩ := steady_of_step linked runs sound serves rfl ended
      rw [VM.cycle_eq]
      exact lands_settle_raised ended (next.runsOn running) inside
        (isException trivial _ rfl).exists_object

end Steps

/-! ### Machines that a run comes to -/

/-- Rescue clauses are for exceptions only. -/
structure Machine.SparesRescues (hosts : Array HostMethod) (place : Place) (machine : Machine) :
    Prop where
  /-- what a rescue clause finds is an exception -/
  rescue : ∀ id context pending, machine.context? id = some context →
    context.pending = some pending → pending.kind = .rescue →
    ∃ object, machine.heap.get? pending.record = some object ∧ object.exception?.isSome
  /-- what an ensure clause finds is an exception, or the record of an exit -/
  ensure : ∀ id context pending, machine.context? id = some context →
    context.pending = some pending → pending.kind = .ensure →
    ∃ object, machine.heap.get? pending.record = some object ∧
      (object.exception?.isSome ∨ ∃ exit, object.content = .exit exit)
  /-- a departure lands, and an exit among the handlers in ensure clauses only -/
  lands : ∀ fuel stop departure frames pending, place = .loop stop →
    Departing (.ofHosts hosts fuel) stop machine departure frames pending →
    Lands stop pending frames departure (VM.cycle (.ofHosts hosts fuel) stop machine)

/-- In every machine that a host comes to, rescue clauses are for exceptions only, if the methods
of the host raise nothing else. -/
theorem Machine.Visited.sparesRescues {config : Config} {catches : Failure → Bool}
    {hosts : Array HostMethod} {place : Place} {machine : Machine}
    (most : CatchesAtMost False catches) (conform : HostsConform catches hosts)
    (raising : RaiseExceptions config hosts) (visited : machine.Visited config catches hosts place) :
    machine.SparesRescues hosts place := by
  obtain ⟨level, visitedAt⟩ := visited.exists_visitedAt
  have sound : machine.SoundAt config True level := visitedAt.sound most conform fun _ => raising
  obtain ⟨linked, runs⟩ := visited.fitsAt most conform
  have fits {id : ContextId} {context : Context} {pending : Pending}
      (found : machine.context? id = some context) (isPending : context.pending = some pending) :
      pending.Fits machine.role? :=
    (sound.contexts id context found).pending trivial pending isPending
  refine ⟨?_, ?_, ?_⟩
  · intro id context pending found isPending isRescue
    have isException := fits found isPending
    rw [Pending.Fits, isRescue] at isException
    exact IsException.exists_object isException
  · intro id context pending found isPending isEnsure
    have isEither := fits found isPending
    rw [Pending.Fits, isEnsure] at isEither
    rcases isEither with isException | isExit
    · obtain ⟨object, found, isException⟩ := IsException.exists_object isException
      exact ⟨object, found, .inl isException⟩
    · obtain ⟨object, found, isRole⟩ := Option.map_eq_some_iff.mp isExit
      refine ⟨object, found, .inr ?_⟩
      cases isContent : object.content with
      | exit record => exact ⟨record, rfl⟩
      | _ => rw [isContent] at isRole; cases isRole
  · rintro fuel stop departure frames pending rfl departing
    have sustained (level : Nat) :
        (Engine.ofHosts hosts fuel).Sustained config True level (.ofHosts hosts fuel) :=
      Engine.sustained_ofHosts conform fuel level fun _ fewer _ => raising fewer
    have agrees := Engine.agrees_ofHosts most conform fuel
    exact departing.lands linked (runs stop rfl) sound fun _ =>
      ⟨fun _ => (sustained level).answers, fun _ => sustained (level + 1)⟩

/-- The halting program spares rescue clauses as it ends, with a host that rescues what its
block raises. -/
theorem Machine.sparesRescues_halting :
    ∃ machine value frames pending,
      Departing (.ofHosts #[rescuingMethod Failure.isMild] 0) 0 machine (.leave 0 value) frames
        pending ∧
      machine.SparesRescues #[rescuingMethod Failure.isMild] (.loop 0) := by
  obtain ⟨next, context, frame, pushes, room, halts⟩ :=
    VM.takes_new.pushProgramFrame (.object (Machine.new {}).mainObject)
      ((Machine.new {}).coreClass .object)
  have decoded : instructionAt? VM.haltingUnit.code frame.pc =
      some { op := .stop, operands := {}, address := 0, next := 1 } := by
    rw [halts.pc]
    rfl
  have visited : (VM.deeper next).Visited {} Failure.isMild #[rescuingMethod Failure.isMild]
      (.loop 0) :=
    .start 1 .new (.host (.entry (.run VM.haltingUnit)))
      (VM.takes_new.comesTo_loop pushes room halts)
  exact ⟨VM.deeper next, _, _, _, .ending ⟨halts.runs.running, halts.top, halts.unit, decoded⟩ rfl,
    visited.sparesRescues ⟨fun _ => rfl, nofun⟩ (hostsConform_rescuing _)
      (raiseExceptions_rescuing {} _)⟩

end RiteVm
