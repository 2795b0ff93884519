import RiteVm.Proofs.Soundness.Runs
import RiteVm.Proofs.Unwinding.Landing

/-!
Contract: machines that can go on with their current stack, and what they raise themselves.

Owns:
- steady machines, which are sound, have a current stack, and no stack for two fibers;
- every machine that a run comes to is steady, and stays so through edits;
- a steady machine runs on its current stack;
- reports: an exception of a core class with a message, which is raised wherever a machine
  runs on its stack.
-/

namespace RiteVm

open RiteVm.Machine (rootContext)

namespace Machine

variable {limits : Config} {strict tidy : Prop} {level : Nat} {machine next : Machine}
  {context : Context}

/-! ### Steady machines -/

theorem isSome_role?_iff {handle : Handle} :
    (machine.role? handle).isSome ↔ ∃ object, machine.heap.get? handle = some object := by
  rw [role?, Heap.role?, Option.isSome_map, Option.isSome_iff_exists]

theorem role?_eq_fiber_iff {handle : Handle} {id : ContextId} :
    machine.role? handle = some (.fiber id) ↔
      ∃ object record, machine.heap.get? handle = some object ∧ object.content = .fiber record ∧
        record.context = id := by
  constructor
  · intro isFiber
    obtain ⟨object, found, isRole⟩ := Option.map_eq_some_iff.mp isFiber
    cases isContent : object.content with
    | fiber record =>
        rw [isContent] at isRole
        exact ⟨object, record, found, isContent, by injection isRole⟩
    | _ => rw [isContent] at isRole; cases isRole
  · rintro ⟨object, record, found, isContent, rfl⟩
    rw [role?, Heap.role?, found, Option.map_some, isContent]
    rfl

/-- A sound machine whose current stack is there. Each fiber has a stack of its own. -/
structure Steady (limits : Config) (strict : Prop) (level : Nat) (machine : Machine) : Prop where
  sound : machine.SoundAt limits strict level
  live : (machine.context? machine.current).isSome
  apart : ∀ first second id, machine.role? first = some (.fiber id) →
    machine.role? second = some (.fiber id) → first = second
  notRoot : ∀ handle, machine.role? handle ≠ some (.fiber rootContext)

theorem SoundAt.steady (sound : machine.SoundAt limits strict level) (linked : machine.Linked tidy) :
    machine.Steady limits strict level := by
  have fiber {handle : Handle} {id : ContextId} (isFiber : machine.role? handle = some (.fiber id)) :
      ∃ record, machine.fiber? handle = some record ∧ record.context = id := by
    obtain ⟨object, record, found, isContent, isStack⟩ := role?_eq_fiber_iff.mp isFiber
    refine ⟨record, ?_, isStack⟩
    rw [fiber?, Heap.fiber?, found, Option.bind_some, Object.fiber?, isContent]
  refine ⟨sound, linked.live_current, ?_, ?_⟩
  · intro first second id isFirst isSecond
    obtain ⟨_, found, isStack⟩ := fiber isFirst
    obtain ⟨_, found', isStack'⟩ := fiber isSecond
    exact linked.apart first second _ _ found found' (.inl (isStack.trans isStack'.symm))
  · intro handle isFiber
    obtain ⟨record, found, isStack⟩ := fiber isFiber
    exact (linked.fits handle record found).notRoot isStack

namespace Steady

theorem of_edited (steady : machine.Steady limits strict level) (edited : machine.Edited next) :
    next.Steady limits strict level := by
  have wellFormed := steady.sound.wellFormed
  have sameRun := edited.sameRun
  refine ⟨steady.sound.of_edited edited, ?_, ?_, ?_⟩
  · have sameCount := sameRun.frameCount? next.current
    rw [frameCount?, frameCount?, sameRun.current] at sameCount
    rw [sameRun.current]
    obtain ⟨context, running⟩ := Option.isSome_iff_exists.mp steady.live
    rw [running] at sameCount
    obtain ⟨context', found, -⟩ := Option.map_eq_some_iff.mp sameCount
    exact Option.isSome_of_eq_some found
  · intro first second id isFirst isSecond
    exact steady.apart first second id (edited.role?_of_fiber wellFormed isFirst)
      (edited.role?_of_fiber wellFormed isSecond)
  · intro handle isFiber
    exact steady.notRoot handle (edited.role?_of_fiber wellFormed isFiber)

/-- A steady machine runs on its current stack. -/
theorem runsOn (steady : machine.Steady limits strict level)
    (running : machine.context? machine.current = some context) : machine.RunsOn context where
  running := running
  wellFormed := steady.sound.wellFormed
  held frame member handle holds := by
    have isFrame := Context.mem_frames_iff.mpr member
    exact isSome_role?_iff.mp ((steady.sound.contexts _ _ running).held frame isFrame handle holds)
  owned handle object record found isFiber isCurrent := by
    have isOwner : machine.role? handle = some (.fiber machine.current) :=
      role?_eq_fiber_iff.mpr ⟨object, record, found, isFiber, isCurrent⟩
    rcases steady.sound.owned _ _ running with isRoot | ⟨other, isOther, isFiber'⟩
    · exact absurd (isRoot ▸ isOwner) (steady.notRoot handle)
    · rw [isOther, steady.apart handle other _ isOwner isFiber']

theorem exists_runsOn (steady : machine.Steady limits strict level) :
    ∃ context, machine.RunsOn context := by
  obtain ⟨context, running⟩ := Option.isSome_iff_exists.mp steady.live
  exact ⟨context, steady.runsOn running⟩

end Steady

/-- Every machine that a host comes to is steady on its level. -/
theorem VisitedAt.steady {config : Config} {catches : Failure → Bool} {hosts : Array HostMethod}
    {place : Place} (most : CatchesAtMost False catches) (conform : HostsConform catches hosts)
    (raising : strict → RaiseExceptions config hosts)
    (visited : machine.VisitedAt config catches hosts level place) :
    machine.Steady config strict level :=
  (visited.sound most conform raising).steady (visited.visited.fitsAt most conform).1

/-! ### Reports -/

/-- An exception of a core class with a message, which says where it was raised. -/
def Reports (machine : Machine) (core : CoreClass) (message : String) (exception : Handle) : Prop :=
  ∃ object record text, machine.heap.get? exception = some object ∧
    object.classHandle = machine.coreClass core ∧ object.content = .exception record ∧
    record.message = .object text ∧ record.backtrace.isSome ∧
    (machine.heap.get? text).map (·.content) = some (.string (Text.utf8 message))

theorem Reports.isException {core : CoreClass} {message : String} {exception : Handle}
    (reports : machine.Reports core message exception) :
    ∃ object, machine.heap.get? exception = some object ∧ object.exception?.isSome := by
  obtain ⟨object, record, -, found, -, isContent, -⟩ := reports
  refine ⟨object, found, ?_⟩
  rw [Object.exception?, isContent]
  rfl

theorem RunsOn.allocate (runs : machine.RunsOn context) {object : Object}
    (noFiber : object.fiber? = none) : (machine.allocate object).RunsOn context := by
  have notFiber (record : FiberRecord) : object.content ≠ .fiber record := by
    intro isFiber
    rw [Object.fiber?, isFiber] at noFiber
    cases noFiber
  exact runs.movesTo (movesTo_withHeap runs.running (.allocate object notFiber)) rfl
    fun frame member handle holds => ⟨frame, member, holds⟩

/-- The string of a message. -/
def messageObject (machine : Machine) (message : String) : Object :=
  { classHandle := machine.coreClass .string, content := .string (Text.utf8 message) }

/-- The machine with the string of a message. -/
def withMessage (machine : Machine) (message : String) : Machine :=
  machine.allocate (machine.messageObject message)

/-- A new exception of a core class with this message. -/
def exceptionObject (machine : Machine) (core : CoreClass) (message : String) : Object :=
  { classHandle := machine.coreClass core
    content := .exception
      { message := .object (machine.heap.allocate (machine.messageObject message)).2 } }

/-- Where the exception is put. -/
def exceptionHandle (machine : Machine) (core : CoreClass) (message : String) : Handle :=
  ((machine.withMessage message).heap.allocate (machine.exceptionObject core message)).2

theorem RunsOn.withMessage (runs : machine.RunsOn context) (message : String) :
    (machine.withMessage message).RunsOn context :=
  runs.allocate rfl

theorem RunsOn.get?_exceptionHandle (runs : machine.RunsOn context) (core : CoreClass)
    (message : String) :
    ((machine.withMessage message).allocate (machine.exceptionObject core message)).heap.get?
        (machine.exceptionHandle core message) = some (machine.exceptionObject core message) := by
  rw [Machine.allocate, (runs.withMessage message).wellFormed.get?_allocate]
  exact if_pos rfl

end Machine

/-- The object behind a change of exceptions. -/
def Object.changeException (change : ExceptionRecord → ExceptionRecord) (object : Object) : Object :=
  match object.content with
  | .exception record => { object with content := .exception (change record) }
  | _ => object

namespace VM

variable {machine : Machine} {context : Context} {α : Type}

/-- A machine that runs on its stack can always raise: the message and the exception are allocated,
and the exception gets a backtrace. -/
theorem exceptionHere_eq (runs : machine.RunsOn context) (core : CoreClass) (message : String) :
    ∃ lines, exceptionHere core message machine = .ok (machine.exceptionHandle core message)
      (((machine.withMessage message).allocate (machine.exceptionObject core message)).rewrite
        (machine.exceptionHandle core message)
        (Object.changeException ({ · with backtrace := some lines }))) := by
  have objectRuns := (runs.withMessage message).allocate
    (show (machine.exceptionObject core message).fiber? = none from rfl)
  obtain ⟨lines, readLines⟩ := Query.backtrace_of_runsOn objectRuns
  have created : exceptionHere core message machine =
      (fillBacktrace (machine.exceptionHandle core message) >>= fun _ =>
        pure (machine.exceptionHandle core message))
        ((machine.withMessage message).allocate (machine.exceptionObject core message)) := rfl
  rw [created, fillBacktrace, bind_assoc,
    bind_of_ok (liftM_of_ok (Query.object_of_found (runs.get?_exceptionHandle core message)))]
  exact ⟨lines, bind_of_ok (bind_of_ok (liftM_of_ok readLines))⟩

/-- So it changes no stack. -/
theorem exceptionHere_of_runsOn (runs : machine.RunsOn context) (core : CoreClass)
    (message : String) : ∃ exception next, exceptionHere core message machine = .ok exception next ∧
      next.Reports core message exception ∧ next.contexts = machine.contexts := by
  let text := (machine.heap.allocate (machine.messageObject message)).2
  let exception := machine.exceptionHandle core message
  have textRuns := runs.withMessage message
  have found := runs.get?_exceptionHandle core message
  have foundText : (machine.withMessage message).heap.get? text =
      some (machine.messageObject message) := by
    rw [Machine.withMessage, Machine.allocate, runs.wellFormed.get?_allocate, if_pos rfl]
  have isOther : text ≠ exception := by
    intro same
    have isNew := textRuns.wellFormed.get?_allocate_snd (machine.exceptionObject core message)
    cases (same ▸ foundText).symm.trans isNew
  obtain ⟨lines, created⟩ := exceptionHere_eq runs core message
  refine ⟨exception, _, created,
    ⟨(machine.exceptionObject core message).changeException ({ · with backtrace := some lines }), _,
      text, ?_, rfl, rfl, rfl, rfl, ?_⟩, rfl⟩
  · exact (Machine.get?_rewrite exception _).trans (by rw [if_pos rfl, found]; rfl)
  · have stays : ((machine.withMessage message).allocate
        (machine.exceptionObject core message)).heap.get? text = some (machine.messageObject message) := by
      rw [Machine.allocate, textRuns.wellFormed.get?_allocate]
      exact (if_neg isOther).trans foundText
    exact congrArg (Option.map (·.content))
      ((Machine.get?_rewrite text _).trans ((if_neg isOther).trans stays))

/-- So it ends in the exception that is raised. -/
theorem raise_of_runsOn (runs : machine.RunsOn context) (core : CoreClass) (message : String) :
    ∃ exception next, (raise core message : VM α) machine = .error (.raised exception) next ∧
      next.Reports core message exception ∧ next.contexts = machine.contexts := by
  obtain ⟨exception, next, created, reports, sameStacks⟩ := exceptionHere_of_runsOn runs core message
  exact ⟨exception, next, bind_of_ok created, reports, sameStacks⟩

end VM

end RiteVm
