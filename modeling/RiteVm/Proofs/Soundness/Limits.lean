import RiteVm.Proofs.Arguments.Reception
import RiteVm.Proofs.Fibers.EntryPoints
import RiteVm.Proofs.Soundness.Steady

/-!
Contract: the limits on frames and on nesting always hold, and what would exceed one raises.

Owns:
- what exceeds a limit: a frame on a full register stack, a loop or a call by name on the last
  level, a fiber behind too many resumers;
- that each of these raises the exception for too deep a stack, with the frames and the level
  of nesting as they were;
- every machine that a run comes to keeps to its limits.
-/

namespace RiteVm

variable {limits : Config} {strict : Prop} {level : Nat} {machine next : Machine}
  {context : Context}

/-! ### Attempts -/

open VM in
/-- Actions that would exceed a limit of the machine, each with the check that it comes to. -/
inductive Machine.Exceeds (machine : Machine) : {α : Type} → VM α → Prop where
  /-- the frame of a method, of a class body or of the body of a fiber -/
  | procFrame {site : CallSite} {proc : Handle} {owner : Option Handle} {method : Option Symbol}
      {block : Value} {boundary : Bool} : ¬ machine.HasFrameRoom →
      Exceeds machine (pushProcFrame site proc owner method block boundary)
  /-- a call by an instruction, of a method of either kind -/
  | call {engine : Engine} {site : CallSite} {found : FoundMethod} {name : Symbol} :
      ¬ machine.HasFrameRoom → found.method ≠ .undefined →
      Exceeds machine (callMethod engine site found name)
  /-- a call by name, of a method of either kind -/
  | callByName {engine : Engine} {receiver : Value} {name name' : Symbol} {args args' : Args}
      {found : FoundMethod} {resolved : Machine} : ¬ machine.HasFrameRoom →
      resolveCall receiver name args machine = .ok (found, name', args') resolved →
      found.method ≠ .undefined →
      Exceeds machine (callWithArgs engine receiver name args)
  /-- a call by name on the last level, whatever it calls -/
  | callTooDeep {engine : Engine} {receiver : Value} {name : Symbol} {args : Args} :
      ¬ HasRoom machine → Exceeds machine (callWithArgs engine receiver name args)
  /-- a program of a host -/
  | program {engine : Engine} {unit : Bytecode.CodeUnit} {self : Value} {target : Handle} :
      ¬ machine.HasFrameRoom ∨ ¬ HasRoom machine →
      Exceeds machine (runUnit engine unit self target)
  /-- a fiber that waits to be resumed -/
  | resume {engine : Engine} {fiber : Handle} {record : FiberRecord} {args : List Value} :
      machine.fiber? fiber = some record → record.state = .created ∨ record.state = .suspended →
      machine.config.maxCallDepth ≤ machine.resumers.length ∨ ¬ HasRoom machine →
      Exceeds machine (resume engine (.object fiber) args)
  /-- anything one level deeper -/
  | nested {α : Type} {action : VM α} : ¬ HasRoom machine → Exceeds machine (nested action)

namespace VM

variable {α β : Type} {action : VM α} {rest : α → VM β}

/-- From a machine, an action makes only edits that leave the frames as they are, and raises the
exception for too deep a stack. -/
def Overflows (machine : Machine) (action : VM α) : Prop :=
  ∃ exception next, action machine = .error (.raised exception) next ∧ machine.Edited next ∧
    next.frames = machine.frames ∧
    next.Reports .systemStackError "stack level too deep" exception

namespace Overflows

/-- Nothing behind the exception is done. -/
theorem bind (overflows : Overflows machine action) : Overflows machine (action >>= rest) := by
  obtain ⟨exception, next, raised, left⟩ := overflows
  exact ⟨exception, next, bind_of_error raised, left⟩

theorem congr {other : VM α} (overflows : Overflows machine action)
    (same : other machine = action machine) : Overflows machine other := by
  obtain ⟨exception, next, raised, left⟩ := overflows
  exact ⟨exception, next, same.trans raised, left⟩

/-- What comes before it leaves the frames as they are. -/
theorem behind [Edits action] [InPlace action] (wellFormed : machine.heap.WellFormed) {value : α}
    (succeeded : action machine = .ok value next) (overflows : Overflows next (rest value)) :
    Overflows machine (action >>= rest) := by
  obtain ⟨exception, last, raised, edited', sameFrames', reports⟩ := overflows
  have edits : EditsFrom machine action := .of_edits wellFormed
  have inPlace : InPlaceFrom machine action := .of_inPlace wellFormed
  have edited := edits.edited
  have sameFrames := inPlace.frames
  rw [after_of_ok succeeded] at edited sameFrames
  exact ⟨exception, last, (bind_of_ok succeeded).trans raised, edited.trans edited',
    sameFrames'.trans sameFrames, reports⟩

end Overflows

/-! ### Checks -/

section Checks

variable (steady : machine.Steady limits strict level)

include steady

theorem overflows_raiseStackError : Overflows machine (raiseStackError : VM α) := by
  obtain ⟨context, runs⟩ := steady.exists_runsOn
  obtain ⟨exception, next, raised, reports, sameStacks⟩ : ∃ exception next,
      (raiseStackError : VM α) machine = .error (.raised exception) next ∧
        next.Reports .systemStackError "stack level too deep" exception ∧
        next.contexts = machine.contexts :=
    raise_of_runsOn runs _ _
  have edits : EditsFrom machine (raiseStackError : VM α) := .of_edits steady.sound.wellFormed
  have edited := edits.edited
  rw [after_of_error raised] at edited
  refine ⟨exception, next, raised, edited, ?_, reports⟩
  rw [Machine.frames, Machine.frames, Machine.framesOf, Machine.framesOf, Machine.context?,
    Machine.context?, edited.sameRun.current, sameStacks]

theorem overflows_checkDepth (full : ¬ machine.HasFrameRoom) : Overflows machine checkDepth := by
  obtain ⟨context, runs⟩ := steady.exists_runsOn
  have tooMany : machine.config.maxCallDepth ≤ context.activations.length := by
    by_contra enough
    refine full fun count isCount => ?_
    obtain ⟨_, running, rfl⟩ := Option.map_eq_some_iff.mp isCount
    cases running.symm.trans runs.running
    rw [Context.activations, List.length_reverse, Array.length_toList] at enough
    exact Nat.lt_of_not_le enough
  refine (overflows_raiseStackError steady).congr ?_
  rw [checkDepth, get_bind, bind_of_ok (liftM_of_ok (Query.depth_of_runsOn runs)), if_pos tooMany]

theorem overflows_checkNativeDepth (deep : ¬ HasRoom machine) : Overflows machine checkNativeDepth := by
  have tooDeep : machine.config.maxNativeDepth ≤ machine.nativeDepth := Nat.le_of_not_lt deep
  refine (overflows_raiseStackError steady).congr ?_
  rw [checkNativeDepth, get_bind, if_pos tooDeep]

end Checks

/-! ### What comes to the checks -/

theorem setSlots_ok (first : Nat) (values : List Value) :
    ∃ next, setSlots first values machine = .ok () next := by
  induction values generalizing first machine with
  | nil => exact ⟨machine, rfl⟩
  | cons value rest inductionHypothesis => exact inductionHypothesis (first + 1)

/-- Arguments can always be laid out. -/
theorem layOutArgs_ok (receiverAt : Nat) (receiver : Value) (args : Args) :
    ∃ site next, layOutArgs receiverAt receiver args machine = .ok site next := by
  unfold layOutArgs
  dsimp only
  by_cases isPacked : packedCount ≤ args.size
  · rw [if_pos isPacked]
    cases args.keywords.isEmpty <;> exact ⟨_, _, rfl⟩
  · rw [if_neg isPacked]
    let received := machine.modifyContext machine.current (·.setSlot receiverAt receiver)
    obtain ⟨next, stored⟩ :
        ∃ next, setSlots (receiverAt + 1) args.positional received = .ok () next :=
      setSlots_ok _ _
    cases args.keywords.isEmpty <;> exact ⟨_, _, (bind_of_ok stored).trans rfl⟩

section Attempts

variable (steady : machine.Steady limits strict level)

include steady

theorem overflows_pushProcFrame (full : ¬ machine.HasFrameRoom) (site : CallSite) (proc : Handle)
    (owner : Option Handle) (method : Option Symbol) (block : Value) (boundary : Bool) :
    Overflows machine (pushProcFrame site proc owner method block boundary) :=
  (overflows_checkDepth steady full).bind

theorem overflows_callMethod (full : ¬ machine.HasFrameRoom) (engine : Engine) (site : CallSite)
    {found : FoundMethod} (name : Symbol) (isDefined : found.method ≠ .undefined) :
    Overflows machine (callMethod engine site found name) := by
  obtain ⟨context, runs⟩ := steady.exists_runsOn
  rw [callMethod]
  cases isMethod : found.method with
  | proc body =>
      exact .behind steady.sound.wellFormed (liftM_of_ok (Query.slot_of_runsOn runs site.blockAt))
        (overflows_pushProcFrame steady full _ _ _ _ _ _).bind
  | native body => exact (overflows_checkDepth steady full).bind
  | undefined => exact absurd isMethod isDefined

theorem overflows_callNativeBody (full : ¬ machine.HasFrameRoom) (engine : Engine) (receiver : Value)
    (body : NativeMethod) (owner : Handle) (name : Symbol) (args : Args) :
    Overflows machine (callNativeBody engine receiver body owner name args) := by
  obtain ⟨context, runs⟩ := steady.exists_runsOn
  exact .behind steady.sound.wellFormed (liftM_of_ok (Query.context_of_runsOn runs))
    (overflows_checkDepth steady full).bind

theorem overflows_callProcBody (full : ¬ machine.HasFrameRoom) (engine : Engine) (receiver : Value)
    (proc owner : Handle) (name : Symbol) (args : Args) :
    Overflows machine (callProcBody engine receiver proc owner name args) := by
  obtain ⟨context, runs⟩ := steady.exists_runsOn
  obtain ⟨site, laid, laysOut⟩ :
      ∃ site laid, layOutArgs context.stackTop receiver args machine = .ok site laid :=
    layOutArgs_ok _ _ _
  have edits : EditsFrom machine (layOutArgs context.stackTop receiver args) :=
    .of_edits steady.sound.wellFormed
  have edited := edits.edited
  rw [after_of_ok laysOut] at edited
  have steady' := steady.of_edited edited
  have full' : ¬ laid.HasFrameRoom := fun room => full (edited.sameRun.symm.hasFrameRoom room)
  obtain ⟨context', runs'⟩ := steady'.exists_runsOn
  refine .behind steady.sound.wellFormed (liftM_of_ok (Query.context_of_runsOn runs)) ?_
  refine .behind steady.sound.wellFormed laysOut ?_
  refine .behind steady'.sound.wellFormed (liftM_of_ok (Query.depth_of_runsOn runs')) ?_
  exact (overflows_pushProcFrame steady' full' _ _ _ _ _ _).bind

theorem overflows_callWithArgs (engine : Engine) {receiver : Value} {name name' : Symbol}
    {args args' : Args} {found : FoundMethod} {resolved : Machine} (full : ¬ machine.HasFrameRoom)
    (resolves : resolveCall receiver name args machine = .ok (found, name', args') resolved)
    (isDefined : found.method ≠ .undefined) :
    Overflows machine (callWithArgs engine receiver name args) := by
  have edits : EditsFrom machine (resolveCall receiver name args) :=
    .of_edits steady.sound.wellFormed
  have edited := edits.edited
  rw [after_of_ok resolves] at edited
  have steady' := steady.of_edited edited
  have full' : ¬ resolved.HasFrameRoom := fun room => full (edited.sameRun.symm.hasFrameRoom room)
  by_cases room : HasRoom machine
  · refine .behind steady.sound.wellFormed (checkNativeDepth_of_room room) ?_
    refine .behind steady.sound.wellFormed resolves ?_
    dsimp only
    cases isMethod : found.method with
    | native body => exact overflows_callNativeBody steady' full' engine receiver body _ _ _
    | proc body => exact overflows_callProcBody steady' full' engine receiver body _ _ _
    | undefined => exact absurd isMethod isDefined
  · exact (overflows_checkNativeDepth steady room).bind

theorem overflows_runUnit (exceeds : ¬ machine.HasFrameRoom ∨ ¬ HasRoom machine) (engine : Engine)
    (unit : Bytecode.CodeUnit) (self : Value) (target : Handle) :
    Overflows machine (runUnit engine unit self target) := by
  obtain ⟨context, runs⟩ := steady.exists_runsOn
  let proc : Object :=
    { classHandle := machine.coreClass .proc
      content := .proc { unit, upper := none, env := none, targetClass := target, strict := true } }
  have created : newProc unit none none target true machine =
      .ok (machine.heap.allocate proc).2 (machine.allocate proc) := rfl
  have edited : machine.Edited (machine.allocate proc) := .single (.allocate rfl)
  have steady' := steady.of_edited edited
  have runs' : (machine.allocate proc).RunsOn context := runs.allocate rfl
  refine .behind steady.sound.wellFormed (liftM_of_ok (Query.depth_of_runsOn runs)) (.bind ?_)
  refine .behind steady.sound.wellFormed created ?_
  refine .behind steady'.sound.wellFormed (liftM_of_ok (Query.context_of_runsOn runs')) ?_
  by_cases frameRoom : machine.HasFrameRoom
  · have room : context.frames.size < (machine.allocate proc).config.maxCallDepth :=
      frameRoom _ (congrArg (Option.map _) runs.running)
    refine .behind steady'.sound.wellFormed (checkDepth_of_room runs'.running room) ?_
    exact (overflows_checkNativeDepth steady' (exceeds.resolve_left (not_not_intro frameRoom))).bind
  · exact (overflows_checkDepth steady' fun room =>
      frameRoom (edited.sameRun.symm.hasFrameRoom room)).bind

theorem overflows_resume (engine : Engine) {fiber : Handle} {record : FiberRecord} (args : List Value)
    (found : machine.fiber? fiber = some record)
    (waits : record.state = .created ∨ record.state = .suspended)
    (exceeds : machine.config.maxCallDepth ≤ machine.resumers.length ∨ ¬ HasRoom machine) :
    Overflows machine (resume engine (.object fiber) args) := by
  have read : Query.fiberRecord fiber machine = .ok record := Query.fiberRecord_eq_ok_iff.mpr found
  have checks (rest : Unit → VM Value) : Overflows machine (get >>= fun machine : Machine =>
      if machine.config.maxCallDepth ≤ machine.resumers.length then
        raiseStackError >>= fun _ : Unit => checkNativeDepth >>= rest
      else checkNativeDepth >>= rest) := by
    have read : (get : VM Machine) machine = .ok machine machine := rfl
    refine .behind steady.sound.wellFormed read ?_
    by_cases tooMany : machine.config.maxCallDepth ≤ machine.resumers.length
    · rw [if_pos tooMany]
      exact (overflows_raiseStackError steady).bind
    · rw [if_neg tooMany]
      exact (overflows_checkNativeDepth steady (exceeds.resolve_left tooMany)).bind
  refine .behind steady.sound.wellFormed (expectFiber_of_found found) ?_
  refine .behind steady.sound.wellFormed (liftM_of_ok read) ?_
  obtain ⟨context, body, state, signals⟩ := record
  dsimp only at waits
  rcases waits with rfl | rfl
  · dsimp only
    exact checks _
  · dsimp only
    exact checks _

/-- Whatever exceeds a limit raises. -/
theorem Overflows.of_exceeds (exceeds : machine.Exceeds action) : Overflows machine action := by
  cases exceeds with
  | procFrame full => exact overflows_pushProcFrame steady full _ _ _ _ _ _
  | call full isDefined => exact overflows_callMethod steady full _ _ _ isDefined
  | callByName full resolves isDefined => exact overflows_callWithArgs steady _ full resolves isDefined
  | callTooDeep deep => exact (overflows_checkNativeDepth steady deep).bind
  | program exceeds => exact overflows_runUnit steady exceeds _ _ _ _
  | resume found waits exceeds => exact overflows_resume steady _ _ found waits exceeds
  | nested deep => exact (overflows_checkNativeDepth steady deep).bind

/-- How what exceeds a limit ends: in the exception for too deep a stack, with every frame and
the level of nesting as before. A loop whose instruction ends so dispatches the exception to the
handlers of its frames, like any other. -/
def RaisesTooDeep (machine : Machine) (action : VM α) : Prop :=
  ∃ exception next context, action machine = .error (.raised exception) next ∧
    next.Reports .systemStackError "stack level too deep" exception ∧
    next.nativeDepth = machine.nativeDepth ∧
    (∀ id, next.frameCount? id = machine.frameCount? id) ∧ next.frames = machine.frames ∧
    next.RunsOn context ∧
    ∀ (instruction : VM (Option Exit)) (before : Machine) (stop mark : Nat),
      instruction before = .error (.raised exception) next → stop < context.activations.length →
      Lands stop context.pending context.activations (.raise exception)
        (settle stop mark instruction before)

theorem Overflows.raisesTooDeep (overflows : Overflows machine action) :
    RaisesTooDeep machine action := by
  obtain ⟨exception, next, raised, edited, sameFrames, reports⟩ := overflows
  have sameRun := edited.sameRun
  obtain ⟨context, runs⟩ := (steady.of_edited edited).exists_runsOn
  refine ⟨exception, next, context, raised, reports, sameRun.nativeDepth, sameRun.frameCount?,
    sameFrames, runs, fun instruction before stop mark ended inside => ?_⟩
  exact lands_settle_raised ended runs inside reports.isException

end Attempts

end VM

/-! ### Machines that a run comes to -/

/-- A machine keeps to the limits of a configuration, on a level of nesting. What would exceed
one raises, also in the middle of an instruction that has only edited the machine so far. -/
structure Machine.KeepsLimits (limits : Config) (level : Nat) (machine : Machine) : Prop where
  config : machine.config = limits
  nativeDepth : machine.nativeDepth = level
  nativeDepth_le : machine.nativeDepth ≤ limits.maxNativeDepth
  frames_le : ∀ id context, machine.context? id = some context →
    context.frames.size ≤ limits.maxCallDepth
  raises : ∀ next, machine.Edited next → ∀ (α : Type) (action : VM α), next.Exceeds action →
    VM.RaisesTooDeep next action

/-- Every machine that a host comes to keeps to its limits, and counts the loops and the calls by
name that are in progress. -/
theorem Machine.VisitedAt.keepsLimits {config : Config} {catches : Failure → Bool}
    {hosts : Array HostMethod} {place : Place} (most : CatchesAtMost False catches)
    (conform : HostsConform catches hosts)
    (visited : machine.VisitedAt config catches hosts level place) :
    machine.KeepsLimits config level := by
  have steady : machine.Steady config False level := visited.steady most conform False.elim
  have sound := steady.sound
  refine ⟨sound.config, sound.nativeDepth, ?_, ?_, ?_⟩
  · rw [sound.nativeDepth]
    exact sound.level_le
  · exact fun id context found => (sound.contexts id context found).frames_le
  · intro next edited α action exceeds
    have steady' := steady.of_edited edited
    exact (VM.Overflows.of_exceeds steady' exceeds).raisesTooDeep steady'

/-- With room for one frame, the halting program runs on a full register stack. -/
theorem Machine.keepsLimits_halting :
    ∃ machine : Machine, machine.KeepsLimits { maxCallDepth := 1 } 1 ∧ ¬ machine.HasFrameRoom := by
  have takes : VM.Takes (.new { maxCallDepth := 1 }) := VM.takes_new_of_pos (by decide) (by decide)
  obtain ⟨next, context, frame, pushes, room, halts⟩ :=
    takes.pushProgramFrame (.object (Machine.new { maxCallDepth := 1 }).mainObject)
      ((Machine.new { maxCallDepth := 1 }).coreClass .object)
  have visited : (VM.deeper next).VisitedAt { maxCallDepth := 1 } (fun _ => false) #[] 1 (.loop 0) :=
    .start 1 .new (.host (.entry (.run VM.haltingUnit))) (takes.comesTo_loop pushes room halts)
  have keeps : (VM.deeper next).KeepsLimits { maxCallDepth := 1 } 1 :=
    visited.keepsLimits (catchesAtMost_nothing False) (hostsConform_empty _)
  refine ⟨VM.deeper next, keeps, fun frameRoom => ?_⟩
  have isFull : context.frames.size < (VM.deeper next).config.maxCallDepth :=
    frameRoom _ (congrArg (Option.map _) halts.runs.running)
  rw [keeps.config, Context.size_of_activations halts.top] at isFull
  exact absurd isFull (by decide)

end RiteVm
