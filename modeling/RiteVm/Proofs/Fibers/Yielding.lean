import RiteVm.Proofs.Fibers.HandingOver
import RiteVm.Proofs.Fibers.Tracing
import RiteVm.Proofs.Unwinding.ClauseRuns

/-!
Contract: to hand values over and to be resumed is like a call.

Owns:
- a resume in which a fiber hands values over, and what the resumer receives; no loop but the
  one that the resume started lets the fiber do so;
- the next resume of the fiber, which completes the call;
- what happens in between, which leaves the frames and registers of the fiber as they were.
-/

namespace RiteVm

open RiteVm.Bytecode VM

section Resumes

variable {tidy : Prop} {catches : Failure → Bool} {hosts : Array HostMethod} {fuel count : Nat}
  {handle : Handle} {args : List Value} {machine begun reached entered : Machine} {frame : Frame}
  {instruction : Instruction} {receiver : Value} {given : Args}

/-! ### The resume in progress -/

/-- The loop that a resume starts comes to an instruction which calls `Fiber.yield` by name, and
the call raises nothing. -/
structure Yields (hosts : Array HostMethod) (fuel : Nat) (handle : Handle) (args : List Value)
    (machine begun : Machine) (count : Nat) (reached : Machine) (frame : Frame)
    (instruction : Instruction) (receiver : Value) (given : Args) (entered : Machine) : Prop where
  starts : (Engine.ofHosts hosts fuel).ComesTo
    (fun engine => VM.resume engine (.object handle) args) machine (.loop 0) begun
  passes : ∃ clauses, Passes (fun count => .ofHosts hosts (fuel - (count + 1))) 0 0 begun clauses
    count reached
  sends : Sends (.ofHosts hosts (fuel - (count + 1))) 0 reached frame instruction
    (.closure .yield) receiver given entered
  succeeds : ∃ result handed, (Engine.ofHosts hosts (fuel - (count + 1))).native (.closure .yield)
    receiver given entered = .ok result handed

theorem Machine.FitsAt.passes {engines : Nat → Engine} {clauses : List ClauseStart} {stop first : Nat}
    (most : CatchesAtMost tidy catches) (conform : HostsConform catches hosts)
    (isEngine : ∀ count, ∃ fuel, engines count = .ofHosts hosts fuel)
    (fits : begun.FitsAt tidy (.loop stop))
    (passes : Passes engines stop first begun clauses count reached) :
    reached.FitsAt tidy (.loop stop) := by
  induction passes with
  | here => exact fits
  | @cycle count _ _ _ _ _ cycled _ inductionHypothesis =>
      obtain ⟨fuel, same⟩ := isEngine count
      rw [same] at cycled
      exact inductionHypothesis (fits.cycle most conform cycled)

/-- With fuel left, a call of the method hands values over or fails. -/
theorem yieldFiber_of_native {hosts : Array HostMethod} {fuel : Nat} {result : Value} {handed : Machine}
    (succeeds : (Engine.ofHosts hosts fuel).native (.closure .yield) receiver given entered =
      .ok result handed) :
    0 < fuel ∧ yieldFiber given.positional entered = .ok result handed := by
  cases fuel with
  | zero => exact nomatch succeeds
  | succ fuel => exact ⟨fuel.succ_pos, succeeds⟩

/-- Only the loop that a resume started lets a fiber hand values over. The frame from which
another loop runs is one that values cannot cross. -/
theorem Sends.stop_eq_zero {stop : Nat} {result : Value} {handed : Machine}
    (fits : machine.FitsAt tidy (.loop stop))
    (sends : Sends (.ofHosts hosts fuel) stop machine frame instruction (.closure .yield) receiver
      given entered)
    (succeeds : (Engine.ofHosts hosts fuel).native (.closure .yield) receiver given entered =
      .ok result handed) :
    stop = 0 ∧ entered.currentFiber.isSome := by
  obtain ⟨linked, runs⟩ := fits
  have collects : Advancing tidy collectIfDue collectIfDue := inferInstance
  have advances := (collects.advancingFrom machine linked).leads (by rw [collectIfDue_ok]; trivial)
  rw [after_of_ok collectIfDue_ok] at advances
  have runs : machine.collectedIfDue.RunsFrom stop :=
    (runs stop rfl).descends (advances.frames.descends (runs stop rfl).lt)
      (Nat.lt_of_lt_of_le (runs stop rfl).lt advances.frames.length_le)
  obtain ⟨-, linkedEntered, -, below, native, -, -, isBelow, isFrames⟩ := sends.enters linked
  obtain ⟨-, -, -, -, -, isFiber, context, running, noneBetween⟩ :=
    yieldFiber_eq_ok linkedEntered.wellFormed (yieldFiber_of_native succeeds).2
  refine ⟨?_, isFiber⟩
  by_contra positive
  obtain ⟨outer, located, isBoundary⟩ := runs
  obtain ⟨lower, rfl⟩ := Nat.exists_eq_succ_of_ne_zero positive
  replace isBoundary := isBoundary lower.succ_pos
  rw [isBelow] at located
  rw [← Machine.frames_of_context? running, isFrames] at noneBetween
  cases below with
  | nil => exact nomatch located
  | cons first rest =>
      have crossed : outer ∈ rest ++ [frame] := List.mem_of_getElem? located
      rw [List.cons_append, List.drop_one, List.tail_cons, List.append_cons, List.dropLast_concat]
        at noneBetween
      simp only [List.any_append, List.any_cons, List.any_nil, Bool.or_eq_false_iff,
        List.any_eq_false] at noneBetween
      rcases List.mem_append.mp crossed with isLower | isTop
      · exact (noneBetween.1 outer isLower) (by rw [isBoundary, Bool.or_true])
      · obtain rfl := List.mem_singleton.mp isTop
        exact absurd isBoundary (by rw [noneBetween.2.1.2]; exact Bool.false_ne_true)

/-- The loop of a fiber that hands values over ends with what they are packed in, and leaves the
stack as it was when the method was entered. -/
theorem Yields.loop_ends (fits : reached.Linked tidy)
    (yields : Yields hosts fuel handle args machine begun count reached frame instruction receiver
      given entered) :
    ∃ value last, (Engine.ofHosts hosts fuel).loop 0 begun = .ok (.yielded value) last ∧
      last.Packs given.positional value ∧ entered.KeepsFibers last := by
  obtain ⟨-, ⟨clauses, passes⟩, sends, result, handed, succeeds⟩ := yields
  obtain ⟨-, linked, -, -⟩ := sends.enters fits
  obtain ⟨isLeft, yielded⟩ := yieldFiber_of_native succeeds
  have isFuel : fuel - count = (fuel - (count + 1)) + 1 := by omega
  obtain ⟨value, heap, rfl, packs, keeps, -⟩ := yieldFiber_eq_ok linked.wellFormed yielded
  have cycled := sends.handsOver fits succeeds rfl
  have ran : runLoop hosts fuel 0 begun = _ :=
    (passes.runLoop_eq (by omega)).trans (isFuel ▸ runLoop_of_ok cycled)
  refine ⟨value, _, ran, packs.keepsData (.of_cells ?_), keeps.trans ?_⟩
  · cases value <;> rfl
  · refine ⟨rfl, rfl, rfl, rfl, rfl, rfl, rfl, rfl, fun wellFormed => .of_cells wellFormed ?_ ?_⟩ <;>
      cases value <;> rfl

theorem Yields.fits_reached (most : CatchesAtMost tidy catches) (conform : HostsConform catches hosts)
    (linked : machine.Linked tidy)
    (yields : Yields hosts fuel handle args machine begun count reached frame instruction receiver
      given entered) : reached.FitsAt tidy (.loop 0) := by
  obtain ⟨clauses, passes⟩ := yields.passes
  have alike := alike_of_calls (.entry (.resume (.object handle) args)) linked
  exact .passes most conform (fun count => ⟨_, rfl⟩)
    (fitsAt_of_comesTo most conform alike yields.starts) passes

/-- A resume whose loop ends with a value that the fiber hands over returns it, and leaves the
fiber suspended on the stack that the loop left. -/
theorem VM.resume_of_yielded {engine : Engine} {record : FiberRecord} {switched next final : Machine}
    {value : Value} (agrees : engine.Agrees tidy engine) (linked : machine.Linked tidy)
    (resumable : Resumable machine handle record)
    (isSwitch : switchTo handle record.context machine = .ok () switched)
    (switches : SwitchesTo machine handle record switched)
    (began : startFiber record args switched = .ok () next)
    (ran : engine.loop 0 (deeper next) = .ok (.yielded value) final) :
    ∃ last record', VM.resume engine (.object handle) args machine = .ok value last ∧
      final.KeepsData last ∧ last.fiber? handle = some record' ∧ record'.state = .suspended ∧
      final.current = record'.context ∧
      last.context? record'.context = final.context? final.current := by
  have runs : runFiber engine record args switched = ended (.ok (.yielded value)) (shallower final) :=
    @Resumable.runFiber_of_started _ _ _ _ _ _ linked resumable switches _ began _
      (.ok (.yielded value)) _ ran
  have cycle : TracksFrom tidy (fun _ _ => True) (EndsCycle tidy) switched
      (runFiber engine record args) (runFiber engine record args) :=
    resumable.tracksFrom_runFiber linked switches args
  obtain ⟨-, leads, -⟩ := cycle
  rw [after, runs] at leads
  replace leads : Leads tidy (fun _ _ => True) switched (shallower final) := leads trivial
  have running : (shallower final).currentFiber = some handle :=
    leads.beside.currentFiber.trans switches.currentFiber
  have isStack : (shallower final).current = record.context :=
    leads.beside.current.trans switches.current
  have waiting : (shallower final).resumers ≠ [] := by
    rw [leads.beside.resumers, switches.resumers]
    exact List.concat_ne_nil _ _
  obtain ⟨record', found, sameStack⟩ := leads.linked.chain_fiber (shallower final).current handle
    (List.mem_append_right _ (running ▸ List.mem_singleton_self _))
  obtain ⟨last, left, leaves, keepsData⟩ :=
    leaveFiber_yielded leads.linked found waiting value
  have isFiber := leaves.restates.fibers handle
  rw [found, Option.map_some, if_pos rfl] at isFiber
  have resumed : VM.resume engine (.object handle) args machine = .ok value last := by
    rw [resume_of_resumable resumable, resumeFiber_of_ended isSwitch runs, ← isStack, ← sameStack]
    exact left
  refine ⟨last, _, resumed, keepsData, isFiber, rfl, sameStack.symm, ?_⟩
  rw [leaves.contexts, if_neg (fun ended => nomatch ended.1), sameStack]
  rfl

/-- The resume in which a fiber hands values over returns them packed, and leaves the fiber
suspended on the stack that it had when the method was entered. -/
theorem Yields.returns (most : CatchesAtMost tidy catches) (conform : HostsConform catches hosts)
    (linked : machine.Linked tidy)
    (yields : Yields hosts fuel handle args machine begun count reached frame instruction receiver
      given entered) :
    ∃ value last record, VM.resume (.ofHosts hosts fuel) (.object handle) args machine =
        .ok value last ∧
      last.Packs given.positional value ∧ last.fiber? handle = some record ∧
      record.state = .suspended ∧ entered.current = record.context ∧
      last.context? record.context = entered.context? entered.current := by
  obtain ⟨record, switched, next, resumable, isSwitch, switches, began, rfl⟩ :=
    started_of_comesTo linked yields.starts
  obtain ⟨value, final, ran, packs, keeps⟩ :=
    yields.loop_ends (yields.fits_reached most conform linked).1
  obtain ⟨last, record', resumed, keepsData, found, suspended, isCurrent, sameStack⟩ :=
    resume_of_yielded (Engine.agrees_ofHosts most conform fuel) linked resumable isSwitch switches
      began ran
  refine ⟨value, last, record', resumed, packs.keepsData keepsData, found, suspended,
    keeps.current.symm.trans isCurrent, ?_⟩
  rw [sameStack, keeps.current]
  exact keeps.context?_eq _

/-! ### The next resume -/

/-- The frame of the method in which a fiber waits is left, and the values are stored where the
call had its receiver. -/
theorem VM.completeYield_ok {context : Context} {frame : Frame} (args : List Value)
    (wellFormed : machine.heap.WellFormed)
    (running : machine.context? machine.current = some context)
    (isTop : context.frames.back? = some frame) (noEnv : frame.env = none) :
    ∃ value next changed, completeYield args machine = .ok () next ∧ next.Packs args value ∧
      next.currentFiber = machine.currentFiber ∧
      next.current = machine.current ∧ next.context? machine.current = some changed ∧
      changed.frames = context.frames.pop ∧ changed.pending = context.pending ∧
      changed.slot frame.base = value ∧
      ∀ index, index ≠ frame.base → changed.slot index = context.slot index := by
  let popped := machine.modifyContext machine.current fun context =>
    { context with frames := context.frames.pop }
  have pops : popFrame? machine = .ok (some frame) popped := by
    have read : Query.context machine = .ok context := context_eq_ok_iff.mpr running
    rw [popFrame?, bind_of_ok (liftM_of_ok read), isTop]
    dsimp only
    rw [noEnv]
    rfl
  have running' : popped.context? popped.current =
      some { context with frames := context.frames.pop } :=
    Machine.context?_modifyContext running _
  obtain ⟨value, heap, packed, packs, keeps⟩ :=
    @packValues_ok popped wellFormed args
  let next := ({ popped with heap } : Machine).modifyContext machine.current
    (·.setSlot (frame.base + 0) value)
  have completed : completeYield args machine = .ok () next := by
    rw [completeYield, bind_of_ok pops]
    dsimp only
    rw [bind_of_ok packed]
    rfl
  refine ⟨value, next, _, completed, packs.keepsData (.of_cells rfl), rfl, rfl,
    @Machine.context?_modifyContext { popped with heap } _ running' _, ?_, ?_, ?_, ?_⟩
  · exact ensureSize_frames _ _
  · exact Context.setSlot_pending _ _ _
  · exact Context.slot_setSlot _ _ _
  · exact fun index isOther => Context.slot_setSlot_of_ne _ _ isOther

/-- A resume goes on with the call that a machine entered: the loop of the fiber runs with the
same frames without that of the call and with the same registers, but for the one that holds
what the call returns, and for the slots that were written. -/
structure Continues (machine : Machine) (handle : Handle) (args : List Value) (entered : Machine)
    (register : Nat) (written : Set (ContextId × Nat)) (going : Machine) : Prop where
  currentFiber : going.currentFiber = some handle
  current : going.current = entered.current
  frames : going.frames = entered.frames.dropLast
  value : ∃ value, going.Packs args value ∧ going.slot? register = some value
  registers : ∀ index, index ≠ register → (entered.current, index) ∉ written →
    going.slot? index = entered.slot? index
  runs : ∀ engine result last, engine.loop 0 going = ended result last →
    VM.resume engine (.object handle) args machine =
      leaveFiber handle entered.current result (shallower last)

/-- The next resume of a fiber that waits in a method which is no bytecode. -/
theorem VM.resume_continues {again : Machine} {stack : Context} {native : Frame}
    {record : FiberRecord} {written : Set (ContextId × Nat)} (linked : again.Linked tidy)
    (resumable : Resumable again handle record) (suspended : record.state = .suspended)
    (isCurrent : entered.current = record.context)
    (running : entered.context? entered.current = some stack)
    (isTop : stack.frames.back? = some native) (noEnv : native.env = none)
    (same : ∃ context, again.context? record.context = some context ∧
      Machine.SimilarStack (fun index => (record.context, index) ∈ written) stack context)
    (args : List Value) :
    ∃ going, Continues again handle args entered native.base written going := by
  obtain ⟨switched, isSwitch, switches⟩ := switchTo_of_linked linked resumable.found
  obtain ⟨context, isContext, similar⟩ := same
  have wellFormed : switched.heap.WellFormed := switches.restates.wellFormed
  have running' : switched.context? switched.current = some context := by
    rw [switches.context?_eq, switches.current]
    exact isContext
  obtain ⟨value, next, changed, completed, packs, sameFiber, sameStack, isChanged, frames, -, isValue,
    others⟩ := completeYield_ok args wellFormed running' (similar.frames ▸ isTop) noEnv
  have began : startFiber record args switched = .ok () next := by
    rw [startFiber, if_neg (by rw [suspended]; exact nofun)]
    exact completed
  have onStack : next.current = entered.current :=
    sameStack.trans (switches.current.trans isCurrent.symm)
  have isRunning : (deeper next).context? (deeper next).current = some changed := by
    rw [← sameStack] at isChanged
    exact isChanged
  have slots (index : Nat) : (deeper next).slot? index = some (changed.slot index) := by
    rw [Machine.slot?, isRunning]
    rfl
  refine ⟨deeper next,
    { currentFiber := sameFiber.trans switches.currentFiber
      current := onStack
      frames := ?_
      value := ⟨value, packs, (slots native.base).trans (congrArg some isValue)⟩
      registers := fun index isOther unwritten => ?_
      runs := fun engine result last ran => ?_ }⟩
  · rw [Machine.frames_of_context? isRunning, Machine.frames_of_context? running, frames,
      similar.frames, Array.toList_pop]
  · rw [slots, others index isOther, similar.slot index (isCurrent ▸ unwritten), Machine.slot?, running]
    rfl
  · rw [resume_of_resumable resumable, isCurrent]
    exact resumeFiber_of_ended isSwitch (resumable.runFiber_of_started linked switches began ran)

/-! ### In between -/

/-- To hand values over and to be resumed is like a call: the resume in progress returns the
values, and the next resume of the fiber, whatever happens in between, goes on behind the
instruction with its own values as the result of the call. -/
theorem Happens.yield_acts_as_call {α : Type} {body : Engine → VM α} {start : Machine}
    {total : Nat} {events earlier inside later : List Event}
    (most : CatchesAtMost tidy catches) (conform : HostsConform catches hosts)
    (linked : start.Linked tidy) (happens : Happens catches hosts total (.code body) start events)
    (inOrder : events =
      earlier ++ .called fuel (fun engine => VM.resume engine (.object handle) args) machine ::
        (inside ++ .ended fuel (fun engine => VM.resume engine (.object handle) args) machine ::
          later))
    (yields : Yields hosts fuel handle args machine begun count reached frame instruction receiver
      given entered) :
    ∃ value last record, VM.resume (.ofHosts hosts fuel) (.object handle) args machine =
        .ok value last ∧ last.Packs given.positional value ∧
      last.fiber? handle = some record ∧ record.state = .suspended ∧
      (∃ below native, reached.collectedIfDue.frames = below ++ [frame] ∧
        entered.frames = below ++ [{ frame with pc := instruction.next }, native]) ∧
      ∀ between fuel' args' again later' record',
        later = between ++
          .called fuel' (fun engine => VM.resume engine (.object handle) args') again :: later' →
        Resumable again handle record' → record'.state = .suspended →
        again.cycles record.signals = last.cycles record.signals →
        ∃ going, Continues again handle args' entered (frame.base + instruction.operands.a)
          (writtenIn between) going := by
  have follows := happens.follows most conform ⟨rfl, linked⟩
  rw [inOrder] at follows
  obtain ⟨linkedHere, follows⟩ := follows.drop
  obtain ⟨linkedLast, follows⟩ := follows.drop
  obtain ⟨value, last, record, resumed, packs, found, suspended, isCurrent, sameStack⟩ :=
    yields.returns most conform linkedHere
  have sends := yields.sends.enters (yields.fits_reached most conform linkedHere).1
  obtain ⟨-, linkedEntered, -, below, native, isBase, noEnv, isBelow, isFrames⟩ := sends
  refine ⟨value, last, record, resumed, packs, found, suspended, ⟨below, native, isBelow, isFrames⟩, ?_⟩
  intro between fuel' args' again later' record' isLater resumable suspended' sameCycle
  obtain ⟨stack, running⟩ := Option.isSome_iff_exists.mp linkedEntered.live_current
  have isTop : stack.frames.back? = some native := by
    rw [← Array.getLast?_toList, ← Machine.frames_of_context? running, isFrames]
    simp
  rw [isLater] at follows
  have linkedAgain := follows.drop.1
  -- the fiber has kept its stack, because it is suspended in the same cycle
  have isLast : (Event.ended fuel (fun engine => VM.resume engine (.object handle) args)
      machine).machine hosts = last := after_of_ok resumed
  have onward := follows.onward
  rw [isLast] at onward
  rcases onward.fibers handle record found with passed |
    ⟨record'', found', sameContext, -, -, kept⟩
  · have isGone : again.fiber? handle = none :=
      Option.bind_eq_none_iff.mpr fun _ isObject => by cases passed.get?_eq_none.symm.trans isObject
    cases isGone.symm.trans resumable.found
  · obtain rfl : record'' = record' := Option.some.inj (found'.symm.trans resumable.found)
    have similar := (kept suspended' sameCycle).2 stack (sameStack.trans running)
    rw [← isBase]
    refine resume_continues linkedAgain resumable suspended' (isCurrent.trans sameContext.symm) running
      isTop noEnv ?_ args'
    rw [sameContext]
    obtain ⟨context, isContext, same⟩ := similar
    refine ⟨context, isContext, same.frames, same.pending, fun index unwritten => same.slot index ?_⟩
    rintro (isWritten | isWritten)
    · exact isWritten
    · exact unwritten isWritten

end Resumes

/-! ### A fiber that pauses -/

namespace Pausing

/-- The code of a block that hands nothing over and returns what it is resumed with. -/
def unit : CodeUnit where
  localCount := 1
  registerCount := 3
  code := (Instruction.encodeAll [(.send, { a := 1 }), (.returnValue, { a := 1 })]).toArray
  handlers := []
  pool := #[]
  symbols := #[some (Text.utf8 "yield")]
  children := []

/-- The class of nil, whose only method hands values over. -/
def nilClass : Object where
  classHandle := .null
  content := .classOrModule
    { kind := .ordinary, superclass := none, instances := .special
      methods := ⟨[(⟨1⟩, .native (.closure .yield))]⟩
      ancestors := some ⟨0, [⟨1, 1⟩]⟩ }

def block : Object where
  classHandle := .null
  content := .proc { unit, upper := none, env := none, targetClass := .null, strict := false }

/-- A machine in which nil has such a method. -/
def idle : Machine :=
  { Machine.empty {} with
    heap := (((Heap.new {}).allocate nilClass).1.allocate block).1
    symbols := .empty
    coreClasses := ⟨[(.nil, ⟨1, 1⟩)]⟩ }

/-- The machine with a fiber that runs the block. -/
def machine : Machine := idle.withFiber ⟨2, 1⟩

def handle : Handle := ⟨3, 1⟩

def record : FiberRecord := { context := ⟨1⟩, body := ⟨2, 1⟩, state := .created, signals := 0 }

theorem linked (tidy : Prop) : machine.Linked tidy := by
  have wellFormed : (Heap.new {}).WellFormed := Heap.wellFormed_new {}
  have withClass : (Heap.new {}).KeepsFibers ((Heap.new {}).allocate nilClass).1 :=
    .allocate wellFormed rfl (Object.not_captures rfl)
  have withBlock : ((Heap.new {}).allocate nilClass).1.KeepsFibers idle.heap :=
    .allocate withClass.wellFormed rfl (@Object.not_captures block rfl)
  have keeps : (Machine.empty {}).KeepsFibers idle :=
    ⟨rfl, rfl, rfl, rfl, rfl, rfl, rfl, rfl, fun _ => withClass.trans withBlock⟩
  exact ((Machine.KeepsOthers.of_keepsFibers wellFormed keeps).linked (Machine.linked_empty {})).withFiber _

theorem resumable : Resumable machine handle record :=
  ⟨rfl, .inl rfl, by decide, by unfold HasRoom; decide⟩

/-- The machine in which the loop of the fiber begins. -/
def begun : Machine :=
  deeper ((startFiber record []).after ((switchTo handle record.context).after machine))

/-- The frame of the block. -/
def frame : Frame :=
  { base := 0, top := 3, proc := some ⟨2, 1⟩, unit := some unit, argCount := 0
    hasKeywords := false, method := none, owner := none, targetClass := .null, boundary := true
    block := .nil }

/-- The machine in which the method is searched. -/
def searching : Machine :=
  (normalizeArgs 1 0 false).after ((intern (Text.utf8 "yield")).after (begun.fetched 4))

def found : FoundMethod := ⟨.native (.closure .yield), ⟨1, 1⟩⟩

/-- The machine in which the method is entered. -/
def entered : Machine :=
  (pushNativeFrame { receiverAt := 1 } ⟨1, 1⟩ ⟨1⟩ .nil).after
    ((cacheMethod ⟨1, 1⟩ ⟨1⟩ found).after searching)

-- the tables of hashes do not compute, but they are empty when they are asked

theorem interned : intern (Text.utf8 "yield") (begun.fetched 4) =
    .ok ⟨1⟩ ((intern (Text.utf8 "yield")).after (begun.fetched 4)) := by
  have isNew : (SymbolTable.empty.intern (Text.utf8 "yield")).2 = ⟨1⟩ := by
    rw [SymbolTable.intern, SymbolTable.empty, Std.HashMap.getElem?_empty]
    rfl
  exact congrArg (EStateM.Result.ok · _) isNew

theorem searched : findMethod ⟨1, 1⟩ ⟨1⟩ searching =
    .ok (some found) ((cacheMethod ⟨1, 1⟩ ⟨1⟩ found).after searching) := by
  have uncached : Query.cachedMethod? ⟨1, 1⟩ ⟨1⟩ searching = .ok none := by
    have isEmpty : searching.methodCache.entries = ∅ := rfl
    rw [Query.cachedMethod?, isEmpty, Std.HashMap.getElem?_empty]
  rw [findMethod, bind_of_ok (liftM_of_ok uncached)]
  rfl

theorem steps (engine : Engine) : step engine 0 begun.collectedIfDue =
    (engine.native (.closure .yield) .nil {} >>= leaveNative 1) entered := by
  have fetches : step engine 0 begun.collectedIfDue =
      (intern (Text.utf8 "yield") >>= fun name => send engine 0 1 name 0 false) (begun.fetched 4) := rfl
  rw [fetches, bind_of_ok interned]
  exact bind_of_ok searched

theorem sends : Sends (.ofHosts #[] 9) 0 begun frame ⟨.send, { a := 1 }, 0, 4⟩ (.closure .yield)
    .nil {} entered :=
  ⟨rfl, rfl, rfl, comesTo_cycle steps rfl rfl⟩

theorem comesTo_begun : (Engine.ofHosts #[] 10).ComesTo
    (fun engine => VM.resume engine (.object handle) []) machine (.loop 0) begun := by
  obtain ⟨switched, isSwitch, switches⟩ := switchTo_of_linked (linked True) resumable.found
  obtain rfl : (switchTo handle record.context).after machine = switched := after_of_ok isSwitch
  have began : startFiber record [] ((switchTo handle record.context).after machine) = .ok () _ := rfl
  have isLinked : begun.Linked True :=
    (asksAt_of_started (linked True) resumable isSwitch switches began).moves.linked
  have agrees : (Engine.ofHosts #[] 10).Agrees True (.ofHosts #[] 10) :=
    Engine.agrees_ofHosts (catchesAtMost_nothing True) (hostsConform_empty _) 10
  obtain ⟨final, cycled⟩ : ∃ final, cycle (.ofHosts #[] 9) 0 begun =
      .ok (some (.yielded .nil)) final := ⟨_, sends.handsOver isLinked rfl rfl⟩
  have ran : (Engine.ofHosts #[] 10).loop 0 begun = .ok (.yielded .nil) final := runLoop_of_ok cycled
  obtain ⟨last, _, resumed, -⟩ :=
    resume_of_yielded agrees (linked True) resumable isSwitch switches began ran
  refine comesTo_started (linked True) resumable isSwitch switches began ?_
  rw [resumed]
  trivial

theorem yields : Yields #[] 10 handle [] machine begun 0 begun frame
    ⟨.send, { a := 1 }, 0, 4⟩ .nil {} entered where
  starts := comesTo_begun
  passes := ⟨[], .here _ _⟩
  sends := sends
  succeeds := ⟨_, _, rfl⟩

end Pausing

/-- The fiber hands nothing over, and its next resume goes on with what it is resumed with. -/
theorem Happens.yield_acts_as_call_pausing :
    ∃ value last record,
      VM.resume (.ofHosts #[] 10) (.object Pausing.handle) [] Pausing.machine = .ok value last ∧
        last.Packs [] value ∧
        last.fiber? Pausing.handle = some record ∧ record.state = .suspended ∧
        ∃ going, Continues last Pausing.handle [.int 7] Pausing.entered 1 (writtenIn []) going := by
  have most := catchesAtMost_nothing True
  have conform := hostsConform_empty fun _ => false
  have linked := Pausing.linked True
  have first : EntryPoint fun engine => VM.resume engine (.object Pausing.handle) [] := .resume _ _
  have second : EntryPoint fun engine => VM.resume engine (.object Pausing.handle) [.int 7] :=
    .resume _ _
  obtain ⟨value, last, record, resumed, -⟩ := Pausing.yields.returns most conform linked
  obtain ⟨linked', beside⟩ := first.leads most conform linked resumed
  obtain ⟨inside, later, happens⟩ :=
    exists_happens_two most conform first second linked linked' resumed
  obtain ⟨value', last', record, resumed', packs, found, suspended, -, continues⟩ :=
    happens.yield_acts_as_call most conform linked (List.nil_append _).symm Pausing.yields
  obtain ⟨rfl, rfl⟩ := EStateM.Result.ok.inj (resumed.symm.trans resumed')
  have resumable : Resumable last Pausing.handle record :=
    { found
      waiting := .inr suspended
      calls := by
        rw [beside.resumers, beside.config]
        decide
      room := by
        rw [HasRoom, beside.nativeDepth, beside.config]
        decide }
  exact ⟨value, last, record, resumed, packs, found, suspended,
    continues [] 10 [.int 7] last later record (List.nil_append _).symm resumable suspended rfl⟩

end RiteVm
