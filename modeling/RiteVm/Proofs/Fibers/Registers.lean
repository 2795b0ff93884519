import RiteVm.Call.Binding
import RiteVm.Call.Enclosing
import RiteVm.Fiber.Resume
import RiteVm.Proofs.Fibers.Levels
import RiteVm.Proofs.Fibers.QuietClasses

/-!
Contract: registers and frames of the running stack.

Owns:
- changes of the running stack, of captured variables on other stacks, and of the wakers of
  a fiber;
- one instance for each action that lays out arguments, binds parameters or reads the scopes
  around the running frame;
- pushing frames and leaving them.
-/

namespace RiteVm

namespace Machine

variable {tidy : Prop} {machine : Machine} {context : Context} {change : Context → Context}

theorem context?_of_modifyContext (id other : ContextId) :
    (machine.modifyContext id change).context? other =
      if id = other then (machine.context? other).map change else machine.context? other := by
  rw [context?, context?, modifyContext, Array.getElem?_modify]
  by_cases same : id = other
  · rw [if_pos same, if_pos (congrArg ContextId.index same)]
    cases machine.contexts[other.index]? with
    | none => rfl
    | some context? => cases context? <;> rfl
  · have apart : id.index ≠ other.index := fun sameIndex => same (by
      obtain ⟨index⟩ := id
      exact congrArg ContextId.mk sameIndex)
    rw [if_neg same, if_neg apart]

theorem isSome_context?_of_modifyContext (id other : ContextId) :
    ((machine.modifyContext id change).context? other).isSome = (machine.context? other).isSome := by
  rw [context?_of_modifyContext]
  split
  · exact Option.isSome_map
  · rfl

theorem framesOf_of_context? {id : ContextId} (found : machine.context? id = some context) :
    machine.framesOf id = context.frames.toList := by
  rw [framesOf, found]
  rfl

theorem frames_of_context? (running : machine.context? machine.current = some context) :
    machine.frames = context.frames.toList :=
  framesOf_of_context? running

theorem frames_modifyContext (running : machine.context? machine.current = some context) :
    (machine.modifyContext machine.current change).frames = (change context).frames.toList := by
  have isChanged : (machine.modifyContext machine.current change).context? machine.current =
      some (change context) := by
    rw [context?_of_modifyContext, if_pos rfl, running]
    rfl
  exact frames_of_context? isChanged

/-- Values of registers are none of the frames' concern. -/
theorem framesOf_modifyContext (same : ∀ context, (change context).frames = context.frames)
    (id other : ContextId) :
    (machine.modifyContext id change).framesOf other = machine.framesOf other := by
  rw [framesOf, framesOf, context?_of_modifyContext]
  split
  · cases machine.context? other with
    | none => rfl
    | some context => exact congrArg Array.toList (same context)
  · rfl

theorem frames_modifyContext_of_same (same : ∀ context, (change context).frames = context.frames)
    (id : ContextId) : (machine.modifyContext id change).frames = machine.frames := by
  have sameStack : (machine.modifyContext id change).current = machine.current := rfl
  rw [frames, frames, sameStack]
  exact framesOf_modifyContext same id _

/-- A change of the running stack is a change of no other stack. -/
theorem keepsOthers_modifyContext (wellFormed : machine.heap.WellFormed)
    (change : Context → Context) :
    machine.KeepsOthers (machine.modifyContext machine.current change) where
  config := rfl
  current := rfl
  currentFiber := rfl
  resumers := rfl
  nativeDepth := rfl
  wellFormed := wellFormed
  fibers _ := rfl
  passed _ := id
  live id := isSome_context?_of_modifyContext _ id
  contextCount := Array.size_modify
  signalCount := rfl
  cycles _ := rfl
  others id isOther context found := by
    refine ⟨context, ?_, rfl, rfl, fun _ _ => rfl⟩
    rw [context?_of_modifyContext, if_neg (Ne.symm isOther)]
    exact found
  captures _ _ _ := id
  informs := .of_signals (fun _ => rfl) rfl rfl

end Machine

namespace VM

-- long actions consist of many parts
set_option synthInstance.maxSize 3000

variable {tidy : Prop} {machine : Machine} {α : Type}

/-! ### Registers -/

theorem InPlace.of_modifyContext {change : Context → Context}
    (same : ∀ context, (change context).frames = context.frames) :
    InPlace (VM.modifyContext change) where
  inPlaceFrom machine wellFormed :=
    .of_modify (Machine.keepsOthers_modifyContext wellFormed change)
      (Machine.frames_modifyContext_of_same same machine.current)

theorem ensureSize_frames (context : Context) (size : Nat) :
    (context.ensureSize size).frames = context.frames := by
  rw [Context.ensureSize]
  split <;> rfl

namespace InPlace

instance setSlot (index : Nat) (value : Value) : InPlace (setSlot index value) :=
  of_modifyContext fun context => ensureSize_frames context _

instance setRegister (base register : Nat) (value : Value) :
    InPlace (setRegister base register value) :=
  setSlot _ _

instance clear (first last : Nat) : InPlace (VM.modifyContext (·.clear first last)) :=
  of_modifyContext fun context => ensureSize_frames context _

instance setPending (pending : Option Pending) : InPlace (VM.modifyContext ({ · with pending })) :=
  of_modifyContext fun _ => rfl

instance setSlots (first : Nat) (values : List Value) : InPlace (setSlots first values) := by
  induction values generalizing first with
  | nil => exact inferInstanceAs (InPlace (pure _))
  | cons value rest inductionHypothesis =>
      unfold VM.setSlots
      infer_instance

end InPlace

/-! ### Captured variables and signals -/

/-- A captured slot of any stack may get another value. -/
theorem keepsOthers_setCaptured {id : ContextId} {index : Nat} (wellFormed : machine.heap.WellFormed)
    (captured : machine.heap.Captures id index) (value : Value) :
    machine.KeepsOthers (machine.modifyContext id fun context =>
      { context with stack := context.stack.setIfInBounds index value }) where
  config := rfl
  current := rfl
  currentFiber := rfl
  resumers := rfl
  nativeDepth := rfl
  wellFormed := wellFormed
  fibers _ := rfl
  passed _ passed := passed
  live other := Machine.isSome_context?_of_modifyContext _ other
  contextCount := Array.size_modify
  signalCount := rfl
  cycles _ := rfl
  others other _ context found := by
    rw [Machine.context?_of_modifyContext]
    split
    · rename_i same
      rw [found]
      refine ⟨_, rfl, rfl, rfl, fun slot uncaptured => ?_⟩
      have isOther : index ≠ slot := fun isSlot => uncaptured (same ▸ isSlot ▸ captured)
      rw [Context.slot, Context.slot, Array.getD_eq_getD_getElem?, Array.getD_eq_getD_getElem?,
        Array.getElem?_setIfInBounds_ne isOther]
    · exact ⟨context, found, rfl, rfl, fun _ _ => rfl⟩
  captures _ _ _ captured := captured
  informs := .of_signals (fun _ => rfl) rfl rfl

instance InPlace.setCapturedVar (env : Handle) (register : Nat) (value : Value) :
    InPlace (setCapturedVar env register value) where
  inPlaceFrom machine wellFormed := by
    unfold VM.setCapturedVar
    refine .query_bind wellFormed fun record read => ?_
    obtain ⟨object, found, isEnv⟩ :=
      Option.bind_eq_some_iff.mp (Query.envRecord_eq_ok_iff.mp read)
    split
    · rename_i id fiber base count onStack
      split
      · rename_i inside
        have captured : machine.heap.Captures id (base + register) :=
          ⟨env, object, found, record, fiber, base, count, isEnv, onStack, by omega, by omega⟩
        refine .of_modify (keepsOthers_setCaptured wellFormed captured value) ?_
        refine Machine.frames_modifyContext_of_same ?_ id
        exact fun _ => rfl
      · exact .of_inPlace wellFormed
    · exact .of_quietFrom wellFormed (Quiet.detach found isEnv)

theorem fiber?_allocate_of_noFiber {object : Object} (wellFormed : machine.heap.WellFormed)
    (noFiber : object.fiber? = none) (handle : Handle) :
    (machine.heap.allocate object).1.fiber? handle = machine.fiber? handle := by
  refine (wellFormed.fiber?_allocate object handle).trans ?_
  split
  · rename_i isNew
    rw [isNew, Machine.fiber?, Heap.fiber?, wellFormed.get?_allocate_snd]
    exact noFiber
  · rfl

/-- The environment of the running frame captures only slots of the running stack. -/
theorem keepsOthers_allocateEnv {object : Object} (wellFormed : machine.heap.WellFormed)
    (noFiber : object.fiber? = none)
    (onCurrent : ∀ id index, object.Captures id index → id = machine.current) :
    machine.KeepsOthers { machine with heap := (machine.heap.allocate object).1 } where
  config := rfl
  current := rfl
  currentFiber := rfl
  resumers := rfl
  nativeDepth := rfl
  wellFormed := wellFormed.allocate object
  fibers := fiber?_allocate_of_noFiber wellFormed noFiber
  passed _ passed := passed.allocate object
  live _ := rfl
  contextCount := rfl
  signalCount := rfl
  cycles _ := rfl
  others _ _ context found := ⟨context, found, rfl, rfl, fun _ _ => rfl⟩
  captures id isOther index captured :=
    (wellFormed.captures_allocate captured).resolve_left fun isNew => isOther (onCurrent id index isNew)
  informs := .of_signals (fiber?_allocate_of_noFiber wellFormed noFiber) rfl rfl

/-- A poll of signals, which completes no cycle. -/
theorem InPlace.of_withSignals {number : Nat} {change : FiberSignals → FiberSignals × α}
    {signal : Signal} (tells : ∀ signals, (change signals).1 = signals.told signal)
    (notCycle : signal.isCycle = false) : InPlace (withSignals number change) where
  inPlaceFrom machine wellFormed := by
    have signals : ((withSignals number change).after machine).signals =
        machine.signals.setIfInBounds number ((machine.signalsOf number).told signal) := by
      rw [← tells]
      rfl
    exact
      { frames := rfl
        keeps :=
          { config := rfl
            current := rfl
            currentFiber := rfl
            resumers := rfl
            nativeDepth := rfl
            wellFormed := wellFormed
            fibers := fun _ => rfl
            passed := fun _ passed => passed
            live := fun _ => rfl
            contextCount := rfl
            signalCount := Array.size_setIfInBounds
            cycles := fun other => (Machine.same_of_poll notCycle signals other).1
            others := fun _ _ context found => ⟨context, found, rfl, rfl, fun _ _ => rfl⟩
            captures := fun _ _ _ captured => captured
            informs := .of_poll (fun _ => rfl) notCycle signals rfl } }

/-! ### Arguments -/

namespace InPlace

instance normalizeArgs (receiverAt operand : Nat) (withBlock : Bool) :
    InPlace (normalizeArgs receiverAt operand withBlock) := by
  have finish (site : CallSite) (block : Value) : InPlace (do
      if !block.isNil then
        let _ ← VM.expectProc block
      VM.setSlot site.blockAt block
      return site : VM CallSite) := by
    dsimp only
    infer_instance
  dsimp only at finish
  unfold VM.normalizeArgs
  dsimp only
  split <;> refine @seq _ _ _ _ _ fun block => ?_ <;> split
  · infer_instance
  · split <;> infer_instance
  · infer_instance
  · split <;> infer_instance

instance packForMissing (site : CallSite) (name : Symbol) : InPlace (packForMissing site name) := by
  unfold VM.packForMissing
  dsimp only
  infer_instance

instance layOutArgs (receiverAt : Nat) (receiver : Value) (args : Args) :
    InPlace (layOutArgs receiverAt receiver args) := by
  unfold VM.layOutArgs
  dsimp only
  infer_instance

end InPlace

namespace Quiet

instance enclosingEnv (level : Nat) : Quiet (enclosingEnv level) := by
  unfold VM.enclosingEnv
  refine @seq _ _ _ _ _ fun env? => ?_
  split <;> infer_instance

instance outwardArg (base level index : Nat) : Quiet (outwardArg base level index) := by
  unfold VM.outwardArg
  split <;> infer_instance

instance newDictionary (keywords? : Option Value) : Quiet (newDictionary keywords?) := by
  unfold VM.newDictionary
  infer_instance

instance takeKeyword (base : Nat) (name : Symbol) : Quiet (takeKeyword base name) := by
  have finish (found : Option Value) : Quiet (match found with
      | some value => Pure.pure value
      | none => do VM.raise .argumentError s!"missing keyword: {← Query.symbolText name}" : VM Value) := by
    split <;> infer_instance
  unfold VM.takeKeyword
  refine @seq _ _ _ _ _ fun digest => @seq _ _ _ _ _ fun dictionary? => ?_
  dsimp only
  split <;> infer_instance

instance checkKeywords (base : Nat) : Quiet (checkKeywords base) := by
  unfold VM.checkKeywords
  refine @seq _ _ _ _ _ fun dictionary? => ?_
  split
  · refine @seq _ _ _ _ _ fun pairs? => ?_
    split <;> infer_instance
  · infer_instance

instance packValues (values : List Value) : Quiet (packValues values) := by
  unfold VM.packValues
  split <;> infer_instance

end Quiet

namespace InPlace

instance argArray (base register operand : Nat) : InPlace (argArray base register operand) := by
  unfold VM.argArray
  dsimp only
  infer_instance

instance pushBlock (base register operand : Nat) : InPlace (pushBlock base register operand) := by
  unfold VM.pushBlock
  dsimp only
  infer_instance

end InPlace

/-! ### The running frame -/

theorem frames_modifyFrame {machine : Machine} (linked : machine.Linked tidy)
    (change : Frame → Frame) : ((VM.modifyFrame change).after machine).frames =
      machine.frames.modify (machine.frames.length - 1) change := by
  obtain ⟨context, running⟩ := Option.isSome_iff_exists.mp linked.live_current
  have isAfter : ((VM.modifyFrame change).after machine).frames =
      (context.frames.modify (context.frames.size - 1) change).toList :=
    Machine.frames_modifyContext running
  rw [isAfter, Machine.frames_of_context? running, Array.toList_modify, Array.length_toList]

namespace Advancing

theorem of_modifyFrame {change : Frame → Frame}
    (same : ∀ frame, (change frame).boundary = frame.boundary) :
    Advancing tidy (VM.modifyFrame change) (VM.modifyFrame change) where
  advancingFrom machine linked := by
    refine .of_keepsOthers linked (Machine.keepsOthers_modifyContext linked.wellFormed _) ?_
    rw [frames_modifyFrame linked]
    exact .of_modify _ same

instance setPc (pc : Nat) : Advancing tidy (modifyFrame ({ · with pc })) (modifyFrame ({ · with pc })) :=
  of_modifyFrame fun _ => rfl

instance setEnv (env : Option Handle) :
    Advancing tidy (modifyFrame ({ · with env })) (modifyFrame ({ · with env })) :=
  of_modifyFrame fun _ => rfl

instance setEnsuring (ensuring : Option Handle) :
    Advancing tidy (modifyFrame ({ · with ensuring })) (modifyFrame ({ · with ensuring })) :=
  of_modifyFrame fun _ => rfl

instance frameEnv : Advancing tidy frameEnv frameEnv where
  advancingFrom machine linked := by
    have inPlace {β : Type} {action : VM β} (quiet : QuietFrom machine action) :
        AdvancingFrom tidy machine action action :=
      .of_inPlaceFrom linked (.of_quietFrom linked.wellFormed quiet)
    unfold VM.frameEnv
    refine .query_bind linked fun frame _ => ?_
    split
    · exact inPlace .of_quiet
    · refine .bind (inPlace .of_quiet) fun start next got _ => ?_
      obtain ⟨rfl, rfl⟩ : machine = start ∧ machine = next := by
        cases got
        exact ⟨rfl, rfl⟩
      refine .query_bind linked fun classHandle _ => ?_
      refine .bind (.of_inPlaceFrom linked ⟨?_, rfl⟩) fun env next _ linked => ?_
      · refine keepsOthers_allocateEnv linked.wellFormed rfl ?_
        rintro id index ⟨record, fiber, base, count, isEnv, onStack, -⟩
        cases isEnv
        cases onStack
        rfl
      · exact seq.advancingFrom next linked

instance becomeProc : Advancing tidy becomeProc becomeProc := by
  have become (proc : Handle) (record : ProcRecord) (method : Option Symbol)
      (owner : Option Handle) (top : Nat) : Advancing tidy (modifyFrame fun frame =>
        { frame with
          proc := some proc, unit := some record.unit, pc := 0, env := none, top
          targetClass := record.targetClass, method, owner }) _ :=
    of_modifyFrame fun _ => rfl
  unfold VM.becomeProc
  refine @seq _ _ _ _ _ _ _ inferInstance fun frame => ?_
  refine @seq _ _ _ _ _ _ _ inferInstance fun receiver => ?_
  refine @seq _ _ _ _ _ _ _ inferInstance fun proc => ?_
  refine @seq _ _ _ _ _ _ _ inferInstance fun record => ?_
  dsimp only
  split <;> infer_instance

instance placeArgs (base : Nat) (frame : Frame) (spec : Bytecode.ArgSpec) (bound : BoundArgs)
    (keywords? : Option Value) (block : Value) :
    Advancing tidy (placeArgs base frame spec bound keywords? block)
      (placeArgs base frame spec bound keywords? block) := by
  have setDictionary (register : Nat) : Advancing tidy
      (modifyFrame ({ · with keywordRegister := some register })) _ :=
    of_modifyFrame fun _ => rfl
  have enlarge (next skipped : Nat) : Advancing tidy (modifyFrame fun frame =>
      { frame with top := max frame.top next, pc := frame.pc + skipped }) _ :=
    of_modifyFrame fun _ => rfl
  unfold VM.placeArgs
  dsimp only
  infer_instance

instance enter (base : Nat) (spec : Bytecode.ArgSpec) :
    Advancing tidy (enter base spec) (enter base spec) := by
  unfold VM.enter
  dsimp only
  infer_instance

end Advancing

end VM

end RiteVm
