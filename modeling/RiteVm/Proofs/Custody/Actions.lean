import RiteVm.Proofs.Custody.Steps
import RiteVm.Proofs.Edits.Instructions

/-!
Contract: actions that go by steps, and the calls among them.

Owns:
- going by steps from every machine with a well-formed heap, however the action ends;
- the rules for the ways in which actions are put together;
- the actions on register stacks and frames that are no edits;
- engines whose loops and methods go by steps, and one instance for each way to call a
  method, to run a program and to resume a fiber.

Edits are steps, so only what an edit does not cover is listed. What an action raises does
not matter.
-/

namespace RiteVm

namespace VM

/-- An action goes by steps, however it ends. -/
class Steps {α : Type} (action : VM α) : Prop where
  stepped : ∀ machine : Machine, machine.heap.WellFormed → machine.Stepped (action.after machine)

namespace Steps

/-! ### Composition -/

section Composition

variable {α β : Type} {action : VM α} {rest : α → VM β}

instance (priority := low) ofEdits [edits : Edits action] : Steps action :=
  ⟨fun machine wellFormed => (edits.editsFrom machine wellFormed).edited.stepped⟩

/-- An action that succeeds with one step. -/
theorem of_step {value : Machine → α} {change : Machine → Machine}
    (succeeds : ∀ machine, action machine = .ok (value machine) (change machine))
    (step : ∀ machine : Machine, machine.Step (change machine)) : Steps action where
  stepped machine _ := by
    rw [after_of_ok (succeeds machine)]
    exact .single (step machine)

/-- A change that leaves the objects and the payloads alone. -/
theorem of_control {change : Machine → Machine}
    (heap : ∀ machine, (change machine).heap = machine.heap)
    (released : ∀ machine, (change machine).released = machine.released) :
    Steps (modify change : VM PUnit) :=
  of_step (fun _ => rfl) fun machine => .control (heap machine) (released machine)

instance ofFailure (failure : Failure) : Steps (throw failure : VM α) := ⟨fun _ _ => .refl⟩

instance seq [first : Steps action] [second : ∀ value, Steps (rest value)] :
    Steps (action >>= rest) where
  stepped machine wellFormed := by
    have steps := first.stepped machine wellFormed
    cases result : action machine with
    | ok value next =>
        rw [after_of_ok result] at steps
        rw [after_bind_of_ok result]
        exact steps.trans ((second value).stepped next (steps.wellFormed wellFormed))
    | error failure next =>
        rw [after_of_error result] at steps
        rw [after_of_error (bind_of_error result)]
        exact steps

/-- The action behind a part of it whose value it depends on. -/
theorem behind [Steps action] (others : ∀ value, Steps (rest value)) : Steps (action >>= rest) :=
  seq

instance mapped (change : α → β) [Steps action] : Steps (change <$> action) := by
  rw [map_eq_pure_bind]
  infer_instance

instance branch (condition : Prop) [Decidable condition] {yes no : VM α} [Steps yes]
    [Steps no] : Steps (if condition then yes else no) := by
  split <;> infer_instance

/-- An attempt leaves the machine that the action leaves. -/
instance attempted [steps : Steps action] : Steps (VM.attempt action) where
  stepped machine wellFormed := by
    have steps := steps.stepped machine wellFormed
    rw [after] at steps ⊢
    rw [VM.attempt]
    cases result : action machine <;> rw [result] at steps <;> exact steps

instance resolve (result : Except Failure α) : Steps (resolve result) := by
  cases result <;> unfold VM.resolve <;> infer_instance

instance listMapM [steps : ∀ value, Steps (rest value)] (list : List α) :
    Steps (list.mapM rest) := by
  induction list with
  | nil =>
      rw [List.mapM_nil]
      infer_instance
  | cons first more inductionHypothesis =>
      rw [List.mapM_cons]
      infer_instance

instance optionMapM [steps : ∀ value, Steps (rest value)] (option : Option α) :
    Steps (option.mapM rest) := by
  cases option
  · exact inferInstanceAs (Steps (pure _))
  · exact mapped _

instance optionForM {step : α → VM PUnit} [steps : ∀ value, Steps (step value)]
    (option : Option α) : Steps (option.forM step) := by
  cases option
  · exact inferInstanceAs (Steps (pure _))
  · exact steps _

end Composition

/-! ### Register stacks, levels and objects -/

instance allocate (object : Object) : Steps (VM.allocate object) :=
  of_step (fun _ => rfl) fun _ => .allocate object

instance modifyContext (change : Context → Context) : Steps (VM.modifyContext change) :=
  of_control (fun _ => rfl) (fun _ => rfl)

instance modifyFrame (change : Frame → Frame) : Steps (VM.modifyFrame change) :=
  modifyContext _

instance collect : Steps VM.collect := of_step (fun _ => rfl) fun _ => .collect

instance nested {α : Type} (action : VM α) [Steps action] : Steps (nested action) := by
  have enter : Steps (modify fun machine : Machine =>
      { machine with nativeDepth := machine.nativeDepth + 1 } : VM PUnit) :=
    of_control (fun _ => rfl) (fun _ => rfl)
  have leave : Steps (modify fun machine : Machine =>
      { machine with nativeDepth := machine.nativeDepth - 1 } : VM PUnit) :=
    of_control (fun _ => rfl) (fun _ => rfl)
  unfold VM.nested
  infer_instance

instance finishCall (result : Except Failure Exit) : Steps (finishCall result) := by
  unfold VM.finishCall
  split
  · infer_instance
  · infer_instance
  · refine behind fun depth => ?_
    split <;> infer_instance
  · infer_instance

/-! ### Frames -/

instance pushFrame (frame : Frame) : Steps (pushFrame frame) := modifyContext _

instance pushProcFrame (site : CallSite) (proc : Handle) (owner : Option Handle)
    (method : Option Symbol) (block : Value) (boundary : Bool) :
    Steps (pushProcFrame site proc owner method block boundary) := by
  unfold VM.pushProcFrame
  dsimp only
  infer_instance

instance pushNativeFrame (site : CallSite) (owner : Handle) (method : Symbol) (block : Value) :
    Steps (pushNativeFrame site owner method block) := by
  unfold VM.pushNativeFrame
  dsimp only
  infer_instance

instance popFrame? : Steps popFrame? := by
  unfold VM.popFrame?
  refine behind fun context => ?_
  split <;> infer_instance

instance truncateFrames (height : Nat) : Steps (truncateFrames height) := modifyContext _

instance takeYielded : Steps takeYielded := by
  have clear : Steps (modify fun machine : Machine => { machine with yielded := none } : VM PUnit) :=
    of_control (fun _ => rfl) (fun _ => rfl)
  unfold VM.takeYielded
  dsimp only
  infer_instance

end Steps

end VM

/-! ### Calls -/

/-- Every loop and every method body that an engine runs goes by steps. -/
class Engine.Steps (engine : Engine) : Prop where
  loop : ∀ stop, VM.Steps (engine.loop stop)
  native : ∀ method self args, VM.Steps (engine.native method self args)

attribute [instance] Engine.Steps.loop Engine.Steps.native

namespace VM.Steps

-- long actions consist of many parts
set_option synthInstance.maxSize 3000

variable (engine : Engine) [engine.Steps]

instance callNative (site : CallSite) (body : NativeMethod) (owner : Handle) (name : Symbol) :
    Steps (callNative engine site body owner name) := by
  have finish (value : Value) : Steps (do
      match ← VM.takeYielded with
      | some yielded => return some (.yielded yielded)
      | none =>
        let _ ← VM.popFrame?
        VM.setSlot site.receiverAt value
        return none : VM (Option Exit)) := by
    refine behind fun yielded => ?_
    split <;> infer_instance
  unfold VM.callNative
  infer_instance

instance callMethod (site : CallSite) (found : FoundMethod) (name : Symbol) :
    Steps (callMethod engine site found name) := by
  unfold VM.callMethod
  split <;> infer_instance

instance dispatch (site : CallSite) (name : Symbol) : Steps (dispatch engine site name) := by
  unfold VM.dispatch
  refine behind fun receiver => behind fun handle => behind fun found? => ?_
  split
  · infer_instance
  · refine behind fun missing? => ?_
    split <;> infer_instance

instance send (base register : Nat) (name : Symbol) (operand : Nat) (withBlock : Bool) :
    Steps (send engine base register name operand withBlock) := by
  unfold VM.send
  infer_instance

instance sendSelf (base register : Nat) (name : Symbol) (operand : Nat) (withBlock : Bool) :
    Steps (sendSelf engine base register name operand withBlock) := by
  unfold VM.sendSelf
  infer_instance

instance callSuper (base register operand : Nat) :
    Steps (callSuper engine base register operand) := by
  unfold VM.callSuper
  refine behind fun frame => ?_
  split
  · refine behind fun receiver => behind fun handle => behind fun found => ?_
    split <;> infer_instance
  · infer_instance

instance callNativeBody (receiver : Value) (body : NativeMethod) (owner : Handle)
    (name : Symbol) (args : Args) :
    Steps (callNativeBody engine receiver body owner name args) := by
  unfold VM.callNativeBody
  refine behind fun context => behind fun _ => behind fun _ => behind fun _ => ?_
  refine behind fun height => behind fun _ => behind fun result => behind fun _ => ?_
  split <;> infer_instance

instance callProcBody (receiver : Value) (proc owner : Handle) (name : Symbol) (args : Args) :
    Steps (callProcBody engine receiver proc owner name args) := by
  unfold VM.callProcBody
  infer_instance

instance callWithArgs (receiver : Value) (name : Symbol) (args : Args) :
    Steps (callWithArgs engine receiver name args) := by
  unfold VM.callWithArgs
  refine behind fun _ => behind fun (found, name, args) => ?_
  dsimp only
  split <;> infer_instance

instance callWith (receiver : Value) (name : Symbol) (args : List Value) :
    Steps (callWith engine receiver name args) :=
  callWithArgs engine _ _ _

instance callProc (proc : Value) (args : List Value) : Steps (callProc engine proc args) :=
  callWith engine _ _ _

instance textBytes (value : Value) : Steps (textBytes engine value) := by
  unfold VM.textBytes
  split
  · infer_instance
  · infer_instance
  · refine behind fun bytes? => ?_
    split
    · infer_instance
    · refine behind fun text => behind fun bytes? => ?_
      split <;> infer_instance
  · infer_instance

instance becomeProc : Steps becomeProc := by
  unfold VM.becomeProc
  refine behind fun frame => behind fun receiver => behind fun proc => behind fun record => ?_
  dsimp only
  split <;> infer_instance

/-! ### Programs -/

instance pushProgramFrame (unit : Bytecode.CodeUnit) (self : Value) (target : Handle) :
    Steps (pushProgramFrame unit self target) := by
  unfold VM.pushProgramFrame
  dsimp only
  infer_instance

instance runUnit (unit : Bytecode.CodeUnit) (self : Value) (target : Handle) :
    Steps (runUnit engine unit self target) := by
  unfold VM.runUnit
  infer_instance

instance run (unit : Bytecode.CodeUnit) : Steps (run engine unit) := by
  unfold VM.run
  split <;> infer_instance

instance load (binary : Bytes) : Steps (load engine binary) := by
  unfold VM.load
  infer_instance

instance loadInto (binary : Bytes) (target : Handle) : Steps (loadInto engine binary target) := by
  unfold VM.loadInto
  infer_instance

instance funcall (receiver : Value) (name : String) (args : List Value) (block : Value) :
    Steps (funcall engine receiver name args block) := by
  unfold VM.funcall
  infer_instance

/-! ### Fibers -/

instance newFiber (block : Value) : Steps (newFiber block) := by
  have register (context : ContextId) (body : Handle) (signals : Nat) : Steps (do
      let handle ← VM.allocate
        { classHandle := ← Query.coreClass .fiber
          content := .fiber { context, body, state := .created, signals } }
      modify (·.modifyContext context ({ · with owner := some handle }))
      return Value.object handle) := by
    have own (handle : Handle) : Steps (modify (·.modifyContext context
        ({ · with owner := some handle })) : VM PUnit) :=
      of_control (fun _ => rfl) (fun _ => rfl)
    infer_instance
  unfold VM.newFiber
  refine behind fun body => ⟨fun machine wellFormed => ?_⟩
  have stack : machine.Step { machine with
      contexts := machine.contexts.push (some {}), signals := machine.signals.push {} } :=
    .control rfl rfl
  exact .head stack
    ((register ⟨machine.contexts.size⟩ body machine.signals.size).stepped _ wellFormed)

instance enterFiberBody (body : Handle) (args : List Value) : Steps (enterFiberBody body args) := by
  unfold VM.enterFiberBody
  refine behind fun object => ?_
  dsimp only
  split <;> infer_instance

instance completeYield (args : List Value) : Steps (completeYield args) := by
  unfold VM.completeYield
  refine behind fun frame? => ?_
  split <;> infer_instance

instance switchTo (handle : Handle) (context : ContextId) : Steps (switchTo handle context) := by
  have switch : Steps (modify fun machine : Machine =>
      { machine with
        resumers := machine.resumers ++ [(machine.current, machine.currentFiber)]
        current := context
        currentFiber := some handle } : VM PUnit) :=
    of_control (fun _ => rfl) (fun _ => rfl)
  unfold VM.switchTo
  infer_instance

instance switchBack : Steps switchBack := by
  have switch (context : ContextId) (fiber? : Option Handle) :
      Steps (modify fun machine : Machine =>
        { machine with
          resumers := machine.resumers.dropLast, current := context, currentFiber := fiber? } :
        VM PUnit) :=
    of_control (fun _ => rfl) (fun _ => rfl)
  unfold VM.switchBack
  refine behind fun machine => ?_
  split <;> infer_instance

instance fiberOutcome (result : Except Failure Exit) : Steps (fiberOutcome result) := by
  unfold VM.fiberOutcome
  split <;> infer_instance

instance resume (fiber : Value) (args : List Value) : Steps (resume engine fiber args) := by
  have drop (context : ContextId) : Steps (modify (·.removeContext context) : VM PUnit) :=
    of_control (fun _ => rfl) (fun _ => rfl)
  have run (handle : Handle) (record : FiberRecord) : Steps (do
      let machine ← get
      if machine.config.maxCallDepth ≤ machine.resumers.length then VM.raiseStackError
      VM.checkNativeDepth
      VM.switchTo handle record.context
      let result ← VM.attempt do
        if record.state = .created then VM.enterFiberBody record.body args
        else VM.completeYield args
        VM.nested (engine.loop 0)
      VM.switchBack
      let (state, outcome) ← VM.fiberOutcome result
      VM.setFiberState handle state
      if !state.isAlive then modify (·.removeContext record.context)
      VM.completeCycle handle state
      VM.resolve outcome) := by
    dsimp only
    refine behind fun machine => ?_
    split <;> infer_instance
  dsimp only at run
  unfold VM.resume
  refine behind fun handle => behind fun record => ?_
  dsimp only
  split <;> infer_instance

instance yieldFiber (args : List Value) : Steps (yieldFiber args) := by
  have hand (value : Value) : Steps (modify fun machine : Machine =>
      { machine with yielded := some value } : VM PUnit) :=
    of_control (fun _ => rfl) (fun _ => rfl)
  unfold VM.yieldFiber
  dsimp only
  infer_instance

end VM.Steps

end RiteVm
