import RiteVm.Call.Binding
import RiteVm.Call.Enclosing
import RiteVm.Fiber.Resume
import RiteVm.Execution.Program
import RiteVm.Proofs.Evolution.Classes

/-!
Contract: calls, frames, fibers and programs only evolve the machine.

Owns:
- engines whose loops and method bodies evolve the machine;
- one instance for each action that lays out arguments, pushes or leaves frames, binds
  parameters, calls a method, or resumes a fiber.
-/

namespace RiteVm

/-- Every loop and every method body that an engine runs evolves the machine. -/
class Engine.Evolves (engine : Engine) : Prop where
  loop : ∀ stop, VM.Evolves (engine.loop stop)
  native : ∀ method self args, VM.Evolves (engine.native method self args)

attribute [instance] Engine.Evolves.loop Engine.Evolves.native

namespace VM.Evolves

-- long actions consist of many parts
set_option synthInstance.maxSize 3000

variable {α : Type}

/-! ### Call sites -/

instance setSlots (first : Nat) (values : List Value) : Evolves (setSlots first values) := by
  induction values generalizing first with
  | nil => exact ofValue _
  | cons value rest inductionHypothesis =>
      unfold VM.setSlots
      infer_instance

instance normalizeArgs (receiverAt operand : Nat) (withBlock : Bool) :
    Evolves (normalizeArgs receiverAt operand withBlock) := by
  have finish (site : CallSite) (block : Value) : Evolves (do
      if !block.isNil then
        let _ ← VM.expectProc block
      VM.setSlot site.blockAt block
      return site : VM CallSite) := by
    dsimp only
    infer_instance
  dsimp only at finish
  unfold VM.normalizeArgs
  dsimp only
  split <;> refine @seq _ _ _ _ _ fun block => ?_ <;> split
  · infer_instance
  · split <;> infer_instance
  · infer_instance
  · split <;> infer_instance

instance packForMissing (site : CallSite) (name : Symbol) :
    Evolves (packForMissing site name) := by
  unfold VM.packForMissing
  dsimp only
  infer_instance

instance layOutArgs (receiverAt : Nat) (receiver : Value) (args : Args) :
    Evolves (layOutArgs receiverAt receiver args) := by
  unfold VM.layOutArgs
  dsimp only
  infer_instance

/-! ### Frames -/

instance newProc (unit : Bytecode.CodeUnit) (upper env : Option Handle) (targetClass : Handle)
    (strict : Bool) : Evolves (newProc unit upper env targetClass strict) where
  evolvesFrom machine := by
    unfold VM.newProc
    refine .query_bind fun classHandle read => ?_
    obtain rfl : machine.coreClass .proc = classHandle := Except.ok.inj read
    exact .allocate rfl (.core _)

instance pushFrame (frame : Frame) : Evolves (pushFrame frame) :=
  inferInstanceAs (Evolves (VM.modifyContext _))

instance pushProcFrame (site : CallSite) (proc : Handle) (owner : Option Handle)
    (method : Option Symbol) (block : Value) (boundary : Bool) :
    Evolves (pushProcFrame site proc owner method block boundary) := by
  unfold VM.pushProcFrame
  dsimp only
  infer_instance

instance pushNativeFrame (site : CallSite) (owner : Handle) (method : Symbol) (block : Value) :
    Evolves (pushNativeFrame site owner method block) := by
  unfold VM.pushNativeFrame
  dsimp only
  infer_instance

instance popFrame? : Evolves popFrame? := by
  unfold VM.popFrame?
  refine @seq _ _ _ _ _ fun context => ?_
  split <;> infer_instance

instance truncateFrames (height : Nat) : Evolves (truncateFrames height) :=
  inferInstanceAs (Evolves (VM.modifyContext _))

/-! ### Calls by name -/

section Dispatch

variable (engine : Engine) [engine.Evolves]

instance raiseUndefinedCall (receiver : Value) (name : Symbol) :
    Evolves (raiseUndefinedCall receiver name : VM α) := by
  unfold VM.raiseUndefinedCall
  infer_instance

instance takeYielded : Evolves takeYielded := by
  have clear : Evolves (modify fun machine : Machine => { machine with yielded := none } : VM PUnit) :=
    of_outside (fun _ => rfl) (fun _ => rfl) (fun _ => rfl)
  unfold VM.takeYielded
  dsimp only
  infer_instance

instance callNative (site : CallSite) (body : NativeMethod) (owner : Handle) (name : Symbol) :
    Evolves (callNative engine site body owner name) := by
  have finish (value : Value) : Evolves (do
      match ← VM.takeYielded with
      | some yielded => return some (.yielded yielded)
      | none =>
        let _ ← VM.popFrame?
        VM.setSlot site.receiverAt value
        return none : VM (Option Exit)) := by
    refine @seq _ _ _ _ _ fun yielded => ?_
    split <;> infer_instance
  unfold VM.callNative
  infer_instance

instance callMethod (site : CallSite) (found : FoundMethod) (name : Symbol) :
    Evolves (callMethod engine site found name) := by
  unfold VM.callMethod
  split <;> infer_instance

instance dispatch (site : CallSite) (name : Symbol) : Evolves (dispatch engine site name) := by
  unfold VM.dispatch
  refine @seq _ _ _ _ _ fun receiver => @seq _ _ _ _ _ fun handle => ?_
  refine @seq _ _ _ _ _ fun found? => ?_
  split
  · infer_instance
  · refine @seq _ _ _ _ _ fun missing? => ?_
    split <;> infer_instance

instance send (base register : Nat) (name : Symbol) (operand : Nat) (withBlock : Bool) :
    Evolves (send engine base register name operand withBlock) := by
  unfold VM.send
  infer_instance

instance sendSelf (base register : Nat) (name : Symbol) (operand : Nat) (withBlock : Bool) :
    Evolves (sendSelf engine base register name operand withBlock) := by
  unfold VM.sendSelf
  infer_instance

instance callSuper (base register operand : Nat) :
    Evolves (callSuper engine base register operand) := by
  unfold VM.callSuper
  refine @seq _ _ _ _ _ fun frame => ?_
  split
  · refine @seq _ _ _ _ _ fun receiver => @seq _ _ _ _ _ fun handle => ?_
    refine @seq _ _ _ _ _ fun found => ?_
    split <;> infer_instance
  · infer_instance

instance resolveCall (receiver : Value) (name : Symbol) (args : Args) :
    Evolves (resolveCall receiver name args) := by
  unfold VM.resolveCall
  refine @seq _ _ _ _ _ fun handle => @seq _ _ _ _ _ fun found? => ?_
  split
  · infer_instance
  · refine @seq _ _ _ _ _ fun missing? => ?_
    split <;> infer_instance

instance callNativeBody (receiver : Value) (body : NativeMethod) (owner : Handle)
    (name : Symbol) (args : Args) :
    Evolves (callNativeBody engine receiver body owner name args) := by
  unfold VM.callNativeBody
  refine @seq _ _ _ _ _ fun context => ?_
  dsimp only
  refine @seq _ _ _ _ _ fun _ => @seq _ _ _ _ _ fun _ => @seq _ _ _ _ _ fun _ => ?_
  refine @seq _ _ _ _ _ fun height => @seq _ _ _ _ _ fun _ => @seq _ _ _ _ _ fun result => ?_
  refine @seq _ _ _ _ _ fun _ => ?_
  split <;> infer_instance

instance callProcBody (receiver : Value) (proc owner : Handle) (name : Symbol) (args : Args) :
    Evolves (callProcBody engine receiver proc owner name args) := by
  unfold VM.callProcBody
  infer_instance

instance callWithArgs (receiver : Value) (name : Symbol) (args : Args) :
    Evolves (callWithArgs engine receiver name args) := by
  unfold VM.callWithArgs
  refine @seq _ _ _ _ _ fun _ => @seq _ _ _ _ _ fun resolved => ?_
  dsimp only
  split <;> infer_instance

instance callWith (receiver : Value) (name : Symbol) (args : List Value) :
    Evolves (callWith engine receiver name args) :=
  callWithArgs engine _ _ _

instance callProc (proc : Value) (args : List Value) : Evolves (callProc engine proc args) :=
  callWith engine _ _ _

instance textBytes (value : Value) : Evolves (textBytes engine value) := by
  unfold VM.textBytes
  split
  · infer_instance
  · infer_instance
  · refine @seq _ _ _ _ _ fun bytes? => ?_
    split
    · infer_instance
    · refine @seq _ _ _ _ _ fun text => @seq _ _ _ _ _ fun textBytes? => ?_
      split <;> infer_instance
  · infer_instance

end Dispatch

/-! ### Scopes and parameters -/

instance frameEnv : Evolves frameEnv := by
  unfold VM.frameEnv
  refine @seq _ _ _ _ _ fun frame => ?_
  split
  · infer_instance
  · have newEnv (record : EnvRecord) : Evolves (do
        VM.allocate { classHandle := ← Query.coreClass .object, content := .env record }) := by
      refine ⟨fun machine => .query_bind fun classHandle read => ?_⟩
      obtain rfl : machine.coreClass .object = classHandle := Except.ok.inj read
      exact .allocate rfl (.core _)
    refine @seq _ _ _ _ _ fun machine => ?_
    dsimp only
    rw [← bind_assoc]
    infer_instance

instance enclosingEnv (level : Nat) : Evolves (enclosingEnv level) := by
  unfold VM.enclosingEnv
  refine @seq _ _ _ _ _ fun env? => ?_
  split <;> infer_instance

instance outwardArg (base level index : Nat) : Evolves (outwardArg base level index) := by
  unfold VM.outwardArg
  split <;> infer_instance

instance argArray (base register operand : Nat) : Evolves (argArray base register operand) := by
  unfold VM.argArray
  dsimp only
  infer_instance

instance pushBlock (base register operand : Nat) : Evolves (pushBlock base register operand) := by
  unfold VM.pushBlock
  dsimp only
  infer_instance

instance becomeProc : Evolves becomeProc := by
  unfold VM.becomeProc
  refine @seq _ _ _ _ _ fun frame => @seq _ _ _ _ _ fun receiver => ?_
  refine @seq _ _ _ _ _ fun proc => @seq _ _ _ _ _ fun record => ?_
  dsimp only
  split <;> infer_instance

instance newDictionary (keywords? : Option Value) : Evolves (newDictionary keywords?) := by
  unfold VM.newDictionary
  infer_instance

instance takeKeyword (base : Nat) (name : Symbol) : Evolves (takeKeyword base name) := by
  have finish (found : Option Value) : Evolves (match found with
      | some value => Pure.pure value
      | none => do VM.raise .argumentError s!"missing keyword: {← Query.symbolText name}" : VM Value) := by
    split <;> infer_instance
  unfold VM.takeKeyword
  refine @seq _ _ _ _ _ fun digest => @seq _ _ _ _ _ fun dictionary? => ?_
  dsimp only
  split <;> infer_instance

instance checkKeywords (base : Nat) : Evolves (checkKeywords base) := by
  unfold VM.checkKeywords
  refine @seq _ _ _ _ _ fun dictionary? => ?_
  split
  · refine @seq _ _ _ _ _ fun pairs? => ?_
    split <;> infer_instance
  · infer_instance

instance placeArgs (base : Nat) (frame : Frame) (spec : Bytecode.ArgSpec) (bound : BoundArgs)
    (keywords? : Option Value) (block : Value) :
    Evolves (placeArgs base frame spec bound keywords? block) := by
  unfold VM.placeArgs
  dsimp only
  infer_instance

instance enter (base : Nat) (spec : Bytecode.ArgSpec) : Evolves (enter base spec) := by
  unfold VM.enter
  infer_instance

/-! ### Fibers -/

instance packValues (values : List Value) : Evolves (packValues values) := by
  unfold VM.packValues
  split <;> infer_instance

instance newFiber (block : Value) : Evolves (newFiber block) := by
  have register (machine : Machine) (context : ContextId) (body : Handle) (signals : Nat) :
      EvolvesFrom machine (do
        let handle ← VM.allocate
          { classHandle := ← Query.coreClass .fiber
            content := .fiber { context, body, state := .created, signals } }
        modify (·.modifyContext context ({ · with owner := some handle }))
        return Value.object handle) := by
    refine .query_bind fun classHandle read => ?_
    obtain rfl : machine.coreClass .fiber = classHandle := Except.ok.inj read
    refine EvolvesFrom.bind (.allocate rfl (.core _)) fun handle next _ => ?_
    have own : Evolves (modify (·.modifyContext context ({ · with owner := some handle })) :
        VM PUnit) := of_outside (fun _ => rfl) (fun _ => rfl) (fun _ => rfl)
    exact .of_evolves
  unfold VM.newFiber
  refine @seq _ _ _ _ _ fun body => ⟨fun machine => ?_⟩
  refine .bind .of_evolves fun start next got => ?_
  obtain ⟨rfl, rfl⟩ : machine = start ∧ machine = next := by
    cases got
    exact ⟨rfl, rfl⟩
  exact .bind (.of_change rfl (.outside rfl rfl rfl rfl)) fun _ next _ => register next _ _ _

instance setFiberState (handle : Handle) (state : FiberState) :
    Evolves (setFiberState handle state) where
  evolvesFrom machine := by
    unfold VM.setFiberState
    refine .query_bind fun record read => ?_
    obtain ⟨object, found, isFiber⟩ := Option.bind_eq_some_iff.mp (Query.fiberRecord_eq_ok_iff.mp read)
    refine .setContent found ?_ rfl
    rw [Object.fiber?] at isFiber
    rw [Object.class?]
    split at isFiber <;> simp_all

instance enterFiberBody (body : Handle) (args : List Value) :
    Evolves (enterFiberBody body args) := by
  unfold VM.enterFiberBody
  refine @seq _ _ _ _ _ fun object => ?_
  dsimp only
  split <;> infer_instance

instance completeYield (args : List Value) : Evolves (completeYield args) := by
  unfold VM.completeYield
  refine @seq _ _ _ _ _ fun frame? => ?_
  split <;> infer_instance

instance switchTo (handle : Handle) (context : ContextId) : Evolves (switchTo handle context) := by
  have switch : Evolves (modify fun machine : Machine =>
      { machine with
        resumers := machine.resumers ++ [(machine.current, machine.currentFiber)]
        current := context
        currentFiber := some handle } : VM PUnit) :=
    of_outside (fun _ => rfl) (fun _ => rfl) (fun _ => rfl)
  unfold VM.switchTo
  infer_instance

instance switchBack : Evolves switchBack := by
  have switch (context : ContextId) (fiber? : Option Handle) :
      Evolves (modify fun machine : Machine =>
        { machine with
          resumers := machine.resumers.dropLast, current := context, currentFiber := fiber? } :
        VM PUnit) :=
    of_outside (fun _ => rfl) (fun _ => rfl) (fun _ => rfl)
  unfold VM.switchBack
  refine @seq _ _ _ _ _ fun machine => ?_
  split <;> infer_instance

instance fiberOutcome (result : Except Failure Exit) : Evolves (fiberOutcome result) := by
  unfold VM.fiberOutcome
  split <;> infer_instance

instance withSignals (number : Nat) (change : FiberSignals → FiberSignals × α) :
    Evolves (withSignals number change) where
  evolvesFrom _ := .of_change rfl (.outside rfl rfl rfl rfl)

instance completeCycle (fiber : Handle) (state : FiberState) :
    Evolves (completeCycle fiber state) := by
  have wake (wakers : List Waker) : Evolves (modify fun machine : Machine =>
      { machine with woken := machine.woken ++ wakers } : VM PUnit) :=
    of_outside (fun _ => rfl) (fun _ => rfl) (fun _ => rfl)
  unfold VM.completeCycle
  infer_instance

instance resumeWaiter (fiber : Value) : Evolves (resumeWaiter fiber) := by
  unfold VM.resumeWaiter
  infer_instance

instance terminationWaiter (fiber : Value) : Evolves (terminationWaiter fiber) := by
  unfold VM.terminationWaiter
  infer_instance

instance pollResume (waiter : ResumeWaiter) (waker : Waker) : Evolves (pollResume waiter waker) :=
  withSignals _ _

instance pollTermination (waiter : TerminationWaiter) (waker : Waker) :
    Evolves (pollTermination waiter waker) :=
  withSignals _ _

instance resume (engine : Engine) [engine.Evolves] (fiber : Value) (args : List Value) :
    Evolves (resume engine fiber args) := by
  have drop (context : ContextId) :
      Evolves (modify (·.removeContext context) : VM PUnit) :=
    of_outside (fun _ => rfl) (fun _ => rfl) (fun _ => rfl)
  have run (handle : Handle) (record : FiberRecord) : Evolves (do
      let machine ← get
      if machine.config.maxCallDepth ≤ machine.resumers.length then VM.raiseStackError
      VM.checkNativeDepth
      VM.switchTo handle record.context
      let result ← VM.attempt do
        if record.state = .created then VM.enterFiberBody record.body args
        else VM.completeYield args
        VM.nested (engine.loop 0)
      VM.switchBack
      let (state, outcome) ← VM.fiberOutcome result
      VM.setFiberState handle state
      if !state.isAlive then modify (·.removeContext record.context)
      VM.completeCycle handle state
      VM.resolve outcome) := by
    dsimp only
    refine @seq _ _ _ _ _ fun machine => ?_
    split <;> infer_instance
  dsimp only at run
  unfold VM.resume
  refine @seq _ _ _ _ _ fun handle => @seq _ _ _ _ _ fun record => ?_
  dsimp only
  split <;> infer_instance

instance yieldFiber (args : List Value) : Evolves (yieldFiber args) := by
  have hand (value : Value) : Evolves (modify fun machine : Machine =>
      { machine with yielded := some value } : VM PUnit) :=
    of_outside (fun _ => rfl) (fun _ => rfl) (fun _ => rfl)
  unfold VM.yieldFiber
  dsimp only
  infer_instance

/-! ### Programs -/

instance pushProgramFrame (unit : Bytecode.CodeUnit) (self : Value) (target : Handle) :
    Evolves (pushProgramFrame unit self target) := by
  unfold VM.pushProgramFrame
  dsimp only
  infer_instance

instance runUnit (engine : Engine) [engine.Evolves] (unit : Bytecode.CodeUnit) (self : Value)
    (target : Handle) : Evolves (runUnit engine unit self target) := by
  unfold VM.runUnit
  infer_instance

instance readProgram (binary : Bytes) : Evolves (readProgram binary) := by
  unfold VM.readProgram
  split <;> infer_instance

instance run (engine : Engine) [engine.Evolves] (unit : Bytecode.CodeUnit) :
    Evolves (run engine unit) := by
  unfold VM.run
  split <;> infer_instance

instance load (engine : Engine) [engine.Evolves] (binary : Bytes) :
    Evolves (load engine binary) := by
  unfold VM.load
  infer_instance

instance loadInto (engine : Engine) [engine.Evolves] (binary : Bytes) (target : Handle) :
    Evolves (loadInto engine binary target) := by
  unfold VM.loadInto
  infer_instance

instance funcall (engine : Engine) [engine.Evolves] (receiver : Value) (name : String)
    (args : List Value) (block : Value) : Evolves (funcall engine receiver name args block) := by
  unfold VM.funcall
  infer_instance

end VM.Evolves

end RiteVm
