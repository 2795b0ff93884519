import RiteVm.Execution.Program
import RiteVm.Proofs.Fibers.Resuming
import RiteVm.Proofs.Soundness.Fibers

/-!
Contract: calls sustain a sound machine, if what they start does.

Owns:
- engines that sustain sound machines of a level;
- calls by instructions, which start methods on the level of their loop;
- calls by name, programs and fibers, which start everything one level deeper.

A call that waits for a value may raise what it received, so what it does in between has to
leave the exceptions as they are.
-/

namespace RiteVm

/-- Two engines whose methods do the same in the sound machines of a level. -/
class Engine.Answers (limits : Config) (strict : Prop) (level : Nat) (engine engine' : Engine) :
    Prop where
  native : ∀ method self args,
    VM.Sustains limits strict level (engine.native method self args) (engine'.native method self args)

/-- Two engines whose loops and methods do the same in the sound machines of a level. -/
class Engine.Sustained (limits : Config) (strict : Prop) (level : Nat) (engine engine' : Engine) :
    Prop where
  rounds : engine'.rounds = engine.rounds
  loop : ∀ stop, VM.Sustains limits strict level (engine.loop stop) (engine'.loop stop)
  native : ∀ method self args,
    VM.Sustains limits strict level (engine.native method self args) (engine'.native method self args)

attribute [instance] Engine.Answers.native Engine.Sustained.loop Engine.Sustained.native

namespace VM

set_option synthInstance.maxSize 3000

variable {limits : Config} {strict : Prop} {level : Nat} {machine : Machine} {α : Type}

/-! ### Waiting for a value -/

theorem sustainsFrom_throw (sound : machine.SoundAt limits strict level) {failure : Failure}
    (isException : strict → ∀ exception, failure = .raised exception →
      machine.IsException exception) :
    SustainsFrom limits strict level machine (throw failure : VM α) (throw failure) :=
  .of_failed rfl sound isException

theorem sustainsFrom_resolve (sound : machine.SoundAt limits strict level) {result : Except Failure α}
    (isException : strict → ∀ exception, result = .error (.raised exception) →
      machine.IsException exception) :
    SustainsFrom limits strict level machine (resolve result) (resolve result) := by
  cases result with
  | ok value => exact .of_ok rfl sound
  | error failure =>
      exact sustainsFrom_throw sound fun isStrict exception isRaised =>
        isException isStrict exception (congrArg Except.error isRaised)

theorem sustainsFrom_finishCall (sound : machine.SoundAt limits strict level)
    {result : Except Failure Exit}
    (isException : strict → ∀ exception, result = .error (.raised exception) →
      machine.IsException exception) :
    SustainsFrom limits strict level machine (finishCall result) (finishCall result) := by
  unfold finishCall
  split
  · exact .of_edits sound
  · exact .of_edits sound
  · exact .of_edits sound
  · exact sustainsFrom_throw sound fun isStrict exception isRaised =>
      isException isStrict exception (congrArg Except.error isRaised)

/-- A loop that is nested and waited for. -/
theorem sustainsFrom_nestedLoop {loop loop' : VM Exit}
    [Sustains limits strict (level + 1) loop loop'] (sound : machine.SoundAt limits strict level) :
    SustainsFrom limits strict level machine (attempt (nested loop) >>= finishCall)
      (attempt (nested loop') >>= finishCall) :=
  .attempt_bind (.of_sustains sound) fun _ _ sound isException =>
    sustainsFrom_finishCall sound isException

/-! ### Calls by instructions -/

section Instructions

variable {engine engine' : Engine} [engine.Answers limits strict level engine']

namespace Sustains

instance callNative (site : CallSite) (body : NativeMethod) (owner : Handle) (name : Symbol) :
    Sustains limits strict level (callNative engine site body owner name)
      (callNative engine' site body owner name) := by
  have finish (value : Value) : Sustains limits strict level (do
      match ← VM.takeYielded with
      | some yielded => return some (.yielded yielded)
      | none =>
        let _ ← VM.popFrame?
        setSlot site.receiverAt value
        return none : VM (Option Exit)) (do
      match ← VM.takeYielded with
      | some yielded => return some (.yielded yielded)
      | none =>
        let _ ← VM.popFrame?
        setSlot site.receiverAt value
        return none : VM (Option Exit)) := by
    refine behind fun yielded? => ?_
    split <;> infer_instance
  unfold VM.callNative
  refine ⟨fun machine sound => .checkDepth_bind sound fun room => ?_⟩
  refine .query_bind sound fun args _ => .query_bind sound fun receiver _ => ?_
  refine .bind (sustainsFrom_pushNativeFrame sound room site owner name args.block) ?_
  exact fun _ next _ sound => (behind finish).sustainsFrom next sound

instance callMethod (site : CallSite) (found : FoundMethod) (name : Symbol) :
    Sustains limits strict level (callMethod engine site found name)
      (callMethod engine' site found name) := by
  unfold VM.callMethod
  split <;> infer_instance

instance dispatch (site : CallSite) (name : Symbol) :
    Sustains limits strict level (dispatch engine site name) (dispatch engine' site name) := by
  unfold VM.dispatch
  refine behind fun receiver => behind fun handle => behind fun found? => ?_
  split
  · infer_instance
  · refine behind fun missing? => ?_
    split <;> infer_instance

instance send (base register : Nat) (name : Symbol) (operand : Nat) (withBlock : Bool) :
    Sustains limits strict level (send engine base register name operand withBlock)
      (send engine' base register name operand withBlock) := by
  unfold VM.send
  infer_instance

instance sendSelf (base register : Nat) (name : Symbol) (operand : Nat) (withBlock : Bool) :
    Sustains limits strict level (sendSelf engine base register name operand withBlock)
      (sendSelf engine' base register name operand withBlock) := by
  unfold VM.sendSelf
  infer_instance

instance callSuper (base register operand : Nat) :
    Sustains limits strict level (callSuper engine base register operand)
      (callSuper engine' base register operand) := by
  unfold VM.callSuper
  refine behind fun frame => ?_
  split
  · refine behind fun receiver => behind fun handle => behind fun found => ?_
    split <;> infer_instance
  · infer_instance

end Sustains

end Instructions

/-! ### Calls by name and programs -/

section Names

variable {engine engine' : Engine} [engine.Sustained limits strict (level + 1) engine']

namespace Sustains

instance callNativeBody (receiver : Value) (body : NativeMethod) (owner : Handle) (name : Symbol)
    (args : Args) :
    Sustains limits strict level (callNativeBody engine receiver body owner name args)
      (callNativeBody engine' receiver body owner name args) := by
  unfold VM.callNativeBody
  refine ⟨fun machine sound => .query_bind sound fun context _ => ?_⟩
  refine .checkDepth_bind sound fun room => ?_
  refine .edits_bind sound (.of_edits sound.wellFormed) fun _ _ _ sound first => ?_
  refine .edits_bind sound (.of_edits sound.wellFormed) fun _ next _ sound second => ?_
  have edited : machine.Edited next := first.trans second
  refine .query_bind sound fun height _ => ?_
  refine .bind (sustainsFrom_pushNativeFrame sound (edited.sameRun.hasFrameRoom room) _ owner name
    args.block) fun _ _ _ sound => ?_
  refine .attempt_bind (.of_sustains sound) fun result last sound isException => ?_
  refine .bind (.of_sustains sound) fun _ truncated isTruncated sound => ?_
  -- the objects are those that were there when the method ended
  cases isTruncated
  split
  · exact .of_edits sound
  · split
    · exact .of_edits sound
    · exact sustainsFrom_finishCall sound fun _ _ => nofun
  · exact sustainsFrom_throw sound fun isStrict exception isRaised =>
      isException isStrict exception (congrArg Except.error isRaised)

instance callProcBody (receiver : Value) (proc owner : Handle) (name : Symbol) (args : Args) :
    Sustains limits strict level (callProcBody engine receiver proc owner name args)
      (callProcBody engine' receiver proc owner name args) := by
  unfold VM.callProcBody
  refine behind fun context => behind fun site => behind fun height => behind fun _ => ?_
  exact ⟨fun _ sound => sustainsFrom_nestedLoop sound⟩

instance callWithArgs (receiver : Value) (name : Symbol) (args : Args) :
    Sustains limits strict level (callWithArgs engine receiver name args)
      (callWithArgs engine' receiver name args) := by
  unfold VM.callWithArgs
  refine behind fun _ => behind fun (found, name, args) => ?_
  dsimp only
  split <;> infer_instance

instance callWith (receiver : Value) (name : Symbol) (args : List Value) :
    Sustains limits strict level (callWith engine receiver name args)
      (callWith engine' receiver name args) :=
  callWithArgs _ _ _

instance callProc (proc : Value) (args : List Value) :
    Sustains limits strict level (callProc engine proc args) (callProc engine' proc args) :=
  callWith _ _ _

instance textBytes (value : Value) :
    Sustains limits strict level (textBytes engine value) (textBytes engine' value) := by
  unfold VM.textBytes
  split
  · infer_instance
  · infer_instance
  · refine behind fun bytes? => ?_
    split
    · infer_instance
    · refine behind fun text => behind fun bytes? => ?_
      split <;> infer_instance
  · infer_instance

instance appendText (target value : Value) :
    Sustains limits strict level (appendText engine target value)
      (appendText engine' target value) := by
  unfold VM.appendText
  refine behind fun tail => behind fun _ => ?_
  split
  · exact @ofEdits _ _ _ _ _ (Edits.appendBytes _ tail)
  · infer_instance

instance runUnit (unit : Bytecode.CodeUnit) (self : Value) (target : Handle) :
    Sustains limits strict level (runUnit engine unit self target)
      (runUnit engine' unit self target) := by
  unfold VM.runUnit
  refine behind fun height => behind fun _ => ?_
  exact ⟨fun _ sound => sustainsFrom_nestedLoop sound⟩

instance run (unit : Bytecode.CodeUnit) :
    Sustains limits strict level (run engine unit) (run engine' unit) := by
  unfold VM.run
  split <;> infer_instance

instance load (binary : Bytes) :
    Sustains limits strict level (load engine binary) (load engine' binary) := by
  unfold VM.load
  infer_instance

instance loadInto (binary : Bytes) (target : Handle) :
    Sustains limits strict level (loadInto engine binary target) (loadInto engine' binary target) := by
  unfold VM.loadInto
  infer_instance

instance funcall (receiver : Value) (name : String) (args : List Value) (block : Value) :
    Sustains limits strict level (funcall engine receiver name args block)
      (funcall engine' receiver name args block) := by
  unfold VM.funcall
  infer_instance

end Sustains

/-! ### Resuming a fiber -/

instance Fails.ofStackError : Fails (raiseStackError : VM α) :=
  inferInstanceAs (Fails (raise _ _))

/-- What is raised behind a cycle was raised in it, or says that its exit leads nowhere. -/
theorem sustainsFrom_fiberOutcome {rest : FiberState × Except Failure Value → VM α}
    {result : Except Failure Exit} (sound : machine.SoundAt limits strict level)
    (isException : strict → ∀ exception, result = .error (.raised exception) →
      machine.IsException exception)
    (second : ∀ state outcome next, next.SoundAt limits strict level →
      (strict → ∀ exception, outcome = .error (.raised exception) → next.IsException exception) →
      SustainsFrom limits strict level next (rest (state, outcome)) (rest (state, outcome))) :
    SustainsFrom limits strict level machine (fiberOutcome result >>= rest)
      (fiberOutcome result >>= rest) := by
  unfold fiberOutcome
  split
  · exact second _ _ machine sound fun _ _ isRaised => by cases isRaised
  · exact second _ _ machine sound fun _ _ isRaised => by cases isRaised
  · rw [bind_assoc]
    refine .bind (.of_edits sound) fun exception next created sound' => ?_
    refine second _ _ next sound' fun _ _ isRaised => ?_
    cases isRaised
    exact isException_exceptionHere sound.wellFormed created
  · refine second _ _ machine sound fun isStrict exception isRaised => ?_
    refine isException isStrict exception ?_
    cases isRaised
    rfl

/-- The end of a cycle hands on how it ended. -/
theorem sustainsFrom_settle (sound : machine.SoundAt limits strict level) (handle : Handle)
    (id : ContextId) (state : FiberState) {outcome : Except Failure Value}
    (isException : strict → ∀ exception, outcome = .error (.raised exception) →
      machine.IsException exception) :
    SustainsFrom limits strict level machine
      (do
        setFiberState handle state
        if !state.isAlive then modify (·.removeContext id)
        completeCycle handle state
        resolve outcome)
      (do
        setFiberState handle state
        if !state.isAlive then modify (·.removeContext id)
        completeCycle handle state
        resolve outcome) := by
  have complete {next : Machine} (sound' : next.SoundAt limits strict level)
      (keeps : machine.KeepsRoles next) : SustainsFrom limits strict level next (do
        completeCycle handle state
        resolve outcome) (do
        completeCycle handle state
        resolve outcome) := by
    refine .edits_bind sound' (.of_edits sound'.wellFormed) fun _ last _ sound'' edited => ?_
    refine sustainsFrom_resolve sound'' fun isStrict exception isRaised => ?_
    exact (edited.keepsRoles sound'.wellFormed).2 _ _
      (keeps _ _ (isException isStrict exception isRaised))
  refine .edits_bind sound (.of_edits sound.wellFormed) fun _ next _ sound' edited => ?_
  have keeps := (edited.keepsRoles sound.wellFormed).2
  cases state.isAlive with
  | true => exact complete sound' keeps
  | false =>
      refine .bind (.of_ok rfl (sound'.removeContext id)) fun _ last removed sound'' => ?_
      cases removed
      exact complete sound'' keeps

/-- What is raised in a cycle is raised behind it. -/
theorem sustainsFrom_leaveFiber (sound : machine.SoundAt limits strict level) (handle : Handle)
    (id : ContextId) {result : Except Failure Exit}
    (isException : strict → ∀ exception, result = .error (.raised exception) →
      machine.IsException exception) :
    SustainsFrom limits strict level machine (leaveFiber handle id result)
      (leaveFiber handle id result) := by
  unfold leaveFiber
  refine switchBack_bind sound fun next sound' keeps => ?_
  refine sustainsFrom_fiberOutcome sound' (fun isStrict exception isRaised =>
    keeps _ _ (isException isStrict exception isRaised)) ?_
  exact fun state outcome last sound'' isException' =>
    sustainsFrom_settle sound'' handle id state isException'

namespace Sustains

instance startFiber (record : FiberRecord) (args : List Value) :
    Sustains limits strict level (startFiber record args) (startFiber record args) := by
  unfold VM.startFiber
  infer_instance

instance resumeFiber (handle : Handle) (record : FiberRecord) (args : List Value) :
    Sustains limits strict level (resumeFiber engine handle record args)
      (resumeFiber engine' handle record args) := by
  have runs : Sustains limits strict level (runFiber engine record args)
      (runFiber engine' record args) := by
    unfold VM.runFiber
    infer_instance
  unfold VM.resumeFiber
  refine behind fun _ => ⟨fun machine sound => .attempt_bind (runs.sustainsFrom machine sound) ?_⟩
  exact fun result next sound isException => sustainsFrom_leaveFiber sound handle _ isException

instance resume (fiber : Value) (args : List Value) :
    Sustains limits strict level (resume engine fiber args) (resume engine' fiber args) := by
  have goOn (handle : Handle) (record : FiberRecord) : Sustains limits strict level (do
      let machine ← get
      if machine.config.maxCallDepth ≤ machine.resumers.length then raiseStackError
      checkNativeDepth
      VM.resumeFiber engine handle record args : VM Value) (do
      let machine ← get
      if machine.config.maxCallDepth ≤ machine.resumers.length then raiseStackError
      checkNativeDepth
      VM.resumeFiber engine' handle record args : VM Value) := by
    refine behind fun machine => ?_
    split
    · exact of_fails
    · infer_instance
  unfold VM.resume
  refine behind fun handle => behind fun record => ?_
  obtain ⟨context, body, state, signals⟩ := record
  cases state with
  | created => exact goOn handle ⟨context, body, .created, signals⟩
  | suspended => exact goOn handle ⟨context, body, .suspended, signals⟩
  | _ =>
      dsimp only
      exact of_fails

end Sustains

end Names

end VM

end RiteVm
