import RiteVm.Call.Dispatch
import RiteVm.Execution.Program
import RiteVm.Proofs.Fibers.Lifetimes
import RiteVm.Proofs.Fibers.Resuming
import RiteVm.Proofs.Unwinding.TopFrame

/-!
Contract: calls by instructions go on in the running loop, calls by anything else leave the
frames as they were.

Owns:
- leaving a frame as part of an instruction;
- calls of methods that are no bytecode, whose frame stays where a fiber hands a value over;
- one instance for each way to call a method by name, to run a program, and for what a host
  asks of fibers.
-/

namespace RiteVm

/-- Leaving the innermost frame leaves those from an index on downward. -/
theorem Descends.dropLast {frames : List Frame} {stop : Nat} (inside : stop < frames.length) :
    Descends stop frames frames.dropLast where
  below := by
    rw [List.dropLast_eq_take, List.take_take, Nat.min_eq_left (by omega)]
  boundary isLower := by
    rw [List.length_dropLast] at isLower
    rw [List.getElem?_dropLast, if_pos isLower]

namespace VM

set_option synthInstance.maxSize 3000

variable {tidy firm : Prop} {machine : Machine} {stop : Nat} {α β : Type}

/-- Two parts that leave the frames below those of a loop alone. -/
theorem TracksFrom.andThen {action action' : VM α} {rest rest' : α → VM β}
    {endsFirst : EStateM.Result Failure Machine α → Prop}
    {ends : EStateM.Result Failure Machine β → Prop}
    (start : TracksFrom tidy (Descends stop) endsFirst machine action action')
    (go : ∀ value next, action machine = .ok value next → Leads tidy (Descends stop) machine next →
      TracksFrom tidy (Descends stop) ends next (rest value) (rest' value))
    (endsAlone : ∀ failure next, endsFirst (.error failure next) → ends (.error failure next)) :
    TracksFrom tidy (Descends stop) ends machine (action >>= rest) (action' >>= rest') :=
  TracksFrom.bind (fun _ => ends) start go id .trans endsAlone fun _ _ _ _ _ _ ends => ends

theorem tracksFrom_popFrame? (linked : machine.Linked tidy) (inside : stop < machine.frames.length) :
    TracksFrom tidy (Descends stop) (fun _ => True) machine popFrame? popFrame? := by
  obtain ⟨keeps, frames, -⟩ := popsFrom linked
  exact ⟨rfl, fun _ => ⟨keeps.linked linked, .of_keepsOthers linked keeps,
    frames ▸ .dropLast inside⟩, trivial⟩

theorem frames_of_popFrame? (linked : machine.Linked tidy) {frame? : Option Frame} {next : Machine}
    (popped : popFrame? machine = .ok frame? next) :
    next.frames = machine.frames.dropLast ∧ frame? = machine.frames.getLast? := by
  obtain ⟨-, frames, isLast⟩ := popsFrom linked
  rw [after_of_ok popped] at frames
  exact ⟨frames, isLast frame? next popped⟩

theorem depth_of_linked (linked : machine.Linked tidy) :
    Query.depth machine = .ok machine.frames.length := by
  obtain ⟨context, running⟩ := Option.isSome_iff_exists.mp linked.live_current
  have read : Query.context machine = .ok context := by rw [Query.context, running]
  rw [Query.depth, Query.bind_of_ok read, Machine.frames_of_context? running, Array.length_toList]
  rfl

instance Quiet.takeYielded : Quiet takeYielded := by
  have clear : Quiet (modify fun machine : Machine => { machine with yielded := none } : VM PUnit) :=
    .of_modify fun _ => ⟨rfl, rfl, rfl, rfl, rfl, rfl, rfl, rfl, .refl⟩
  unfold VM.takeYielded
  dsimp only
  infer_instance

instance Fails.ofThrow (failure : Failure) : Fails (throw failure : VM α) where
  ne_ok _ _ _ returned := EStateM.Result.noConfusion rfl rfl rfl (heq_of_eq returned)

instance Fails.ofFatal (cause : FatalCause) : Fails (fatal cause : VM α) :=
  inferInstanceAs (Fails (throw _ : VM α))

instance Fails.ofBreach (cause : Breach) : Fails (breach cause : VM α) :=
  inferInstanceAs (Fails (throw _ : VM α))

instance Fails.seq {action : VM α} {rest : α → VM β} [fails : ∀ value, Fails (rest value)] :
    Fails (action >>= rest) where
  ne_ok machine value next returned := by
    obtain ⟨between, last, -, returned⟩ := bind_eq_ok_iff.mp returned
    exact (fails between).ne_ok last value next returned

instance Quiet.raiseUndefinedCall (receiver : Value) (name : Symbol) :
    Quiet (raiseUndefinedCall receiver name : VM α) := by
  unfold VM.raiseUndefinedCall
  infer_instance

instance Fails.raiseNoMethod (message : String) (receiver : Value) (name : Symbol) :
    Fails (raiseNoMethod message receiver name : VM α) := by
  unfold VM.raiseNoMethod
  infer_instance

instance Fails.raiseUndefinedCall (receiver : Value) (name : Symbol) :
    Fails (raiseUndefinedCall receiver name : VM α) := by
  unfold VM.raiseUndefinedCall
  infer_instance

/-! ### Calls by instructions -/

/-- Leaves a method that is no bytecode, unless it handed a value over. -/
def leaveNative (receiverAt : Nat) (value : Value) : VM (Option Exit) := do
  match ← takeYielded with
  | some yielded => return some (.yielded yielded)
  | none =>
    let _ ← popFrame?
    setSlot receiverAt value
    return none

theorem tracksFrom_leaveNative {frame : Frame} {before : List Frame} (linked : machine.Linked tidy)
    (isFrames : before ++ [frame] <+: machine.frames)
    (isNative : tidy → machine.frames = before ++ [frame] ∧ frame.unit = none)
    (inside : stop < before.length) (runs : machine.RunsFrom stop) (receiverAt : Nat) (value : Value) :
    TracksFrom tidy (Descends stop) (EndsStep tidy stop) machine (leaveNative receiverAt value)
      (leaveNative receiverAt value) := by
  have deep : stop + 1 < machine.frames.length := by
    have := isFrames.length_le
    rw [List.length_append, List.length_singleton] at this
    omega
  have taking : InPlaceFrom machine takeYielded := .of_inPlace linked.wellFormed
  unfold leaveNative
  refine Executes.bindFrom runs (.of_inPlaceFrom linked taking) fun yielded? next taken linked runs => ?_
  have same : next.frames = machine.frames := by
    rw [← taking.frames, after_of_ok taken]
  cases yielded? with
  | some yielded =>
      have stays : InPlaceFrom next (pure (some (Exit.yielded yielded))) :=
        .of_inPlace linked.wellFormed
      refine .of_advancing runs (.of_inPlaceFrom linked stays) ⟨same ▸ deep, fun isTidy => ?_⟩
      obtain ⟨isFrames, noUnit⟩ := isNative isTidy
      exact ⟨frame, by rw [same, isFrames, List.getLast?_concat], noUnit⟩
  | none =>
      refine (tracksFrom_popFrame? linked runs.lt).andThen (fun frame? last popped leads => ?_)
        fun _ _ _ => trivial
      have goesOn : Executes tidy stop (do
          setSlot receiverAt value
          return none : VM (Option Exit)) (do
          setSlot receiverAt value
          return none : VM (Option Exit)) := inferInstance
      refine goesOn.executesFrom last leads.linked (runs.descends leads.frames ?_)
      rw [(frames_of_popFrame? linked popped).1, same, List.length_dropLast]
      omega

section Instructions

variable {engine engine' : Engine} [agrees : engine.Agrees tidy engine']

instance Executes.callNative (site : CallSite) (body : NativeMethod) (owner : Handle)
    (name : Symbol) :
    Executes tidy stop (callNative engine site body owner name)
      (callNative engine' site body owner name) := by
  have called (args : Args) (receiver : Value) : Executes tidy stop (do
      pushNativeFrame site owner name args.block
      let value ← engine.native body receiver args
      leaveNative site.receiverAt value) (do
      pushNativeFrame site owner name args.block
      let value ← engine'.native body receiver args
      leaveNative site.receiverAt value) := by
    refine ⟨fun machine linked runs => ?_⟩
    have push : Advancing tidy (pushNativeFrame site owner name args.block) _ :=
      Pushes.advancing fun frame => frame.unit = none
    obtain ⟨-, -, pushed⟩ :=
      (Pushes.nativeFrame site owner name args.block).pushesFrom tidy machine linked
    refine bindFrom runs (push.advancingFrom machine linked) fun _ next start linked' runs' => ?_
    rw [start] at pushed
    obtain ⟨frame, noUnit, isFrames⟩ := pushed
    obtain balanced := (agrees.native body receiver args).balancedFrom next linked'
    refine bindFrom runs' balanced.advancing fun value last ran linked'' runs'' => ?_
    obtain ⟨-, leads, ends⟩ := balanced
    rw [ran, after_of_ok ran] at leads
    rw [ran] at ends
    refine tracksFrom_leaveNative linked'' (isFrames ▸ (leads trivial).frames)
      (fun isTidy => ⟨(ends isTidy).trans isFrames, noUnit⟩) runs.lt runs'' site.receiverAt value
  unfold leaveNative at called
  unfold VM.callNative
  infer_instance

instance Executes.callMethod (site : CallSite) (found : FoundMethod) (name : Symbol) :
    Executes tidy stop (callMethod engine site found name) (callMethod engine' site found name) := by
  unfold VM.callMethod
  split <;> infer_instance

instance Executes.dispatch (site : CallSite) (name : Symbol) :
    Executes tidy stop (dispatch engine site name) (dispatch engine' site name) := by
  unfold VM.dispatch
  refine behind fun receiver => behind fun handle => behind fun found? => ?_
  split
  · infer_instance
  · refine behind fun missing? => ?_
    split <;> infer_instance

instance Executes.send (base register : Nat) (name : Symbol) (operand : Nat) (withBlock : Bool) :
    Executes tidy stop (send engine base register name operand withBlock)
      (send engine' base register name operand withBlock) := by
  unfold VM.send
  infer_instance

instance Executes.sendSelf (base register : Nat) (name : Symbol) (operand : Nat)
    (withBlock : Bool) :
    Executes tidy stop (sendSelf engine base register name operand withBlock)
      (sendSelf engine' base register name operand withBlock) := by
  unfold VM.sendSelf
  infer_instance

instance Executes.callSuper (base register operand : Nat) :
    Executes tidy stop (callSuper engine base register operand)
      (callSuper engine' base register operand) := by
  unfold VM.callSuper
  refine behind fun frame => ?_
  split
  · refine behind fun receiver => behind fun handle => behind fun found => ?_
    split <;> infer_instance
  · infer_instance

end Instructions

/-! ### Calls by name -/

section Names

variable {engine engine' : Engine} [agrees : engine.Agrees tidy engine']

instance Quiet.resolveCall (receiver : Value) (name : Symbol) (args : Args) :
    Quiet (resolveCall receiver name args) := by
  unfold VM.resolveCall
  refine @Quiet.seq _ _ _ _ _ fun handle => @Quiet.seq _ _ _ _ _ fun found? => ?_
  split
  · infer_instance
  · refine @Quiet.seq _ _ _ _ _ fun missing? => ?_
    split <;> infer_instance

theorem frames_truncateFrames (linked : machine.Linked tidy) (height : Nat) :
    ((truncateFrames height).after machine).frames = machine.frames.take height := by
  obtain ⟨context, running⟩ := Option.isSome_iff_exists.mp linked.live_current
  have isAfter : ((truncateFrames height).after machine).frames =
      (context.frames.take height).toList := Machine.frames_modifyContext running
  rw [isAfter, Machine.frames_of_context? running, Array.take_eq_extract, Array.toList_extract,
    List.extract_eq_take_drop, List.drop_zero, Nat.sub_zero]

/-- What a method that is no bytecode left behind is dropped. -/
theorem balancedFrom_nativeBody (linked : machine.Linked tidy) (site : CallSite)
    (receiver : Value) (body : NativeMethod) (owner : Handle) (name : Symbol) (args : Args)
    {finish : Except Failure Value → VM Value} (quiet : ∀ result, Quiet (finish result))
    (handsOn : ∀ breach next, ¬ IsIntact (finish (.error (.breach breach)) next)) :
    BalancedFrom tidy firm machine
      (do
        pushNativeFrame site owner name args.block
        let result ← attempt (nested (engine.native body receiver args))
        truncateFrames machine.frames.length
        finish result)
      (do
        pushNativeFrame site owner name args.block
        let result ← attempt (nested (engine'.native body receiver args))
        truncateFrames machine.frames.length
        finish result) := by
  have pushes := (Pushes.nativeFrame site owner name args.block).pushesFrom tidy machine linked
  refine .push_bind pushes fun next frame _ linked _ isPushed => ?_
  have runs : Balanced tidy tidy (nested (engine.native body receiver args))
      (nested (engine'.native body receiver args)) := inferInstance
  refine TracksFrom.attempt_bind (runs.balancedFrom next linked) (fun breach last => ?_)
    (fun _ => .of_not_isIntact) (fun _ grows => grows) fun result last _ leads _ => ?_
  · have isFinish : (truncateFrames machine.frames.length >>= fun _ =>
        finish (.error (.breach breach))) last = finish (.error (.breach breach)) _ := bind_of_ok rfl
    rw [isFinish]
    exact handsOn breach _
  · have keeps : last.KeepsOthers ((truncateFrames machine.frames.length).after last) :=
      Machine.keepsOthers_modifyContext leads.linked.wellFormed _
    have finishes : InPlaceFrom _ (finish result) := .of_inPlace keeps.wellFormed
    have isAfter : (truncateFrames machine.frames.length >>= fun _ => finish result).after last =
        (finish result).after ((truncateFrames machine.frames.length).after last) :=
      after_bind_of_ok rfl
    refine .of_keepsOthers leads.linked (isAfter ▸ keeps.trans finishes.keeps) ?_
    rw [isAfter, finishes.frames, frames_truncateFrames leads.linked]
    obtain ⟨more, isMore⟩ := leads.frames
    rw [← isMore, isPushed, List.append_assoc, List.take_left]

instance Balanced.callNativeBody (receiver : Value) (body : NativeMethod) (owner : Handle)
    (name : Symbol) (args : Args) :
    Balanced tidy firm (callNativeBody engine receiver body owner name args)
      (callNativeBody engine' receiver body owner name args) := by
  unfold VM.callNativeBody
  refine behind fun context => behind fun _ => behind fun _ => behind fun _ => ?_
  refine ⟨fun machine linked => .query_bind linked fun height read => ?_⟩
  obtain rfl : machine.frames.length = height :=
    Except.ok.inj ((depth_of_linked linked).symm.trans read)
  refine balancedFrom_nativeBody linked _ receiver body owner name args (fun result => ?_)
    fun _ _ => Bool.noConfusion
  split <;> infer_instance

/-- A proc is called with room for its loop, which was there before its frame was pushed. -/
theorem balancedFrom_callProcBody (linked : machine.Linked tidy) (room : HasRoom machine)
    (receiver : Value) (proc owner : Handle) (name : Symbol) (args : Args) :
    BalancedFrom tidy firm machine (callProcBody engine receiver proc owner name args)
      (callProcBody engine' receiver proc owner name args) := by
  unfold callProcBody
  refine .query_bind linked fun context _ => ?_
  have layOut : InPlaceFrom machine (layOutArgs context.stackTop receiver args) :=
    .of_inPlace linked.wellFormed
  refine .bind (.of_inPlaceFrom linked layOut) fun site next laidOut linked => ?_
  refine .query_bind linked fun height read => ?_
  have pushes := (Pushes.procFrame site proc (some owner) (some name) args.block true).pushesFrom
    tidy next linked
  refine .callFrame (Except.ok.inj ((depth_of_linked linked).symm.trans read)) pushes
    fun last pushed => ?_
  have keeps := layOut.keeps
  have beside := pushes.beside
  rw [after_of_ok laidOut] at keeps
  rw [after_of_ok pushed] at beside
  rw [HasRoom, beside.nativeDepth, beside.config, keeps.nativeDepth, keeps.config]
  exact room

instance Balanced.callWithArgs (receiver : Value) (name : Symbol) (args : Args) :
    Balanced tidy firm (callWithArgs engine receiver name args)
      (callWithArgs engine' receiver name args) where
  balancedFrom machine linked := by
    unfold VM.callWithArgs
    have checks : InPlaceFrom machine checkNativeDepth := .of_inPlace linked.wellFormed
    refine .bind (.of_inPlaceFrom linked checks) fun _ next checked linked => ?_
    have room := room_of_checkNativeDepth checked
    cases (checkNativeDepth_of_room room).symm.trans checked
    have resolves : InPlaceFrom machine (resolveCall receiver name args) :=
      .of_inPlace linked.wellFormed
    refine .bind (.of_inPlaceFrom linked resolves) fun resolved last isResolved linked => ?_
    have keeps := resolves.keeps
    rw [after_of_ok isResolved] at keeps
    obtain ⟨found, name, args⟩ := resolved
    dsimp only
    cases found.method with
    | native body =>
        have called : Balanced tidy firm
            (VM.callNativeBody engine receiver body found.owner name args)
            (VM.callNativeBody engine' receiver body found.owner name args) := inferInstance
        exact called.balancedFrom last linked
    | proc body =>
        refine balancedFrom_callProcBody linked ?_ receiver body found.owner name args
        rw [HasRoom, keeps.nativeDepth, keeps.config]
        exact room
    | undefined =>
        exact .of_inPlaceFrom linked (.of_inPlace linked.wellFormed)

instance Balanced.callWith (receiver : Value) (name : Symbol) (args : List Value) :
    Balanced tidy firm (callWith engine receiver name args) (callWith engine' receiver name args) :=
  callWithArgs _ _ _

instance Balanced.callProc (proc : Value) (args : List Value) :
    Balanced tidy firm (callProc engine proc args) (callProc engine' proc args) :=
  callWith _ _ _

instance Balanced.textBytes (value : Value) :
    Balanced tidy firm (textBytes engine value) (textBytes engine' value) := by
  unfold VM.textBytes
  split
  · infer_instance
  · infer_instance
  · refine behind fun bytes? => ?_
    split
    · infer_instance
    · refine behind fun text => behind fun textBytes? => ?_
      split <;> infer_instance
  · infer_instance

/-! ### What a host asks to run -/

instance Balanced.runUnit (unit : Bytecode.CodeUnit) (self : Value) (target : Handle) :
    Balanced tidy firm (runUnit engine unit self target) (runUnit engine' unit self target) where
  balancedFrom machine linked := by
    unfold VM.runUnit
    refine .query_bind linked fun height read => ?_
    have pushes := (Pushes.programFrame unit self target).pushesFrom tidy machine linked
    refine .callFrame (Except.ok.inj ((depth_of_linked linked).symm.trans read)) pushes
      fun last pushed => ?_
    unfold pushProgramFrame at pushed
    obtain ⟨proc, _, -, pushed⟩ := bind_eq_ok_iff.mp pushed
    obtain ⟨context, _, -, pushed⟩ := bind_eq_ok_iff.mp pushed
    obtain ⟨_, _, -, pushed⟩ := bind_eq_ok_iff.mp pushed
    obtain ⟨_, next, checked, pushed⟩ := bind_eq_ok_iff.mp pushed
    have room := room_of_checkNativeDepth checked
    cases (checkNativeDepth_of_room room).symm.trans checked
    cases pushed
    exact room

instance Quiet.readProgram (binary : Bytes) : Quiet (readProgram binary) := by
  unfold VM.readProgram
  split <;> infer_instance

instance Balanced.run (unit : Bytecode.CodeUnit) :
    Balanced tidy firm (run engine unit) (run engine' unit) := by
  unfold VM.run
  split <;> infer_instance

instance Balanced.load (binary : Bytes) :
    Balanced tidy firm (load engine binary) (load engine' binary) := by
  unfold VM.load
  infer_instance

instance Balanced.loadInto (binary : Bytes) (target : Handle) :
    Balanced tidy firm (loadInto engine binary target) (loadInto engine' binary target) := by
  unfold VM.loadInto
  infer_instance

instance Balanced.funcall (receiver : Value) (name : String) (args : List Value) (block : Value) :
    Balanced tidy firm (funcall engine receiver name args block)
      (funcall engine' receiver name args block) := by
  unfold VM.funcall
  infer_instance

end Names

/-! ### Fibers -/

instance Quiet.yieldFiber (args : List Value) : Quiet (yieldFiber args) := by
  have hand (value : Value) : Quiet (modify fun machine : Machine =>
      { machine with yielded := some value } : VM PUnit) :=
    .of_modify fun _ => ⟨rfl, rfl, rfl, rfl, rfl, rfl, rfl, rfl, .refl⟩
  unfold VM.yieldFiber
  dsimp only
  infer_instance

instance Quiet.resumeWaiter (fiber : Value) : Quiet (resumeWaiter fiber) := by
  unfold VM.resumeWaiter
  infer_instance

instance Quiet.terminationWaiter (fiber : Value) : Quiet (terminationWaiter fiber) := by
  unfold VM.terminationWaiter
  infer_instance

instance InPlace.pollResume (waiter : ResumeWaiter) (waker : Waker) :
    InPlace (pollResume waiter waker) :=
  .of_withSignals (fun _ => (rfl : _ = FiberSignals.told _ (.pollResume waiter.after waker))) rfl

instance InPlace.pollTermination (waiter : TerminationWaiter) (waker : Waker) :
    InPlace (pollTermination waiter waker) :=
  .of_withSignals (fun _ => (rfl : _ = FiberSignals.told _ (.pollTermination waker))) rfl

end VM

end RiteVm
