import RiteVm.Execution.Program
import RiteVm.Execution.Unwinding
import RiteVm.Proofs.Edits.Instructions
import RiteVm.Proofs.Soundness.Actions

/-!
Contract: frames that come and go sustain a sound machine.

Owns:
- room for another frame, which a passed check gives and edits keep;
- pushing a frame and leaving one;
- handlers and what they find pending, for exceptions and for exits;
- the instructions that return, break, jump out of regions and go on behind them.

An exception is only dispatched if its handle leads to one, as far as that is asked for.
-/

namespace RiteVm

namespace Machine

/-- The current register stack can hold another frame. -/
def HasFrameRoom (machine : Machine) : Prop :=
  ∀ count, machine.frameCount? machine.current = some count → count < machine.config.maxCallDepth

theorem SameRun.hasFrameRoom {before after : Machine} (same : before.SameRun after)
    (room : before.HasFrameRoom) : after.HasFrameRoom := by
  intro count isCount
  rw [same.current, same.frameCount?] at isCount
  rw [same.config]
  exact room count isCount

end Machine

namespace VM

set_option synthInstance.maxSize 3000

variable {limits : Config} {strict : Prop} {level : Nat} {machine : Machine} {α : Type}

theorem hasFrameRoom_of_checkDepth {next : Machine} (checked : checkDepth machine = .ok () next) :
    next = machine ∧ machine.HasFrameRoom := by
  rw [checkDepth, get_bind] at checked
  obtain ⟨height, last, read, checked⟩ := bind_eq_ok_iff.mp checked
  obtain ⟨isHeight, rfl⟩ := liftM_eq_ok_iff.mp read
  split at checked
  · exact absurd checked raise_ne_ok
  · obtain ⟨-, rfl⟩ := pure_eq_ok_iff.mp checked
    refine ⟨rfl, fun count isCount => ?_⟩
    obtain ⟨context, isContext, isSize⟩ := Query.bind_eq_ok_iff.mp isHeight
    obtain ⟨other, running, rfl⟩ := Option.map_eq_some_iff.mp isCount
    rw [Query.context, running] at isContext
    cases isContext
    cases isSize
    exact Nat.lt_of_not_le ‹_›

namespace SustainsFrom

variable {action : VM α}

/-- Behind a passed check there is room for a frame. -/
theorem checkDepth_bind {rest rest' : Unit → VM α} (sound : machine.SoundAt limits strict level)
    (second : machine.HasFrameRoom →
      SustainsFrom limits strict level machine (rest ()) (rest' ())) :
    SustainsFrom limits strict level machine (checkDepth >>= rest) (checkDepth >>= rest') := by
  refine (of_edits sound).bind fun _ next checked _ => ?_
  obtain ⟨rfl, room⟩ := hasFrameRoom_of_checkDepth checked
  exact second room

end SustainsFrom

/-! ### Pushing a frame -/

theorem sustainsFrom_pushFrame {frame : Frame} (sound : machine.SoundAt limits strict level)
    (room : machine.HasFrameRoom)
    (live : ∀ handle, frame.Holds handle → (machine.role? handle).isSome) :
    SustainsFrom limits strict level machine (pushFrame frame) (pushFrame frame) := by
  refine .of_ok rfl (sound.modifyContext (fun _ => rfl) fun context running isSound =>
    isSound.push ?_ live)
  rw [← sound.config]
  exact room _ (congrArg (Option.map _) running)

theorem isSome_role?_of_procRecord {proc : Handle} {record : ProcRecord}
    (read : Query.procRecord proc machine = .ok record) : (machine.role? proc).isSome := by
  obtain ⟨object, isObject, -⟩ := Query.bind_eq_ok_iff.mp read
  rw [Machine.role?, Heap.role?, Query.object_eq_ok_iff.mp isObject]
  rfl

instance Sustains.pushProcFrame (site : CallSite) (proc : Handle) (owner : Option Handle)
    (method : Option Symbol) (block : Value) (boundary : Bool) :
    Sustains limits strict level (pushProcFrame site proc owner method block boundary)
      (pushProcFrame site proc owner method block boundary) where
  sustainsFrom machine sound := by
    unfold VM.pushProcFrame
    refine .checkDepth_bind sound fun room => .query_bind sound fun record read => ?_
    refine .edits_bind sound (.of_edits sound.wellFormed) fun _ next _ sound' edited => ?_
    refine sustainsFrom_pushFrame sound' (edited.sameRun.hasFrameRoom room) ?_
    rintro _ (⟨⟨⟩⟩ | ⟨⟨⟩⟩)
    obtain ⟨role, known⟩ := Option.isSome_iff_exists.mp (isSome_role?_of_procRecord read)
    rw [(edited.keepsRoles sound.wellFormed).2 proc role known]
    rfl

/-- A frame of a method that is no bytecode fits where the stack has room. -/
theorem sustainsFrom_pushNativeFrame (sound : machine.SoundAt limits strict level)
    (room : machine.HasFrameRoom) (site : CallSite) (owner : Handle) (method : Symbol)
    (block : Value) :
    SustainsFrom limits strict level machine (pushNativeFrame site owner method block)
      (pushNativeFrame site owner method block) := by
  unfold VM.pushNativeFrame
  refine .query_bind sound fun context _ => sustainsFrom_pushFrame sound room ?_
  rintro _ (⟨⟨⟩⟩ | ⟨⟨⟩⟩)

theorem role?_of_newProc {unit : Bytecode.CodeUnit} {upper env : Option Handle} {targetClass : Handle}
    {isStrict : Bool} {proc : Handle} {next : Machine} (wellFormed : machine.heap.WellFormed)
    (created : newProc unit upper env targetClass isStrict machine = .ok proc next) :
    next.role? proc = some .other := by
  obtain ⟨classHandle, _, isClass, allocated⟩ := bind_eq_ok_iff.mp created
  obtain ⟨-, rfl⟩ := liftM_eq_ok_iff.mp isClass
  exact role?_of_allocate wellFormed allocated

instance Sustains.pushProgramFrame (unit : Bytecode.CodeUnit) (self : Value) (target : Handle) :
    Sustains limits strict level (pushProgramFrame unit self target)
      (pushProgramFrame unit self target) where
  sustainsFrom machine sound := by
    unfold VM.pushProgramFrame
    refine .edits_bind sound (.of_edits sound.wellFormed) fun proc next created sound' _ => ?_
    have isProc := role?_of_newProc sound.wellFormed created
    refine .query_bind sound' fun context _ => .checkDepth_bind sound' fun room => ?_
    have prepares (base top : Nat) : Edits (do
        checkNativeDepth
        modifyContext (·.clear base top)
        setSlot base self : VM Unit) := inferInstance
    -- what comes between the check and the push is one edit
    have regroup {β : Type} (first second third : VM Unit) (push : VM β) :
        (do first; second; third; push) = ((do first; second; third : VM Unit) >>= fun _ => push) := by
      simp only [bind_assoc]
    dsimp only
    rw [regroup]
    refine .edits_bind sound' (.of_edits sound'.wellFormed) fun _ last _ sound'' edited => ?_
    refine sustainsFrom_pushFrame sound'' (edited.sameRun.hasFrameRoom room) ?_
    rintro _ (⟨⟨⟩⟩ | ⟨⟨⟩⟩)
    rw [(edited.keepsRoles sound'.wellFormed).2 proc _ isProc]
    rfl

instance Sustains.executeBody (base register : Nat) (unit : Bytecode.CodeUnit) (index : Nat) :
    Sustains limits strict level (executeBody base register unit index)
      (executeBody base register unit index) := by
  unfold VM.executeBody
  infer_instance

/-! ### Leaving a frame -/

instance Sustains.dropFrame : Sustains limits strict level
    (modifyContext fun context => { context with frames := context.frames.pop })
    (modifyContext fun context => { context with frames := context.frames.pop }) where
  sustainsFrom machine sound := .of_ok rfl <| sound.modifyContext (fun _ => rfl) fun context _ isSound =>
    isSound.of_frames (by rw [Array.size_pop]; exact Nat.sub_le _ _) fun frame isFrame => by
      rw [← Array.mem_toList_iff, Array.toList_pop] at isFrame
      exact Array.mem_toList_iff.mp (List.dropLast_subset _ isFrame)

instance Sustains.popFrame? : Sustains limits strict level popFrame? popFrame? := by
  unfold VM.popFrame?
  refine behind fun context => ?_
  split <;> infer_instance

/-- What is known of objects still holds behind a frame that was left. -/
theorem keepsRoles_of_popFrame? (sound : machine.SoundAt limits strict level) {frame? : Option Frame}
    {next : Machine} (popped : popFrame? machine = .ok frame? next) : machine.KeepsRoles next := by
  rw [popFrame?] at popped
  obtain ⟨context, _, read, popped⟩ := bind_eq_ok_iff.mp popped
  obtain ⟨-, rfl⟩ := liftM_eq_ok_iff.mp read
  cases innermost : context.frames.back? with
  | none =>
      simp only [innermost] at popped
      obtain ⟨-, rfl⟩ := pure_eq_ok_iff.mp popped
      exact .refl machine
  | some frame =>
      simp only [innermost] at popped
      obtain ⟨_, shorter, dropped, popped⟩ := bind_eq_ok_iff.mp popped
      obtain ⟨_, last, detached, returned⟩ := bind_eq_ok_iff.mp popped
      obtain ⟨-, rfl⟩ := pure_eq_ok_iff.mp returned
      cases dropped
      have edits : EditsFrom (machine.modifyContext machine.current fun context =>
          { context with frames := context.frames.pop }) (frame.env.forM detachEnv) :=
        .of_edits sound.wellFormed
      exact (edits.wellFormed_of_ok sound.wellFormed detached).2

instance Sustains.truncateFrames (height : Nat) :
    Sustains limits strict level (truncateFrames height) (truncateFrames height) where
  sustainsFrom machine sound := .of_ok rfl <| sound.modifyContext (fun _ => rfl) fun context _ isSound => by
    refine isSound.of_frames ?_ fun frame isFrame => ?_
    · rw [Array.take_eq_extract, Array.size_extract]
      omega
    · rw [← Array.mem_toList_iff, Array.take_eq_extract, Array.toList_extract,
        List.extract_eq_take_drop] at isFrame
      exact Array.mem_toList_iff.mp (List.mem_of_mem_drop (List.mem_of_mem_take isFrame))

/-! ### Handlers -/

/-- A handler finds pending what it may load. -/
theorem sustainsFrom_enterHandler (sound : machine.SoundAt limits strict level) (target : Nat)
    {record : Handle} {kind : Bytecode.CatchKind}
    (fits : strict → Pending.Fits machine.role? { record, kind }) :
    SustainsFrom limits strict level machine (enterHandler target record kind)
      (enterHandler target record kind) := by
  unfold enterHandler
  refine .edits_bind sound (.of_edits sound.wellFormed) fun _ next _ sound' edited => ?_
  refine .of_ok rfl (sound'.modifyContext (fun _ => rfl) fun context _ isSound =>
    isSound.setPending ?_)
  intro isStrict pending isPending
  cases isPending
  exact (fits isStrict).mono (edited.keepsRoles sound.wellFormed).2

instance Sustains.divert (handler : Bytecode.CatchHandler) (target : ExitTarget) (value : Value) :
    Sustains limits strict level (divert handler target value) (divert handler target value) where
  sustainsFrom machine sound := by
    unfold VM.divert
    refine .query_bind sound fun classHandle _ => ?_
    have allocates : EditsFrom machine (allocate
        { classHandle, content := .exit { target, value } }) :=
      .of_edit rfl (.allocate rfl)
    refine .edits_bind sound allocates fun record next allocated sound' _ => ?_
    exact sustainsFrom_enterHandler sound' _ fun _ =>
      .inr (role?_of_allocate sound.wellFormed allocated)

instance Sustains.clearPending : Sustains limits strict level
    (modifyContext ({ · with pending := none })) (modifyContext ({ · with pending := none })) where
  sustainsFrom _ sound := .of_ok rfl <| sound.modifyContext (fun _ => rfl) fun _ _ isSound =>
    isSound.setPending fun _ _ => nofun

instance Sustains.loadPending : Sustains limits strict level loadPending loadPending := by
  unfold VM.loadPending
  refine behind fun context => ?_
  split
  · infer_instance
  · infer_instance

/-! ### Exits -/

/-- An exit in flight is no exception. -/
instance Edits.ofUnwinding (target : Nat) (value : Value) :
    Edits (throw (.unwinding target value) : VM α) :=
  ofFailure fun _ => nofun

namespace Sustains

instance leaveFrames (target : Nat) (value : Value) (stop top : Nat) :
    Sustains limits strict level (leaveFrames target value stop top)
      (leaveFrames target value stop top) := by
  induction top with
  | zero =>
      unfold VM.leaveFrames
      infer_instance
  | succ top inductionHypothesis =>
      unfold VM.leaveFrames
      refine behind fun handler? => ?_
      split
      · infer_instance
      · refine behind fun frame? => ?_
        split <;> infer_instance

instance exitTo (target : Nat) (value : Value) (stop : Nat) :
    Sustains limits strict level (exitTo target value stop) (exitTo target value stop) := by
  unfold VM.exitTo
  infer_instance

instance returnValue (value : Value) (stop : Nat) :
    Sustains limits strict level (returnValue value stop) (returnValue value stop) := by
  unfold VM.returnValue
  infer_instance

instance breakOut (value : Value) (stop : Nat) :
    Sustains limits strict level (breakOut value stop) (breakOut value stop) := by
  unfold VM.breakOut
  refine behind fun height => behind fun frame => ?_
  split
  · infer_instance
  · refine behind fun isStrict => ?_
    split
    · infer_instance
    · refine behind fun home? => ?_
      split <;> infer_instance

instance returnFromMethod (value : Value) (stop : Nat) :
    Sustains limits strict level (returnFromMethod value stop) (returnFromMethod value stop) := by
  unfold VM.returnFromMethod
  refine behind fun frame => ?_
  split
  · infer_instance
  · refine behind fun isStrict => ?_
    split
    · infer_instance
    · refine behind fun bound => behind fun outermost => behind fun object => ?_
      split
      · infer_instance
      · refine behind fun home? => ?_
        split <;> infer_instance

instance jumpUnwinding (target : Nat) :
    Sustains limits strict level (jumpUnwinding target) (jumpUnwinding target) := by
  have jump : Edits (modifyFrame fun frame => { frame with ensuring := none, pc := target }) :=
    .of_frame fun _ => ⟨rfl, rfl, rfl, rfl, rfl⟩
  have finish (leaves? : Option Bytecode.CatchHandler) : Sustains limits strict level (do
      match leaves? with
      | some handler => VM.divert handler (.address target) .nil
      | none =>
        modifyContext ({ · with pending := none })
        modifyFrame ({ · with ensuring := none, pc := target }) : VM Unit) (do
      match leaves? with
      | some handler => VM.divert handler (.address target) .nil
      | none =>
        modifyContext ({ · with pending := none })
        modifyFrame ({ · with ensuring := none, pc := target }) : VM Unit) := by
    split <;> infer_instance
  unfold VM.jumpUnwinding
  refine behind fun handler? => ?_
  split <;> exact @seq _ _ _ _ _ _ _ _ _ (ofEdits) finish

instance resumePending (record : Value) (stop : Nat) :
    Sustains limits strict level (resumePending record stop) (resumePending record stop) := by
  unfold VM.resumePending
  refine behind fun _ => ?_
  split
  · infer_instance
  · refine ⟨fun machine sound => .query_bind sound fun object read => ?_⟩
    have found := Query.object_eq_ok_iff.mp read
    split
    · rename_i isException
      refine .of_failed rfl sound fun _ exception isRaised => ?_
      cases isRaised
      rw [Machine.IsException, Machine.role?, Heap.role?, found, Option.map_some, isException]
      rfl
    all_goals exact .of_sustains sound
  · infer_instance

end Sustains

/-! ### Exceptions -/

/-- An exception is pending for its handler, or still raised behind the frames that were left. -/
theorem sustainsFrom_findHandler (sound : machine.SoundAt limits strict level) {exception : Handle}
    (isException : strict → machine.IsException exception) (stop top : Nat) :
    SustainsFrom limits strict level machine (findHandler exception stop top)
      (findHandler exception stop top) := by
  induction top generalizing machine with
  | zero =>
      unfold findHandler
      exact .of_edits sound
  | succ top inductionHypothesis =>
      unfold findHandler
      refine .query_bind sound fun frame _ => ?_
      refine .edits_bind sound (.of_edits sound.wellFormed) fun _ next _ sound' edited => ?_
      have isException' (isStrict : strict) : next.IsException exception :=
        (edited.keepsRoles sound.wellFormed).2 _ _ (isException isStrict)
      split
      · exact sustainsFrom_enterHandler sound' _ fun isStrict =>
          Pending.fits_of_isException (isException' isStrict) _
      · refine .bind (.of_sustains sound') fun frame? last popped sound'' => ?_
        have isException'' (isStrict : strict) : last.IsException exception :=
          keepsRoles_of_popFrame? sound' popped _ _ (isException' isStrict)
        split
        · refine .of_failed rfl sound'' fun isStrict _ isRaised => ?_
          cases isRaised
          exact isException'' isStrict
        · exact inductionHypothesis sound'' isException''

theorem sustainsFrom_handleRaise (sound : machine.SoundAt limits strict level) {exception : Handle}
    (isException : strict → machine.IsException exception) (stop : Nat) :
    SustainsFrom limits strict level machine (handleRaise exception stop)
      (handleRaise exception stop) := by
  unfold handleRaise
  refine .edits_bind sound (.of_edits sound.wellFormed) fun _ next _ sound' edited => ?_
  refine .query_bind sound' fun height _ => ?_
  exact sustainsFrom_findHandler sound' (fun isStrict =>
    (edited.keepsRoles sound.wellFormed).2 _ _ (isException isStrict)) stop height

/-! ### Frames of procs -/

/-- The running frame may go on with a proc that is there. -/
theorem sustainsFrom_turnInto (sound : machine.SoundAt limits strict level) {proc : Handle}
    (live : (machine.role? proc).isSome) {change : Frame → Frame}
    (isProc : ∀ frame, (change frame).proc = some proc)
    (noEnv : ∀ frame, (change frame).env = none) :
    SustainsFrom limits strict level machine (modifyFrame change) (modifyFrame change) := by
  refine .of_ok rfl (sound.modifyContext (fun _ => rfl) fun context _ isSound =>
    isSound.modifyTop ?_)
  rintro frame other (isOther | isEnv)
  · cases (isProc frame).symm.trans isOther
    exact .inr live
  · exact nomatch (noEnv frame).symm.trans isEnv

instance Sustains.becomeProc : Sustains limits strict level becomeProc becomeProc := by
  unfold VM.becomeProc
  refine behind fun frame => behind fun receiver => behind fun proc => ?_
  refine ⟨fun machine sound => .query_bind sound fun record read => ?_⟩
  obtain ⟨role, known⟩ := Option.isSome_iff_exists.mp (isSome_role?_of_procRecord read)
  let turn (self : Value) (method : Option Symbol) (owner : Option Handle) : VM Unit := do
    setSlot frame.base self
    let top := max frame.top (frame.base + record.unit.registerCount.toNat)
    modifyContext (·.clear frame.top top)
    modifyFrame fun frame =>
      { frame with
        proc := some proc, unit := some record.unit, pc := 0, env := none, top
        targetClass := record.targetClass, method, owner }
  have turns (self : Value) (method : Option Symbol) (owner : Option Handle) :
      SustainsFrom limits strict level machine (turn self method owner) (turn self method owner) := by
    refine .edits_bind sound (.of_edits sound.wellFormed) fun _ between _ sound' first => ?_
    refine .edits_bind sound' (.of_edits sound'.wellFormed) fun _ last _ sound'' second => ?_
    have edited : machine.Edited last := first.trans second
    refine sustainsFrom_turnInto sound'' ?_ (fun _ => rfl) fun _ => rfl
    rw [(edited.keepsRoles sound.wellFormed).2 proc role known]
    rfl
  cases isEnv : record.env with
  | some env =>
      exact .query_bind sound fun captured _ => .query_bind sound fun self _ =>
        turns self captured.method captured.owner
  | none => exact turns receiver frame.method frame.owner

end VM

end RiteVm
