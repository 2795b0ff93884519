import Mathlib.Data.Set.Basic
import RiteVm.Proofs.Fibers.Execution

/-!
Contract: actions that start nothing leave suspended fibers as they are.

Owns:
- what one machine of a run keeps of the suspended fibers of an earlier one, up to slots that
  were written;
- actions that start neither a loop nor a method, and write no slot of another stack, with one
  instance for each of their kinds.

What is kept is about machines only, whatever was done between them, so it can be put together
along a run.
-/

namespace RiteVm

namespace Machine

variable {tidy : Prop} {before machine after : Machine} {written written' : Set (ContextId × Nat)}

/-- Fibers stay who they are, and one that is suspended in the same cycle as before was
suspended and has the same stack, up to the slots that were written. -/
structure Onward (written : Set (ContextId × Nat)) (before after : Machine) : Prop where
  passed : ∀ handle, before.heap.Passed handle → after.heap.Passed handle
  fibers : ∀ handle record, before.fiber? handle = some record →
    after.heap.Passed handle ∨
      ∃ record', after.fiber? handle = some record' ∧ record'.context = record.context ∧
        record'.signals = record.signals ∧
        before.cycles record.signals ≤ after.cycles record.signals ∧
        (record'.state = .suspended →
          after.cycles record.signals = before.cycles record.signals →
          record.state = .suspended ∧
            ∀ context, before.context? record.context = some context →
              ∃ context', after.context? record.context = some context' ∧
                SimilarStack (fun index => (record.context, index) ∈ written) context context')

namespace Onward

theorem mono (onward : before.Onward written after) (more : written ⊆ written') :
    before.Onward written' after where
  passed := onward.passed
  fibers handle record found := by
    refine (onward.fibers handle record found).imp_right ?_
    rintro ⟨record', found', sameContext, sameSignals, grows, kept⟩
    refine ⟨record', found', sameContext, sameSignals, grows, fun suspended sameCycle => ?_⟩
    obtain ⟨wasSuspended, similar⟩ := kept suspended sameCycle
    refine ⟨wasSuspended, fun context isContext => ?_⟩
    obtain ⟨context', isContext', same⟩ := similar context isContext
    exact ⟨context', isContext', same.frames, same.pending, fun index unwritten =>
      same.slot index fun isWritten => unwritten (more isWritten)⟩

theorem of_keepsParked (keeps : before.KeepsParked after) : before.Onward ∅ after where
  passed := keeps.passed
  fibers handle record found := by
    refine (keeps.fibers handle record found).imp_right ?_
    rintro ⟨record', found', sameContext, sameSignals, grows, kept⟩
    refine ⟨record', found', sameContext, sameSignals, grows, fun suspended sameCycle => ?_⟩
    obtain ⟨wasSuspended, sameStack⟩ := kept suspended sameCycle
    exact ⟨wasSuspended, fun context isContext =>
      ⟨context, sameStack.trans isContext, rfl, rfl, fun _ _ => rfl⟩⟩

theorem refl (wellFormed : machine.heap.WellFormed) : machine.Onward ∅ machine :=
  of_keepsParked (.refl wellFormed)

theorem trans (first : before.Onward written machine) (second : machine.Onward written' after) :
    before.Onward (written ∪ written') after where
  passed handle passed := second.passed handle (first.passed handle passed)
  fibers handle record found := by
    rcases first.fibers handle record found with passed |
      ⟨between, isBetween, sameContext, sameSignals, grows, kept⟩
    · exact .inl (second.passed handle passed)
    · rcases second.fibers handle between isBetween with passed |
        ⟨last, isLast, sameContext', sameSignals', grows', kept'⟩
      · exact .inl passed
      · rw [sameSignals] at grows' kept'
        rw [sameContext] at kept'
        refine .inr ⟨last, isLast, sameContext'.trans sameContext, sameSignals'.trans sameSignals,
          Nat.le_trans grows grows', fun suspended sameCycle => ?_⟩
        -- the count of the machine between lies between the two, which are the same
        obtain ⟨suspendedBetween, similar'⟩ := kept' suspended (by omega)
        obtain ⟨wasSuspended, similar⟩ := kept suspendedBetween (by omega)
        refine ⟨wasSuspended, fun context isContext => ?_⟩
        obtain ⟨middle, isMiddle, same⟩ := similar context isContext
        obtain ⟨last, isLast, same'⟩ := similar' middle isMiddle
        refine ⟨last, isLast, same'.frames.trans same.frames, same'.pending.trans same.pending,
          fun index unwritten => ?_⟩
        exact (same'.slot index fun isWritten => unwritten (.inr isWritten)).trans
          (same.slot index fun isWritten => unwritten (.inl isWritten))

/-- What was kept on both sides of a part in which nothing was written. -/
theorem trans_empty (first : before.Onward written machine) (second : machine.Onward ∅ after) :
    before.Onward written after :=
  (first.trans second).mono (Set.union_empty written).subset

theorem empty_trans (first : before.Onward ∅ machine) (second : machine.Onward written after) :
    before.Onward written after :=
  (first.trans second).mono (Set.empty_union written).subset

/-- A change of the running stack, and of slots that are written on others. -/
theorem of_keepsOthers (linked : before.Linked tidy) (keeps : before.KeepsOthers after)
    (similar : ∀ id, id ≠ before.current → ∀ context, before.context? id = some context →
      ∃ context', after.context? id = some context' ∧
        SimilarStack (fun index => (id, index) ∈ written) context context') :
    before.Onward written after where
  passed := keeps.passed
  fibers handle record found := by
    refine .inr ⟨record, (keeps.fibers handle).trans found, rfl, rfl,
      Nat.le_of_eq (keeps.cycles _).symm, fun suspended _ => ⟨suspended, fun context => ?_⟩⟩
    refine similar record.context (linked.context_ne_current found ?_) context
    rw [suspended]
    exact nofun

theorem of_sameOthers (linked : before.Linked tidy) (keeps : before.KeepsOthers after)
    (same : ∀ id, id ≠ before.current → after.context? id = before.context? id) :
    before.Onward ∅ after :=
  of_keepsOthers linked keeps fun id isOther context found =>
    ⟨context, (same id isOther).trans found, rfl, rfl, fun _ _ => rfl⟩

end Onward

/-- The machine is still linked, and suspended fibers are as they were. -/
structure Moves (tidy : Prop) (written : Set (ContextId × Nat)) (before after : Machine) : Prop where
  linked : after.Linked tidy
  onward : before.Onward written after

theorem Moves.refl (linked : machine.Linked tidy) : Moves tidy ∅ machine machine :=
  ⟨linked, .refl linked.wellFormed⟩

theorem Moves.trans (first : Moves tidy written before machine)
    (second : Moves tidy written' machine after) : Moves tidy (written ∪ written') before after :=
  ⟨second.linked, first.onward.trans second.onward⟩

theorem Moves.trans_empty (first : Moves tidy written before machine)
    (second : Moves tidy ∅ machine after) : Moves tidy written before after :=
  ⟨second.linked, first.onward.trans_empty second.onward⟩

theorem Moves.empty_trans (first : Moves tidy ∅ before machine)
    (second : Moves tidy written machine after) : Moves tidy written before after :=
  ⟨second.linked, first.onward.empty_trans second.onward⟩

theorem Moves.of_sameOthers (linked : before.Linked tidy) (keeps : before.KeepsOthers after)
    (same : ∀ id, id ≠ before.current → after.context? id = before.context? id) :
    Moves tidy ∅ before after :=
  ⟨keeps.linked linked, .of_sameOthers linked keeps same⟩

theorem Moves.of_keepsFibers (linked : before.Linked tidy) (keeps : before.KeepsFibers after) :
    Moves tidy ∅ before after :=
  .of_sameOthers linked (.of_keepsFibers linked.wellFormed keeps) fun id _ => keeps.context?_eq id

/-- A level more or less is of no matter to fibers. -/
theorem Onward.deeper (machine : Machine) : machine.Onward ∅ (VM.deeper machine) :=
  ⟨fun _ => id, fun _ record found => .inr ⟨record, found, rfl, rfl, Nat.le_refl _,
    fun suspended _ => ⟨suspended, fun context isContext =>
      ⟨context, isContext, rfl, rfl, fun _ _ => rfl⟩⟩⟩⟩

theorem Onward.shallower (machine : Machine) : machine.Onward ∅ (VM.shallower machine) :=
  ⟨fun _ => id, fun _ record found => .inr ⟨record, found, rfl, rfl, Nat.le_refl _,
    fun suspended _ => ⟨suspended, fun context isContext =>
      ⟨context, isContext, rfl, rfl, fun _ _ => rfl⟩⟩⟩⟩

end Machine

namespace VM

set_option synthInstance.maxSize 3000

variable {tidy : Prop} {machine : Machine} {α β : Type}

/-! ### Actions that start nothing -/

/-- From one machine, an action leaves suspended fibers as they are. -/
abbrev CarriesFrom (tidy : Prop) (machine : Machine) (action : VM α) : Prop :=
  Machine.Moves tidy ∅ machine (action.after machine)

/-- An action leaves suspended fibers as they are. -/
class Carries (tidy : Prop) (action : VM α) : Prop where
  carriesFrom : ∀ machine, machine.Linked tidy → CarriesFrom tidy machine action

section Composition

variable {action : VM α} {rest : α → VM β}

theorem CarriesFrom.of_carries [carries : Carries tidy action] (linked : machine.Linked tidy) :
    CarriesFrom tidy machine action :=
  carries.carriesFrom machine linked

theorem CarriesFrom.bind (first : CarriesFrom tidy machine action)
    (second : ∀ value next, action machine = .ok value next → next.Linked tidy →
      CarriesFrom tidy next (rest value)) :
    CarriesFrom tidy machine (action >>= rest) := by
  rw [CarriesFrom, after] at first
  rw [CarriesFrom]
  cases result : action machine with
  | ok value next =>
      rw [result] at first
      rw [after_bind_of_ok result]
      exact first.trans_empty (second value next result first.linked)
  | error failure next =>
      rw [result] at first
      rw [after_of_error (bind_of_error result)]
      exact first

namespace Carries

instance ofQuiet [quiet : Quiet action] : Carries tidy action :=
  ⟨fun machine linked => .of_keepsFibers linked (quiet.quietFrom machine)⟩

instance seq [first : Carries tidy action] [second : ∀ value, Carries tidy (rest value)] :
    Carries tidy (action >>= rest) where
  carriesFrom machine linked := (first.carriesFrom machine linked).bind
    fun value next _ linked => (second value).carriesFrom next linked

instance branch (condition : Prop) [Decidable condition] {yes no : VM α} [Carries tidy yes]
    [Carries tidy no] : Carries tidy (if condition then yes else no) := by
  split <;> infer_instance

instance attempted [carries : Carries tidy action] : Carries tidy (VM.attempt action) where
  carriesFrom machine linked := by
    have first := carries.carriesFrom machine linked
    rw [CarriesFrom, after] at *
    rw [VM.attempt]
    cases result : action machine <;> rw [result] at first <;> exact first

end Carries

end Composition

namespace Carries

/-- A change of the running stack. -/
instance modifyContext (change : Context → Context) : Carries tidy (VM.modifyContext change) where
  carriesFrom machine linked := by
    refine .of_sameOthers linked (Machine.keepsOthers_modifyContext linked.wellFormed change) ?_
    exact fun id isOther => (Machine.context?_of_modifyContext _ _).trans (if_neg (Ne.symm isOther))

instance modifyFrame (change : Frame → Frame) : Carries tidy (VM.modifyFrame change) :=
  modifyContext _

instance setSlot (index : Nat) (value : Value) : Carries tidy (VM.setSlot index value) :=
  modifyContext _

instance setRegister (base register : Nat) (value : Value) :
    Carries tidy (VM.setRegister base register value) :=
  modifyContext _

instance setSlots (first : Nat) (values : List Value) : Carries tidy (VM.setSlots first values) := by
  induction values generalizing first with
  | nil => exact inferInstanceAs (Carries tidy (pure _))
  | cons value rest inductionHypothesis =>
      unfold VM.setSlots
      infer_instance

instance listForIn {action : α → β → VM (ForInStep β)}
    [carries : ∀ value state, Carries tidy (action value state)] (list : List α) (initial : β) :
    Carries tidy (forIn list initial action) := by
  induction list generalizing initial with
  | nil => exact inferInstanceAs (Carries tidy (pure _))
  | cons first rest inductionHypothesis =>
      rw [List.forIn_cons]
      refine @seq _ _ _ _ _ _ fun step => ?_
      cases step <;> infer_instance

instance truncateFrames (height : Nat) : Carries tidy (VM.truncateFrames height) :=
  modifyContext _

instance pushFrame (frame : Frame) : Carries tidy (VM.pushFrame frame) :=
  modifyContext _

instance popFrame? : Carries tidy popFrame? := by
  unfold VM.popFrame?
  refine @seq _ _ _ _ _ _ fun context => ?_
  split <;> infer_instance

theorem of_withSignals {number : Nat} {change : FiberSignals → FiberSignals × α}
    {signal : Signal} (tells : ∀ signals, (change signals).1 = signals.told signal)
    (notCycle : signal.isCycle = false) : Carries tidy (withSignals number change) where
  carriesFrom machine linked :=
    .of_sameOthers linked
      ((InPlace.of_withSignals tells notCycle).inPlaceFrom machine linked.wellFormed).keeps
      fun _ _ => rfl

instance pollResume (waiter : ResumeWaiter) (waker : Waker) :
    Carries tidy (pollResume waiter waker) :=
  of_withSignals (fun _ => (rfl : _ = FiberSignals.told _ (.pollResume waiter.after waker))) rfl

instance pollTermination (waiter : TerminationWaiter) (waker : Waker) :
    Carries tidy (pollTermination waiter waker) :=
  of_withSignals (fun _ => (rfl : _ = FiberSignals.told _ (.pollTermination waker))) rfl

/-! ### Arguments -/

instance normalizeArgs (receiverAt operand : Nat) (withBlock : Bool) :
    Carries tidy (normalizeArgs receiverAt operand withBlock) := by
  have finish (site : CallSite) (block : Value) : Carries tidy (do
      if !block.isNil then
        let _ ← VM.expectProc block
      VM.setSlot site.blockAt block
      return site : VM CallSite) := by
    dsimp only
    infer_instance
  dsimp only at finish
  unfold VM.normalizeArgs
  dsimp only
  split <;> refine @seq _ _ _ _ _ _ fun block => ?_ <;> split
  · infer_instance
  · split <;> infer_instance
  · infer_instance
  · split <;> infer_instance

instance packForMissing (site : CallSite) (name : Symbol) :
    Carries tidy (packForMissing site name) := by
  unfold VM.packForMissing
  dsimp only
  infer_instance

instance layOutArgs (receiverAt : Nat) (receiver : Value) (args : Args) :
    Carries tidy (layOutArgs receiverAt receiver args) := by
  unfold VM.layOutArgs
  dsimp only
  infer_instance

instance argArray (base register operand : Nat) : Carries tidy (argArray base register operand) := by
  unfold VM.argArray
  dsimp only
  infer_instance

instance pushBlock (base register operand : Nat) :
    Carries tidy (pushBlock base register operand) := by
  unfold VM.pushBlock
  dsimp only
  infer_instance

instance placeArgs (base : Nat) (frame : Frame) (spec : Bytecode.ArgSpec) (bound : BoundArgs)
    (keywords? : Option Value) (block : Value) :
    Carries tidy (placeArgs base frame spec bound keywords? block) := by
  unfold VM.placeArgs
  dsimp only
  infer_instance

instance enter (base : Nat) (spec : Bytecode.ArgSpec) : Carries tidy (enter base spec) := by
  unfold VM.enter
  dsimp only
  infer_instance

instance becomeProc : Carries tidy becomeProc := by
  unfold VM.becomeProc
  refine @seq _ _ _ _ _ _ fun frame => @seq _ _ _ _ _ _ fun receiver => ?_
  refine @seq _ _ _ _ _ _ fun proc => @seq _ _ _ _ _ _ fun record => ?_
  dsimp only
  split <;> infer_instance

/-- A new environment captures slots of the running stack only. -/
instance frameEnv : Carries tidy frameEnv where
  carriesFrom machine linked := by
    have reads {γ : Type} (query : Query γ) {rest : γ → VM Handle}
        (go : ∀ value, query machine = .ok value → CarriesFrom tidy machine (rest value)) :
        CarriesFrom tidy machine (liftM query >>= rest) := by
      refine .bind (.of_carries linked) fun value next read _ => ?_
      obtain ⟨isValue, rfl⟩ := liftM_eq_ok_iff.mp read
      exact go value isValue
    unfold VM.frameEnv
    refine reads _ fun frame _ => ?_
    split
    · exact .of_carries linked
    · refine CarriesFrom.bind (.of_carries linked) fun start next got _ => ?_
      obtain ⟨rfl, rfl⟩ : machine = start ∧ machine = next := by
        cases got
        exact ⟨rfl, rfl⟩
      refine reads _ fun classHandle _ => ?_
      refine .bind ?_ fun env next _ linked => .of_carries linked
      refine .of_sameOthers linked (keepsOthers_allocateEnv linked.wellFormed rfl ?_)
        fun _ _ => rfl
      rintro id index ⟨record, fiber, base, count, isEnv, onStack, -⟩
      cases isEnv
      cases onStack
      rfl

/-! ### Frames -/

instance pushProcFrame (site : CallSite) (proc : Handle) (owner : Option Handle)
    (method : Option Symbol) (block : Value) (boundary : Bool) :
    Carries tidy (pushProcFrame site proc owner method block boundary) := by
  unfold VM.pushProcFrame
  infer_instance

instance pushNativeFrame (site : CallSite) (owner : Handle) (method : Symbol) (block : Value) :
    Carries tidy (pushNativeFrame site owner method block) := by
  unfold VM.pushNativeFrame
  infer_instance

instance pushProgramFrame (unit : Bytecode.CodeUnit) (self : Value) (target : Handle) :
    Carries tidy (pushProgramFrame unit self target) := by
  unfold VM.pushProgramFrame
  infer_instance

instance newClosure (unit : Bytecode.CodeUnit) (targetClass : Handle) (strict : Bool) :
    Carries tidy (newClosure unit targetClass strict) := by
  unfold VM.newClosure
  infer_instance

instance executeBody (base register : Nat) (unit : Bytecode.CodeUnit) (index : Nat) :
    Carries tidy (executeBody base register unit index) := by
  unfold VM.executeBody
  infer_instance

instance executeDestructure (base register before after : Nat) :
    Carries tidy (executeDestructure base register before after) := by
  unfold VM.executeDestructure
  infer_instance

instance addPairs (base register count : Nat) : Carries tidy (addPairs base register count) := by
  unfold VM.addPairs
  infer_instance

instance concatenate (base register : Nat) : Carries tidy (concatenate base register) := by
  unfold VM.concatenate
  infer_instance

/-! ### Exits -/

instance enterHandler (target : Nat) (record : Handle) (kind : Bytecode.CatchKind) :
    Carries tidy (enterHandler target record kind) := by
  unfold VM.enterHandler
  infer_instance

instance divert (handler : Bytecode.CatchHandler) (target : ExitTarget) (value : Value) :
    Carries tidy (divert handler target value) := by
  unfold VM.divert
  infer_instance

instance leaveFrames (target : Nat) (value : Value) (stop top : Nat) :
    Carries tidy (leaveFrames target value stop top) := by
  induction top with
  | zero => exact inferInstanceAs (Carries tidy (VM.breach _))
  | succ top inductionHypothesis =>
      unfold VM.leaveFrames
      refine @seq _ _ _ _ _ _ fun handler? => ?_
      split
      · infer_instance
      · refine @seq _ _ _ _ _ _ fun frame? => ?_
        split <;> infer_instance

instance exitTo (target : Nat) (value : Value) (stop : Nat) :
    Carries tidy (exitTo target value stop) := by
  unfold VM.exitTo
  infer_instance

instance returnValue (value : Value) (stop : Nat) : Carries tidy (returnValue value stop) := by
  unfold VM.returnValue
  infer_instance

instance findHandler (exception : Handle) (stop top : Nat) :
    Carries tidy (findHandler exception stop top) := by
  induction top with
  | zero => exact inferInstanceAs (Carries tidy (VM.breach _))
  | succ top inductionHypothesis =>
      unfold VM.findHandler
      refine @seq _ _ _ _ _ _ fun frame => @seq _ _ _ _ _ _ fun _ => ?_
      split <;> infer_instance

instance handleRaise (exception : Handle) (stop : Nat) : Carries tidy (handleRaise exception stop) := by
  unfold VM.handleRaise
  infer_instance

instance jumpUnwinding (target : Nat) : Carries tidy (jumpUnwinding target) := by
  let leave (handler? : Option Bytecode.CatchHandler) : VM Unit :=
    match handler? with
    | some handler => VM.divert handler (.address target) .nil
    | none => do
      VM.modifyContext ({ · with pending := none })
      VM.modifyFrame ({ · with ensuring := none, pc := target })
  have leaves (handler? : Option Bytecode.CatchHandler) : Carries tidy (leave handler?) := by
    dsimp only [leave]
    split <;> infer_instance
  unfold VM.jumpUnwinding
  refine @seq _ _ _ _ _ inferInstance fun handler? => ?_
  dsimp only
  split <;> exact @seq _ _ _ _ _ inferInstance leaves

instance loadPending : Carries tidy loadPending := by
  unfold VM.loadPending
  refine @seq _ _ _ _ _ _ fun context => ?_
  split <;> infer_instance

instance resumePending (record : Value) (stop : Nat) :
    Carries tidy (resumePending record stop) := by
  unfold VM.resumePending
  refine @seq _ _ _ _ _ _ fun _ => ?_
  split
  · infer_instance
  · refine @seq _ _ _ _ _ _ fun object => ?_
    split <;> infer_instance
  · infer_instance

instance breakOut (value : Value) (stop : Nat) : Carries tidy (breakOut value stop) := by
  unfold VM.breakOut
  refine @seq _ _ _ _ _ _ fun depth => @seq _ _ _ _ _ _ fun frame => ?_
  split
  · infer_instance
  · refine @seq _ _ _ _ _ _ fun strict => ?_
    split
    · infer_instance
    · refine @seq _ _ _ _ _ _ fun home? => ?_
      split <;> infer_instance

instance returnFromMethod (value : Value) (stop : Nat) :
    Carries tidy (returnFromMethod value stop) := by
  unfold VM.returnFromMethod
  refine @seq _ _ _ _ _ _ fun frame => ?_
  split
  · infer_instance
  · refine @seq _ _ _ _ _ _ fun strict => ?_
    split
    · infer_instance
    · refine @seq _ _ _ _ _ _ fun bound => @seq _ _ _ _ _ _ fun outermost => ?_
      refine @seq _ _ _ _ _ _ fun object => ?_
      split
      · infer_instance
      · refine @seq _ _ _ _ _ _ fun home? => ?_
        split <;> infer_instance

instance conclude (stop mark : Nat) (result : Except Failure (Option Exit)) :
    Carries tidy (conclude stop mark result) := by
  have recovers : Carries tidy (recover stop result) := by
    unfold VM.recover
    split
    · infer_instance
    · infer_instance
    · infer_instance
  have delivers (result : Except Failure (Option Exit)) : Carries tidy (deliver result) := by
    unfold VM.deliver
    infer_instance
  unfold VM.conclude
  infer_instance

/-! ### Fibers -/

instance completeYield (args : List Value) : Carries tidy (completeYield args) := by
  unfold VM.completeYield
  refine @seq _ _ _ _ _ _ fun frame? => ?_
  split <;> infer_instance

instance enterFiberBody (body : Handle) (args : List Value) :
    Carries tidy (enterFiberBody body args) := by
  unfold VM.enterFiberBody
  refine @seq _ _ _ _ _ _ fun object => ?_
  dsimp only
  split <;> infer_instance

instance startFiber (record : FiberRecord) (args : List Value) :
    Carries tidy (startFiber record args) := by
  unfold VM.startFiber
  infer_instance

instance newFiber (block : Value) : Carries tidy (newFiber block) where
  carriesFrom machine linked := by
    refine .bind (.of_carries linked) fun body next _ linked => ?_
    exact ⟨linked.withFiber body, .of_keepsParked (linked.keepsParked_withFiber body)⟩

instance collect : Carries tidy collect where
  carriesFrom _ linked :=
    have ⟨leads, keeps⟩ := Machine.leads_collect linked
    ⟨leads.linked, .of_keepsParked keeps⟩

instance collectIfDue : Carries tidy collectIfDue := by
  unfold VM.collectIfDue
  infer_instance

end Carries

end VM

end RiteVm
