import RiteVm.Proofs.Windows.Calls

/-!
Contract: what a cycle of a loop writes.

Owns:
- instructions that call a method, and the level at which they do so;
- the slot that is written where a captured variable is set;
- the cycle of a loop, above the window of the running frame or above the registers in front of the
  one that a calling instruction names.
-/

namespace RiteVm

open RiteVm.Bytecode

/-! ### Instructions -/

/-- Instructions that call a method at their first register, if only by default, and the one that
runs a class body there. -/
def Bytecode.Opcode.calls : Opcode → Bool
  | .send | .sendBlock | .sendSelf | .sendSelfBlock | .callSuper | .exec
  | .add | .addByte | .sub | .subByte | .mul | .div
  | .eq | .lt | .le | .gt | .ge | .getIndex | .setIndex => true
  | _ => false

namespace Machine

/-- The next instruction of the running frame calls a method at a register of a level. -/
def CallsAt (level : Nat) (machine : Machine) : Prop :=
  ∃ frame unit instruction, Query.frame machine = .ok frame ∧ frame.unit = some unit ∧
    instructionAt? unit.code frame.pc = some instruction ∧ instruction.op.calls ∧
    level = frame.base + instruction.operands.a

/-- The level at which the next instruction of the running frame calls a method, if it calls one. -/
def callLevel? (machine : Machine) : Option Nat :=
  match Query.frame machine with
  | .ok frame => (frame.unit.bind (instructionAt? ·.code frame.pc)).bind fun instruction =>
      if instruction.op.calls then some (frame.base + instruction.operands.a) else none
  | .error _ => none

theorem callsAt_iff {level : Nat} {machine : Machine} :
    machine.CallsAt level ↔ machine.callLevel? = some level := by
  rw [callLevel?]
  constructor
  · rintro ⟨frame, unit, instruction, isFrame, isUnit, decoded, isCall, rfl⟩
    simp only [isFrame, isUnit, Option.bind_some, decoded, if_pos isCall]
  · intro isLevel
    cases isFrame : Query.frame machine with
    | error breach => rw [isFrame] at isLevel; exact nomatch isLevel
    | ok frame =>
        rw [isFrame] at isLevel
        obtain ⟨instruction, decoded, isLevel⟩ := Option.bind_eq_some_iff.mp isLevel
        obtain ⟨unit, isUnit, decoded⟩ := Option.bind_eq_some_iff.mp decoded
        obtain ⟨isCall, isLevel⟩ := Option.ite_none_right_eq_some.mp isLevel
        exact ⟨frame, unit, instruction, isFrame, isUnit, decoded, isCall,
          (Option.some.inj isLevel).symm⟩

instance decidableCallsAt (level : Nat) (machine : Machine) : Decidable (machine.CallsAt level) :=
  decidable_of_iff _ callsAt_iff.symm

theorem keepsStacks_collectedIfDue {machine : Machine} (linked : machine.Linked True) :
    machine.KeepsStacks machine.collectedIfDue := by
  rw [collectedIfDue]
  split
  · exact keepsStacks_collect linked
  · exact .refl machine

theorem CallsAt.of_keepsStacks {level : Nat} {before after : Machine} (calls : before.CallsAt level)
    (keeps : before.KeepsStacks after) : after.CallsAt level := by
  obtain ⟨frame, unit, instruction, isFrame, rest⟩ := calls
  refine ⟨frame, unit, instruction, ?_, rest⟩
  rw [VM.frame_eq_ok_iff] at isFrame ⊢
  rw [keeps.current, keeps.running]
  exact isFrame

/-- The next cycle writes nothing below a level but captured variables. -/
def CyclesAbove (level : Nat) (machine : Machine) : Prop :=
  machine.RunsAbove level ∨ machine.CallsAt level

end Machine

namespace VM

set_option synthInstance.maxSize 3000

variable {level stop : Nat} {machine : Machine}

theorem Lays.execute (frame : Frame) (unit : CodeUnit) (instruction : Instruction)
    [Fact (level ≤ frame.base)] (noWrite : instruction.op ≠ .setCaptured) :
    Lays (Machine.RunsAbove level) level fun engine =>
      VM.execute { engine, stop, frame, unit } instruction := by
  unfold VM.execute
  dsimp only
  split <;> first | infer_instance | exact absurd ‹_› noWrite

theorem Lays.execute_call {stands : Machine → Prop} [Lasting level stands] (frame : Frame)
    (unit : CodeUnit) (instruction : Instruction)
    [Fact (level ≤ frame.base + instruction.operands.a)] (calls : instruction.op.calls) :
    Lays stands level fun engine => VM.execute { engine, stop, frame, unit } instruction := by
  unfold VM.execute
  dsimp only
  split <;> first | infer_instance | (rename_i isOp; rw [isOp] at calls; exact absurd calls Bool.false_ne_true)

/-! ### Captured variables -/

/-- A slot of any stack is written, and nothing else happens. -/
theorem rises_modifyStack (machine : Machine) (home : ContextId) (index : Nat)
    {change : Context → Context} (same : ∀ context, (change context).frames = context.frames)
    (slots : ∀ context slot, slot ≠ index → (change context).slot slot = context.slot slot) :
    machine.Rises {slot | slot = (home, index)} level (machine.modifyContext home change) := by
  have frames (other : ContextId) :
      (machine.modifyContext home change).framesOf other = machine.framesOf other :=
    Machine.framesOf_modifyContext same home other
  have kept (other : ContextId) (slot : Nat) (unwritten : (other, slot) ≠ (home, index)) :
      (machine.modifyContext home change).slotOf other slot = machine.slotOf other slot := by
    rw [Machine.slotOf, Machine.slotOf, Machine.context?_of_modifyContext]
    split
    · rename_i isHome
      have isOther : slot ≠ index := fun isIndex => unwritten (Prod.ext isHome.symm isIndex)
      cases machine.context? other with
      | none => rfl
      | some context => exact slots context slot isOther
    · rfl
  have sameFrames : (machine.modifyContext home change).frames = machine.frames :=
    frames machine.current
  exact
    { current := rfl
      slots := fun slot _ unwritten => kept _ slot unwritten
      widen := sameFrames ▸ .refl _
      fresh := .of_length_le (Nat.le_of_eq (congrArg _ sameFrames))
      others := fun other _ => .inr ⟨frames other, fun slot unwritten => kept other slot unwritten⟩
      captures := fun _ _ _ => id
      started := fun _ isStarted => isStarted.of_fibers (Nat.le_of_eq Array.size_modify.symm)
        fun _ _ found => found }

/-- Setting a captured variable writes the slot in which it lives, if that is on a stack. -/
theorem rises_setCapturedVar (linked : machine.Linked True) (env : Handle) (register : Nat)
    (value : Value) :
    machine.Rises {slot | Query.capturedSlot? env register machine = .ok (some slot)} level
      ((setCapturedVar env register value).after machine) := by
  have quiet {action : VM Unit} (quiet : QuietFrom machine action)
      {written : Set (ContextId × Nat)} :
      machine.Rises written level (action.after machine) :=
    (Machine.KeepsStacks.of_keepsFibers linked.wellFormed quiet).rises.mono (Set.empty_subset _)
  rw [setCapturedVar]
  cases read : Query.envRecord env machine with
  | error breach =>
      rw [after_of_error (bind_of_error (liftM_of_error read))]
      exact (Machine.KeepsStacks.refl machine).rises.mono (Set.empty_subset _)
  | ok record =>
      obtain ⟨object, found, isEnv⟩ :=
        Option.bind_eq_some_iff.mp (Query.envRecord_eq_ok_iff.mp read)
      rw [after_bind_of_ok (liftM_of_ok read)]
      have isSlot :
        Query.capturedSlot? env register machine = .ok (record.storage.slot? register) := by
        rw [Query.capturedSlot?, Query.bind_of_ok read]
        rfl
      split
      · rename_i home fiber base count onStack
        rw [onStack] at isSlot
        split
        · rename_i inside
          have rises : machine.Rises {slot | slot = (home, base + register)} level
              (machine.modifyContext home fun context =>
                { context with stack := context.stack.setIfInBounds (base + register) value }) := by
            refine rises_modifyStack machine home _ (fun _ => rfl) fun context slot isOther => ?_
            rw [Context.slot, Context.slot, Array.getD_eq_getD_getElem?,
              Array.getD_eq_getD_getElem?, Array.getElem?_setIfInBounds_ne isOther.symm]
          refine rises.mono ?_
          rintro _ rfl
          exact isSlot.trans (by rw [EnvStorage.slot?, if_pos inside])
        · exact quiet .of_quiet
      · exact quiet (Quiet.detach found isEnv)

/-! ### Cycles -/

/-- Inside of its window, an instruction writes nothing below but captured variables. -/
theorem laysFrom_step (linked : machine.Linked True) (stop : Nat) (runs : machine.RunsAbove level) :
    LaysFrom {slot | machine.writtenSlot? = some slot} level machine
      fun engine => step engine stop := by
  unfold step
  refine .query_bind linked fun frame isFrame => ?_
  obtain ⟨_, isLast, isBase, -⟩ := id runs
  obtain rfl := Option.some.inj ((getLast?_of_frame isFrame).symm.trans isLast)
  have above : Fact (level ≤ frame.base) := ⟨isBase⟩
  have stays {cause : FatalCause} : LaysFrom {slot | machine.writtenSlot? = some slot} level machine
      fun _ => (fatal cause : VM (Option Exit)) :=
    .of_passes ((Machine.KeepsStacks.refl machine).rises.mono (Set.empty_subset _)).passes linked
  split
  · exact stays
  · rename_i unit isUnit
    split
    · exact stays
    · rename_i instruction decoded
      have moves : Rising (Machine.RunsAbove level) level
          (modifyFrame ({ · with pc := instruction.next })) := inferInstance
      refine .behind (linked_after linked) (moves.risesFrom machine linked runs)
        fun _ next moved linked' rises => ?_
      obtain rfl : machine.fetched instruction.next = next := by
        cases moved
        rfl
      by_cases isWrite : instruction.op = .setCaptured
      · have isExecute (engine : Engine) : execute { engine, stop, frame, unit } instruction = (do
            let env ← enclosingEnv instruction.operands.c
            let value ← Query.register frame.base instruction.operands.a
            setCapturedVar env instruction.operands.b value
            return none : VM (Option Exit)) := by
          rw [execute]
          simp only [isWrite, bind_assoc]
        simp only [isExecute]
        refine .behind (linked_after linked') (.of_quiet linked') fun env next isEnv linked' _ => ?_
        obtain ⟨rfl, isRead⟩ := enclosingEnv_eq_ok isEnv
        refine .query_bind linked' fun value _ => ?_
        refine LaysFrom.before (.of_passes (Machine.Rises.passes
          ((rises_setCapturedVar linked' env instruction.operands.b value).mono
            fun slot isSlot => ?_)) (moves_setCapturedVar linked' env _ value).linked)
        have isWritten := Machine.writtenSlot?_of_setCaptured isFrame isUnit decoded isWrite
          ((enclosingEnv?_fetched isFrame _ _).symm.trans isRead)
        rw [← capturedSlot?_fetched machine instruction.next, isSlot] at isWritten
        exact isWritten
      · exact ((Lays.execute frame unit instruction isWrite).laysFrom _ linked'
          (runs.rises rises)).mono (Set.empty_subset _)

/-- A calling instruction writes nothing below the register that it names. -/
theorem laysFrom_step_call (linked : machine.Linked True) (stop : Nat)
    (calls : machine.CallsAt level) :
    LaysFrom ∅ level machine fun engine => step engine stop := by
  obtain ⟨frame, unit, instruction, isFrame, isUnit, decoded, isCall, isLevel⟩ := calls
  have above : Fact (level ≤ frame.base + instruction.operands.a) := ⟨Nat.le_of_eq isLevel⟩
  have steps : Lays (fun _ => True) level fun engine => (do
      modifyFrame ({ · with pc := instruction.next })
      execute { engine, stop, frame, unit } instruction : VM (Option Exit)) := by
    have executes : Lays (fun _ => True) level fun engine =>
      execute { engine, stop, frame, unit } instruction :=
        .execute_call frame unit instruction isCall
    infer_instance
  unfold step
  refine .query_bind linked fun frame' isFrame' => ?_
  cases Except.ok.inj (isFrame.symm.trans isFrame')
  simp only [isUnit, decoded]
  exact steps.laysFrom machine linked trivial

/-- The instruction of a cycle comes behind a collection, which leaves the running stack alone. -/
theorem laysFrom_cycle (linked : machine.Linked True) (stop : Nat)
    (cycles : machine.CyclesAbove level) :
    LaysFrom {slot | machine.collectedIfDue.writtenSlot? = some slot} level machine
      fun engine => cycle engine stop := by
  have collects : Rising (fun _ => True) level collectIfDue := inferInstance
  refine .behind (linked_after linked) (collects.risesFrom machine linked trivial)
    fun _ next collected linked' rises => ?_
  obtain rfl : machine.collectedIfDue = next := by
    rw [collectIfDue_ok] at collected
    cases collected
    rfl
  refine .query_bind linked' fun mark _ => ?_
  have concludes (lower : Nat) (result : Except Failure (Option Exit)) :
      Falling lower (conclude stop mark result) := inferInstance
  have concludes' (result : Except Failure (Option Exit)) :
    Carries True (conclude stop mark result) :=
    inferInstance
  refine @LaysFrom.attempt_bind _ _ _ _ _ _ (conclude stop mark) _ _ ?_
  rcases cycles with runs | calls
  · exact laysFrom_step linked' stop (runs.rises rises)
  · exact (laysFrom_step_call linked' stop
      (calls.of_keepsStacks (Machine.keepsStacks_collectedIfDue linked))).mono (Set.empty_subset _)

end VM

end RiteVm
