import RiteVm.Proofs.Fibers.Execution
import RiteVm.Proofs.Soundness.Natives

/-!
Contract: instructions and the cycles of a loop sustain a sound machine.

Owns:
- one instance for each operator;
- an instruction of the running frame, which starts methods on the level of its loop; only a
  string concatenation calls by name and starts what it needs one level deeper;
- the cycle of a loop, which dispatches what its instruction raised.
-/

namespace RiteVm

open RiteVm.Bytecode

/-- The instruction that the running frame executes next. -/
def Machine.nextOp? (machine : Machine) : Option Opcode :=
  (machine.frames.getLast?.bind fun frame =>
    frame.unit.bind fun unit => instructionAt? unit.code frame.pc).map (·.op)

/-- Two engines do the same where the next instruction may ask them. -/
structure Engine.Serves (limits : Config) (strict : Prop) (level : Nat) (machine : Machine)
    (engine engine' : Engine) : Prop where
  direct : machine.nextOp? ≠ some .stringConcat → engine.Answers limits strict level engine'
  byName : machine.nextOp? = some .stringConcat →
    engine.Sustained limits strict (level + 1) engine'

namespace VM

set_option synthInstance.maxSize 3000

variable {limits : Config} {strict : Prop} {level : Nat} {machine : Machine} {stop : Nat}

/-! ### Operators -/

namespace Sustains

variable {engine engine' : Engine} [engine.Answers limits strict level engine']

instance executeArithmetic (base register : Nat) (op : ArithOp) (method : Symbol) :
    Sustains limits strict level (executeArithmetic engine base register op method)
      (executeArithmetic engine' base register op method) := by
  unfold VM.executeArithmetic
  refine behind fun left => behind fun right => behind fun result? => ?_
  split <;> infer_instance

instance executeImmediate (base register number : Nat) (op : ArithOp) (method : Symbol) :
    Sustains limits strict level (executeImmediate engine base register number op method)
      (executeImmediate engine' base register number op method) := by
  unfold VM.executeImmediate
  refine behind fun left => behind fun result? => ?_
  split <;> infer_instance

instance executeComparison (base register : Nat) (op : CompareOp) :
    Sustains limits strict level (executeComparison engine base register op)
      (executeComparison engine' base register op) := by
  unfold VM.executeComparison
  refine behind fun left => behind fun right => ?_
  split <;> infer_instance

instance executeEquality (base register : Nat) :
    Sustains limits strict level (executeEquality engine base register)
      (executeEquality engine' base register) := by
  unfold VM.executeEquality
  refine behind fun left => behind fun right => ?_
  split <;> infer_instance

instance executeGetIndex (base register : Nat) :
    Sustains limits strict level (executeGetIndex engine base register)
      (executeGetIndex engine' base register) := by
  unfold VM.executeGetIndex
  refine behind fun receiver => behind fun index => behind fun content? => ?_
  split <;> infer_instance

instance executeSetIndex (base register : Nat) :
    Sustains limits strict level (executeSetIndex engine base register)
      (executeSetIndex engine' base register) := by
  unfold VM.executeSetIndex
  refine behind fun receiver => behind fun index => behind fun value => behind fun content? => ?_
  split <;> infer_instance

end Sustains

/-! ### Instructions -/

section Instructions

variable {engine engine' : Engine} {frame : Frame} {unit : CodeUnit} {instruction : Instruction}

theorem sustains_execute [engine.Answers limits strict level engine']
    (notConcat : instruction.op ≠ .stringConcat) :
    Sustains limits strict level (execute { engine, stop, frame, unit } instruction)
      (execute { engine := engine', stop, frame, unit } instruction) := by
  unfold execute
  dsimp only
  split
  case h_84 isConcat => exact absurd isConcat notConcat
  all_goals infer_instance

theorem sustains_execute_stringConcat [engine.Sustained limits strict (level + 1) engine']
    (isConcat : instruction.op = .stringConcat) :
    Sustains limits strict level (execute { engine, stop, frame, unit } instruction)
      (execute { engine := engine', stop, frame, unit } instruction) := by
  unfold execute
  dsimp only
  rw [isConcat]
  dsimp only
  infer_instance

theorem getLast?_of_frame (read : Query.frame machine = .ok frame) :
    machine.frames.getLast? = some frame := by
  obtain ⟨context, isContext, isTop⟩ := Query.bind_eq_ok_iff.mp read
  rw [Query.context] at isContext
  split at isContext
  · rename_i running
    cases isContext
    rw [Machine.frames_of_context? running, Array.getLast?_toList]
    cases isBack : context.frames.back? with
    | none =>
        rw [isBack] at isTop
        cases isTop
    | some top =>
        rw [isBack] at isTop
        cases isTop
        rfl
  · cases isContext

/-- The next instruction sustains a sound machine, if what it may start does. -/
theorem sustainsFrom_step (sound : machine.SoundAt limits strict level)
    (serves : engine.Serves limits strict level machine engine') :
    SustainsFrom limits strict level machine (step engine stop) (step engine' stop) := by
  unfold step
  refine .query_bind sound fun frame read => ?_
  have isTop := getLast?_of_frame read
  cases isUnit : frame.unit with
  | none => exact .of_edits sound
  | some unit =>
      dsimp only
      cases isNext : instructionAt? unit.code frame.pc with
      | none => exact .of_edits sound
      | some instruction =>
          have isOp : machine.nextOp? = some instruction.op := by
            rw [Machine.nextOp?, isTop, Option.bind_some, isUnit, Option.bind_some, isNext]
            rfl
          refine .bind (.of_edits sound) fun _ next _ sound => ?_
          by_cases isConcat : instruction.op = .stringConcat
          · have := serves.byName (isOp.trans (congrArg some isConcat))
            exact (sustains_execute_stringConcat isConcat).sustainsFrom next sound
          · have := serves.direct fun isNext =>
              isConcat (Option.some.inj (isOp.symm.trans isNext))
            exact (sustains_execute isConcat).sustainsFrom next sound

/-! ### Cycles -/

theorem sustainsFrom_deliver (sound : machine.SoundAt limits strict level)
    {result : Except Failure (Option Exit)}
    (isException : strict → ∀ exception, result = .error (.raised exception) →
      machine.IsException exception) :
    SustainsFrom limits strict level machine (deliver result) (deliver result) := by
  unfold deliver
  refine .edits_bind sound (.of_edits sound.wellFormed) fun _ next _ sound' edited => ?_
  exact sustainsFrom_resolve sound' fun isStrict exception isRaised =>
    (edited.keepsRoles sound.wellFormed).2 _ _ (isException isStrict exception isRaised)

/-- What an instruction raised is dispatched or handed on. -/
theorem sustainsFrom_recover (sound : machine.SoundAt limits strict level)
    {result : Except Failure (Option Exit)}
    (isException : strict → ∀ exception, result = .error (.raised exception) →
      machine.IsException exception) :
    SustainsFrom limits strict level machine (recover stop result >>= deliver)
      (recover stop result >>= deliver) := by
  unfold recover
  split
  · rename_i exception
    have handles : SustainsFrom limits strict level machine (do
        handleRaise exception stop
        return none : VM (Option Exit)) (do
        handleRaise exception stop
        return none : VM (Option Exit)) :=
      .bind (sustainsFrom_handleRaise sound (fun isStrict => isException isStrict exception rfl) stop)
        fun _ _ _ sound => .of_edits sound
    rw [bind_assoc]
    refine .query_bind sound fun height _ => ?_
    split
    · exact .attempt_bind handles fun _ _ sound isException => sustainsFrom_deliver sound isException
    · exact sustainsFrom_deliver sound isException
  · rw [bind_assoc]
    refine .query_bind sound fun height _ => ?_
    split
    · exact .attempt_bind (.of_sustains sound) fun _ _ sound isException =>
        sustainsFrom_deliver sound isException
    · exact sustainsFrom_deliver sound isException
  · exact sustainsFrom_deliver sound isException

theorem sustainsFrom_conclude (sound : machine.SoundAt limits strict level) (mark : Nat)
    {result : Except Failure (Option Exit)}
    (isException : strict → ∀ exception, result = .error (.raised exception) →
      machine.IsException exception) :
    SustainsFrom limits strict level machine (conclude stop mark result)
      (conclude stop mark result) := by
  unfold conclude
  refine .edits_bind sound (.of_edits sound.wellFormed) fun _ next _ sound' edited => ?_
  exact sustainsFrom_recover sound' fun isStrict exception isRaised =>
    (edited.keepsRoles sound.wellFormed).2 _ _ (isException isStrict exception isRaised)

/-- A cycle sustains a sound machine, if what its instruction may start does. -/
theorem sustainsFrom_cycle (sound : machine.SoundAt limits strict level)
    (serves : ∀ next, collectIfDue machine = .ok () next →
      engine.Serves limits strict level next engine') :
    SustainsFrom limits strict level machine (cycle engine stop) (cycle engine' stop) := by
  have cycle_eq (engine : Engine) : cycle engine stop = (do
      collectIfDue
      let mark ← Query.arenaMark
      attempt (step engine stop) >>= conclude stop mark : VM (Option Exit)) := rfl
  rw [cycle_eq, cycle_eq]
  refine .bind (.of_sustains sound) fun _ next collected sound => ?_
  refine .query_bind sound fun mark _ => ?_
  exact .attempt_bind (sustainsFrom_step sound (serves next collected)) fun _ _ sound isException =>
    sustainsFrom_conclude sound mark isException

end Instructions

end VM

end RiteVm
