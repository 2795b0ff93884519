import RiteVm.Execution.Loop
import RiteVm.Proofs.Fibers.Leaving
import RiteVm.Proofs.Fibers.Natives

/-!
Contract: interpreter loops leave the frames below their own alone.

Owns:
- one instance for each operator, for each part of an instruction, and for one instruction
  of the running frame;
- the cycle of a loop, which settles how its instruction ended;
- whole runs of loops and methods, by induction on their fuel.
-/

namespace RiteVm

namespace VM

set_option synthInstance.maxSize 3000

variable {tidy : Prop} {machine : Machine} {stop : Nat}

/-! ### Operators -/

namespace Executes

variable {engine engine' : Engine} [agrees : engine.Agrees tidy engine']

instance executeArithmetic (base register : Nat) (op : ArithOp) (method : Symbol) :
    Executes tidy stop (executeArithmetic engine base register op method)
      (executeArithmetic engine' base register op method) := by
  unfold VM.executeArithmetic
  refine behind fun left => behind fun right => behind fun result? => ?_
  split <;> infer_instance

instance executeImmediate (base register number : Nat) (op : ArithOp) (method : Symbol) :
    Executes tidy stop (executeImmediate engine base register number op method)
      (executeImmediate engine' base register number op method) := by
  unfold VM.executeImmediate
  refine behind fun left => behind fun result? => ?_
  split <;> infer_instance

instance executeComparison (base register : Nat) (op : CompareOp) :
    Executes tidy stop (executeComparison engine base register op)
      (executeComparison engine' base register op) := by
  unfold VM.executeComparison
  refine behind fun left => behind fun right => ?_
  split <;> infer_instance

instance executeEquality (base register : Nat) :
    Executes tidy stop (executeEquality engine base register)
      (executeEquality engine' base register) := by
  unfold VM.executeEquality
  refine behind fun left => behind fun right => ?_
  split <;> infer_instance

instance executeGetIndex (base register : Nat) :
    Executes tidy stop (executeGetIndex engine base register)
      (executeGetIndex engine' base register) := by
  unfold VM.executeGetIndex
  refine behind fun receiver => behind fun index => behind fun content? => ?_
  split <;> infer_instance

instance executeSetIndex (base register : Nat) :
    Executes tidy stop (executeSetIndex engine base register)
      (executeSetIndex engine' base register) := by
  unfold VM.executeSetIndex
  refine behind fun receiver => behind fun index => behind fun value => behind fun content? => ?_
  split <;> infer_instance

end Executes

instance InPlace.executeDestructure (base register before after : Nat) :
    InPlace (executeDestructure base register before after) := by
  unfold VM.executeDestructure
  infer_instance

/-! ### Parts of instructions -/

namespace Quiet

instance unitSymbol (unit : Bytecode.CodeUnit) (index : Nat) : Quiet (unitSymbol unit index) := by
  unfold VM.unitSymbol
  split <;> infer_instance

instance unitString (unit : Bytecode.CodeUnit) (index : Nat) : Quiet (unitString unit index) := by
  unfold VM.unitString
  split <;> infer_instance

instance unitChild (unit : Bytecode.CodeUnit) (index : Nat) : Quiet (unitChild unit index) := by
  unfold VM.unitChild
  split <;> infer_instance

instance unitLiteral (unit : Bytecode.CodeUnit) (index : Nat) : Quiet (unitLiteral unit index) := by
  unfold VM.unitLiteral
  split <;> infer_instance

instance definitionScope (scope : Value) : Quiet (definitionScope scope) := by
  unfold VM.definitionScope
  infer_instance

instance definitionSuperclass (superclass : Value) : Quiet (definitionSuperclass superclass) := by
  unfold VM.definitionSuperclass
  refine @seq _ _ _ _ _ fun isClassOrModule => @seq _ _ _ _ _ fun isModule => ?_
  split <;> infer_instance

instance scopedConst (scope : Value) (name : Symbol) : Quiet (scopedConst scope name) := by
  unfold VM.scopedConst
  refine @seq _ _ _ _ _ fun handle => @seq _ _ _ _ _ fun value? => ?_
  split <;> infer_instance

instance matchesRescue (exception rescued : Value) : Quiet (matchesRescue exception rescued) := by
  unfold VM.matchesRescue
  refine @seq _ _ _ _ _ fun isClass => ?_
  split <;> infer_instance

instance internValue (value : Value) : Quiet (internValue value) := by
  unfold VM.internValue
  refine @seq _ _ _ _ _ fun bytes? => ?_
  split <;> infer_instance

end Quiet

instance Balanced.appendText {engine engine' : Engine} [engine.Agrees tidy engine']
    (target value : Value) :
    Balanced tidy False (appendText engine target value) (appendText engine' target value) := by
  have append (handle : Handle) (tail : Bytes) : Quiet (do
      match (← Query.object handle).content with
      | .string bytes => do
        setContent handle (.string (bytes ++ tail))
        grow tail.size
      | _ => do
        fatal .appendToOther
        grow tail.size : VM Unit) := by
    refine ⟨fun machine => .query_bind fun object known => ?_⟩
    split
    · rename_i isString
      have wasPlain : object.fiber? = none := by rw [Object.fiber?, isString]
      exact .bind (.setContent (Query.object_eq_ok_iff.mp known) wasPlain rfl
        (Object.not_captures rfl)) fun _ _ _ => .of_quiet
    · exact .of_quiet
  unfold VM.appendText
  refine behind fun tail => behind fun _ => ?_
  dsimp only
  split <;> infer_instance

namespace InPlace

instance addPairs (base register count : Nat) : InPlace (addPairs base register count) := by
  unfold VM.addPairs
  infer_instance

instance concatenate (base register : Nat) : InPlace (concatenate base register) := by
  unfold VM.concatenate
  infer_instance

end InPlace

namespace Advancing

instance newClosure (unit : Bytecode.CodeUnit) (targetClass : Handle) (strict : Bool) :
    Advancing tidy (newClosure unit targetClass strict) (newClosure unit targetClass strict) := by
  unfold VM.newClosure
  infer_instance

instance executeBody (base register : Nat) (unit : Bytecode.CodeUnit) (index : Nat) :
    Advancing tidy (executeBody base register unit index)
      (executeBody base register unit index) := by
  unfold VM.executeBody
  infer_instance

end Advancing

/-! ### Instructions -/

namespace Executes

variable {engine engine' : Engine} [agrees : engine.Agrees tidy engine']

instance execute (frame : Frame) (unit : Bytecode.CodeUnit) (instruction : Bytecode.Instruction) :
    Executes tidy stop (execute { engine, stop, frame, unit } instruction)
      (execute { engine := engine', stop, frame, unit } instruction) := by
  unfold VM.execute
  dsimp only
  split <;> infer_instance

instance step : Executes tidy stop (step engine stop) (step engine' stop) := by
  unfold VM.step
  refine behind fun frame => ?_
  split
  · infer_instance
  · split <;> infer_instance

end Executes

/-! ### Cycles -/

instance OnlyBreaches.restoreArena (mark : Nat) : OnlyBreaches (modifyHeap (·.restoreArena mark)) :=
  ofModify _

instance OnlyBreaches.collectIfDue : OnlyBreaches collectIfDue := by
  have collects : OnlyBreaches collect := ofModify _
  unfold VM.collectIfDue
  infer_instance

/-- What a cycle hands on, which the collector has to keep. -/
def deliver (result : Except Failure (Option Exit)) : VM (Option Exit) := do
  modifyHeap (·.protect (carried result))
  resolve result

/-- How a cycle goes on behind its instruction. -/
def conclude (stop mark : Nat) (result : Except Failure (Option Exit)) : VM (Option Exit) := do
  modifyHeap (·.restoreArena mark)
  deliver (← recover stop result)

theorem tracksFrom_deliver {result : Except Failure (Option Exit)} (linked : machine.Linked tidy)
    (settled : EndsSettled tidy stop (ended result machine)) :
    TracksFrom tidy (Descends stop) (EndsSettled tidy stop) machine (deliver result)
      (deliver result) := by
  unfold deliver
  refine .stays linked ?_
  cases result with
  | ok exit? => cases exit? <;> exact settled
  | error failure => exact settled

theorem Settles.deliver {action : VM (Option Exit)} [settles : Settles tidy stop action]
    (linked : machine.Linked tidy) (runs : machine.RunsFrom stop) :
    TracksFrom tidy (Descends stop) (EndsSettled tidy stop) machine (attempt action >>= deliver)
      (attempt action >>= deliver) :=
  .attempt_bind (settles.settlesFrom machine linked runs) (fun _ _ => Bool.noConfusion)
    (fun _ => .of_not_isIntact) .trans fun _ _ _ leads ends => tracksFrom_deliver leads.linked ends

/-- A failure of an instruction is settled in the frames of the loop that are left. -/
theorem tracksFrom_recover {result : Except Failure (Option Exit)} (linked : machine.Linked tidy)
    (runs : stop < machine.frames.length → machine.RunsFrom stop)
    (ends : EndsStep tidy stop (ended result machine)) :
    TracksFrom tidy (Descends stop) (EndsSettled tidy stop) machine (recover stop result >>= deliver)
      (recover stop result >>= deliver) := by
  have handsOn (failure : Failure) (left : failure.isMild → machine.frames.length ≤ stop) :
      TracksFrom tidy (Descends stop) (EndsSettled tidy stop) machine (deliver (.error failure)) _ :=
    tracksFrom_deliver linked left
  cases result with
  | ok exit? =>
      have settled : EndsSettled tidy stop (ended (.ok exit?) machine) := by cases exit? <;> exact ends
      exact tracksFrom_deliver linked settled
  | error failure =>
      cases failure with
      | raised exception =>
          unfold recover
          rw [bind_assoc]
          refine .read_bind linked (fun _ => .of_not_isIntact) fun height isDepth => ?_
          obtain rfl := Except.ok.inj ((depth_of_linked linked).symm.trans isDepth)
          split
          · exact Settles.deliver linked (runs ‹_›)
          · exact handsOn _ fun _ => Nat.le_of_not_lt ‹_›
      | unwinding target value =>
          unfold recover
          rw [bind_assoc]
          refine .read_bind linked (fun _ => .of_not_isIntact) fun height isDepth => ?_
          obtain rfl := Except.ok.inj ((depth_of_linked linked).symm.trans isDepth)
          split
          · exact Settles.deliver linked (runs ‹_›)
          · exact handsOn _ fun _ => Nat.le_of_not_lt ‹_›
      | load error => exact handsOn (.load error) nofun
      | fatal cause => exact handsOn (.fatal cause) nofun
      | breach cause => exact handsOn (.breach cause) nofun
      | outOfFuel => exact handsOn .outOfFuel nofun

theorem tracksFrom_conclude {result : Except Failure (Option Exit)} {mark : Nat}
    (linked : machine.Linked tidy) (runs : stop < machine.frames.length → machine.RunsFrom stop)
    (ends : EndsStep tidy stop (ended result machine)) :
    TracksFrom tidy (Descends stop) (EndsSettled tidy stop) machine (conclude stop mark result)
      (conclude stop mark result) := by
  unfold conclude
  refine .only_bind (.stays linked trivial) (fun _ => .of_not_isIntact) fun _ next restored leads => ?_
  cases restored
  refine tracksFrom_recover leads.linked runs ?_
  cases result with
  | ok exit? => cases exit? <;> exact ends
  | error failure => exact trivial

section Cycles

variable {engine engine' : Engine} [agrees : engine.Agrees tidy engine']

/-- A cycle goes on in a frame of the loop, or has left all of them. -/
theorem tracksFrom_cycle (linked : machine.Linked tidy) (runs : machine.RunsFrom stop) :
    TracksFrom tidy (Descends stop) (EndsSettled tidy stop) machine (cycle engine stop)
      (cycle engine' stop) := by
  have cycle_eq (engine : Engine) : cycle engine stop = (do
      collectIfDue
      let mark ← Query.arenaMark
      attempt (step engine stop) >>= conclude stop mark : VM (Option Exit)) := rfl
  rw [cycle_eq, cycle_eq]
  have executes : Executes tidy stop (step engine stop) (step engine' stop) := inferInstance
  have rest (mark : Nat) {next : Machine} (linked : next.Linked tidy) (runs : next.RunsFrom stop) :
      TracksFrom tidy (Descends stop) (EndsSettled tidy stop) next
        (attempt (step engine stop) >>= conclude stop mark)
        (attempt (step engine' stop) >>= conclude stop mark) :=
    .attempt_bind (executes.executesFrom next linked runs) (fun _ _ => Bool.noConfusion)
      (fun _ => .of_not_isIntact) .trans fun _ _ _ leads ends =>
        tracksFrom_conclude leads.linked (runs.descends leads.frames) ends
  have collects : Advancing tidy collectIfDue collectIfDue := inferInstance
  refine .advance_bind runs (collects.advancingFrom machine linked) (fun _ => .of_not_isIntact)
    fun _ next _ linked runs => ?_
  exact .read_bind linked (fun _ => .of_not_isIntact) fun mark _ => rest mark linked runs

end Cycles

end VM

end RiteVm
