import RiteVm.Proofs.Bytecode.Faults
import RiteVm.Proofs.Fibers.Asking

/-!
Contract: actions that ask the engine once, and the faults of the code that they fail for.

Owns:
- the failures that an engine answers with at a place;
- asking the engine at one place at most, and handing on how the answer failed;
- one instance for each way to call, and for each operator.

What runs inside of a loop or method that an action starts is other code. So a fault that
an action fails for is its own or that of the one answer it asked for.
-/

namespace RiteVm

/-- What an engine does at a place ends with a failure. -/
def Engine.FailsAt (engine : Engine) (failure : Failure) : Place → Machine → Prop
  | .host, _ => False
  | .loop stop, start => ∃ next, engine.loop stop start = .error failure next
  | .native method self args, start =>
    ∃ next, engine.native method self args start = .error failure next

namespace VM

set_option synthInstance.maxSize 3000

/-- From one machine, what an action does depends on what the engine does at one place, and
the faults that it fails for are given ones or come from there. -/
structure FaultsAt {α : Type} (faults : Set Failure) (machine : Machine) (action : Engine → VM α)
    (place : Place) (start : Machine) : Prop where
  same : ∀ engine engine', engine.AnswersAlike engine' place start →
    action engine' machine = action engine machine
  mem : ∀ engine failure next, action engine machine = .error failure next →
    failure.isCodeFault → failure ∈ faults ∨ engine.FailsAt failure place start

/-- From every machine, the faults that an action fails for are given ones, or come from what
the engine does at one place. -/
class FaultsOnce {α : Type} (faults : Set Failure) (action : Engine → VM α) : Prop where
  exists_faultsAt : ∀ machine, ∃ place start, FaultsAt faults machine action place start

/-- What comes behind an attempt fails for given faults, or fails as the attempt did. -/
class PassesOn {α β : Type} (faults : Set Failure) (finish : Except Failure α → VM β) : Prop where
  ok : ∀ value, FaultsOnly faults (finish (.ok value))
  error : ∀ failure, FaultsOnly (insert failure faults) (finish (.error failure))

instance FaultsOnly.throwGiven {α : Type} (faults : Set Failure) (failure : Failure) :
    FaultsOnly (insert failure faults) (throw failure : VM α) :=
  .of_failure fun _ => .inl rfl

namespace FaultsOnce

variable {faults : Set Failure} {α β : Type} {action : Engine → VM α}

/-! ### Composition -/

section Composition

/-- What asks nothing can be taken to ask at the place where nothing is answered. -/
instance ofAlone {action : VM α} [alone : FaultsOnly faults action] :
    FaultsOnce faults fun _ => action :=
  ⟨fun machine => ⟨.host, machine, fun _ _ _ => rfl, fun _ failure next failed isFault =>
    .inl (alone.mem machine failure next failed isFault)⟩⟩

instance behind {first : VM α} {rest : α → Engine → VM β} [alone : FaultsOnly faults first]
    [once : ∀ value, FaultsOnce faults (rest value)] :
    FaultsOnce faults fun engine => first >>= fun value => rest value engine where
  exists_faultsAt machine := by
    cases result : first machine with
    | ok value between =>
        have goesOn (engine : Engine) : (first >>= fun value => rest value engine) machine =
            rest value engine between := bind_of_ok result
        obtain ⟨place, start, same, mem⟩ := (once value).exists_faultsAt between
        refine ⟨place, start, fun engine engine' alike => ?_, fun engine failure next failed => ?_⟩
        · rw [goesOn, goesOn, same engine engine' alike]
        · rw [goesOn] at failed
          exact mem engine failure _ failed
    | error failure between =>
        have fails (engine : Engine) : (first >>= fun value => rest value engine) machine =
            .error failure between := bind_of_error result
        refine ⟨.host, machine, fun engine engine' _ => ?_, fun engine failure next failed isFault => ?_⟩
        · rw [fails, fails]
        · cases (fails engine).symm.trans failed
          exact .inl (alone.mem machine _ _ result isFault)

instance attempt_bind {finish : Except Failure α → VM β} [once : FaultsOnce faults action]
    [passesOn : PassesOn faults finish] :
    FaultsOnce faults fun engine => attempt (action engine) >>= finish where
  exists_faultsAt machine := by
    obtain ⟨place, start, same, mem⟩ := once.exists_faultsAt machine
    refine ⟨place, start, fun engine engine' alike => ?_, fun engine failure next failed isFault => ?_⟩
    · change EStateM.bind _ _ _ = EStateM.bind _ _ _
      rw [EStateM.bind, EStateM.bind, attempt, attempt, same engine engine' alike]
    · cases result : action engine machine with
      | ok value between =>
          rw [bind_of_ok (attempt_of_ok result)] at failed
          exact .inl ((passesOn.ok value).mem between failure next failed isFault)
      | error failure' between =>
          rw [bind_of_ok (attempt_of_error result)] at failed
          rcases (passesOn.error failure').mem between failure next failed isFault with rfl | given
          · exact mem engine failure between result isFault
          · exact .inl given

instance before {rest : α → VM β} [once : FaultsOnce faults action]
    [alone : ∀ value, FaultsOnly faults (rest value)] :
    FaultsOnce faults fun engine => action engine >>= rest where
  exists_faultsAt machine := by
    obtain ⟨place, start, same, mem⟩ := once.exists_faultsAt machine
    refine ⟨place, start, fun engine engine' alike => ?_, fun engine failure next failed isFault => ?_⟩
    · change EStateM.bind _ _ _ = EStateM.bind _ _ _
      rw [EStateM.bind, EStateM.bind, same engine engine' alike]
    · cases result : action engine machine with
      | ok value between =>
          rw [bind_of_ok result] at failed
          exact .inl ((alone value).mem between failure next failed isFault)
      | error failure' between =>
          cases (bind_of_error result).symm.trans failed
          exact mem engine _ _ result isFault

instance branch (condition : Prop) [Decidable condition] {yes no : Engine → VM α}
    [FaultsOnce faults yes] [FaultsOnce faults no] :
    FaultsOnce faults fun engine => if condition then yes engine else no engine := by
  split <;> infer_instance

end Composition

/-! ### Questions -/

instance loop (stop : Nat) : FaultsOnce faults fun engine => engine.loop stop :=
  ⟨fun machine => ⟨.loop stop, machine, fun _ _ alike => Eq.symm alike,
    fun _ _ next failed _ => .inr ⟨next, failed⟩⟩⟩

instance native (method : NativeMethod) (self : Value) (args : Args) :
    FaultsOnce faults fun engine => engine.native method self args :=
  ⟨fun machine => ⟨.native method self args, machine, fun _ _ alike => Eq.symm alike,
    fun _ _ next failed _ => .inr ⟨next, failed⟩⟩⟩

instance nested [FaultsOnce faults action] : FaultsOnce faults fun engine => nested (action engine) := by
  have leave : PassesOn faults fun result : Except Failure α => (do
      modify fun machine => { machine with nativeDepth := machine.nativeDepth - 1 }
      resolve result : VM α) := by
    refine ⟨fun value => ?_, fun failure => ?_⟩
    · unfold VM.resolve
      infer_instance
    · unfold VM.resolve
      infer_instance
  unfold VM.nested
  infer_instance

/-! ### Calls -/

instance finishCall : PassesOn faults finishCall where
  ok exit := by
    unfold VM.finishCall
    cases exit with
    | returned value => exact .ofValue value
    | yielded value => exact .of_fatal rfl
  error failure := by
    cases failure with
    | unwinding target value => exact .behind fun depth => inferInstance
    | _ => exact .throwGiven faults _

instance callNativeBody (receiver : Value) (body : NativeMethod) (owner : Handle) (name : Symbol)
    (args : Args) :
    FaultsOnce faults fun engine => callNativeBody engine receiver body owner name args := by
  have finish (height : Nat) : PassesOn faults fun result => (do
      VM.truncateFrames height
      match result with
      | .ok value => return value
      | .error (.unwinding target value) =>
        if target = height then return value
        else VM.finishCall (.error (.unwinding target value))
      | .error failure => throw failure : VM Value) := by
    refine ⟨fun value => inferInstance, fun failure => .behind fun _ => ?_⟩
    cases failure with
    | unwinding target value =>
        have hands : FaultsOnly (insert (.unwinding target value) faults)
            (VM.finishCall (.error (.unwinding target value))) := finishCall.error _
        infer_instance
    | _ => exact .throwGiven faults _
  unfold VM.callNativeBody
  infer_instance

instance callProcBody (receiver : Value) (proc owner : Handle) (name : Symbol) (args : Args) :
    FaultsOnce faults fun engine => callProcBody engine receiver proc owner name args := by
  unfold VM.callProcBody
  infer_instance

instance callWithArgs (receiver : Value) (name : Symbol) (args : Args) :
    FaultsOnce faults fun engine => callWithArgs engine receiver name args := by
  have undefined : FaultsOnly faults (fatal .undefinedMethod : VM Value) := .of_fatal rfl
  unfold VM.callWithArgs
  refine @behind _ _ _ _ _ _ fun _ => @behind _ _ _ _ _ _ fun resolved => ?_
  obtain ⟨found, name, args⟩ := resolved
  dsimp only
  split <;> infer_instance

instance callWith (receiver : Value) (name : Symbol) (args : List Value) :
    FaultsOnce faults fun engine => callWith engine receiver name args :=
  callWithArgs _ _ _

instance callNative (site : CallSite) (body : NativeMethod) (owner : Handle) (name : Symbol) :
    FaultsOnce faults fun engine => callNative engine site body owner name := by
  have leave (value : Value) : FaultsOnly faults (do
      match ← VM.takeYielded with
      | some yielded => return some (.yielded yielded)
      | none =>
        let _ ← VM.popFrame?
        VM.setSlot site.receiverAt value
        return none : VM (Option Exit)) := by
    refine .behind fun yielded? => ?_
    split <;> infer_instance
  unfold VM.callNative
  infer_instance

instance callMethod (site : CallSite) (found : FoundMethod) (name : Symbol) :
    FaultsOnce faults fun engine => callMethod engine site found name := by
  have undefined : FaultsOnly faults (fatal .undefinedMethod : VM (Option Exit)) := .of_fatal rfl
  unfold VM.callMethod
  split <;> infer_instance

instance dispatch (site : CallSite) (name : Symbol) :
    FaultsOnce faults fun engine => dispatch engine site name := by
  unfold VM.dispatch
  refine @behind _ _ _ _ _ _ fun receiver => @behind _ _ _ _ _ _ fun handle => ?_
  refine @behind _ _ _ _ _ _ fun found? => ?_
  split
  · infer_instance
  · refine @behind _ _ _ _ _ _ fun missing? => ?_
    split <;> infer_instance

instance send (base register : Nat) (name : Symbol) (operand : Nat) (withBlock : Bool) :
    FaultsOnce faults fun engine => send engine base register name operand withBlock := by
  unfold VM.send
  infer_instance

instance sendSelf (base register : Nat) (name : Symbol) (operand : Nat) (withBlock : Bool) :
    FaultsOnce faults fun engine => sendSelf engine base register name operand withBlock := by
  unfold VM.sendSelf
  infer_instance

instance callSuper (base register operand : Nat) :
    FaultsOnce faults fun engine => callSuper engine base register operand := by
  unfold VM.callSuper
  refine @behind _ _ _ _ _ _ fun frame => ?_
  split
  · refine @behind _ _ _ _ _ _ fun receiver => @behind _ _ _ _ _ _ fun handle => ?_
    refine @behind _ _ _ _ _ _ fun found => ?_
    split <;> infer_instance
  · infer_instance

/-! ### Operators -/

instance executeArithmetic (base register : Nat) (op : ArithOp) (method : Symbol) :
    FaultsOnce faults fun engine => executeArithmetic engine base register op method := by
  unfold VM.executeArithmetic
  refine @behind _ _ _ _ _ _ fun left => @behind _ _ _ _ _ _ fun right => ?_
  refine @behind _ _ _ _ _ _ fun result? => ?_
  split <;> infer_instance

instance executeImmediate (base register number : Nat) (op : ArithOp) (method : Symbol) :
    FaultsOnce faults fun engine => executeImmediate engine base register number op method := by
  unfold VM.executeImmediate
  refine @behind _ _ _ _ _ _ fun left => @behind _ _ _ _ _ _ fun result? => ?_
  split <;> infer_instance

instance executeComparison (base register : Nat) (op : CompareOp) :
    FaultsOnce faults fun engine => executeComparison engine base register op := by
  unfold VM.executeComparison
  refine @behind _ _ _ _ _ _ fun left => @behind _ _ _ _ _ _ fun right => ?_
  split <;> infer_instance

instance executeEquality (base register : Nat) :
    FaultsOnce faults fun engine => executeEquality engine base register := by
  unfold VM.executeEquality
  refine @behind _ _ _ _ _ _ fun left => @behind _ _ _ _ _ _ fun right => ?_
  split <;> infer_instance

instance executeGetIndex (base register : Nat) :
    FaultsOnce faults fun engine => executeGetIndex engine base register := by
  unfold VM.executeGetIndex
  refine @behind _ _ _ _ _ _ fun receiver => @behind _ _ _ _ _ _ fun index => ?_
  refine @behind _ _ _ _ _ _ fun content? => ?_
  split <;> infer_instance

instance executeSetIndex (base register : Nat) :
    FaultsOnce faults fun engine => executeSetIndex engine base register := by
  unfold VM.executeSetIndex
  refine @behind _ _ _ _ _ _ fun receiver => @behind _ _ _ _ _ _ fun index => ?_
  refine @behind _ _ _ _ _ _ fun value => @behind _ _ _ _ _ _ fun content? => ?_
  split <;> infer_instance

instance textBytes (value : Value) : FaultsOnce faults fun engine => textBytes engine value := by
  unfold VM.textBytes
  split
  · infer_instance
  · infer_instance
  · refine @behind _ _ _ _ _ _ fun bytes? => ?_
    split
    · infer_instance
    · refine @before _ _ _ _ _ _ fun text => .behind fun textBytes? => ?_
      split <;> infer_instance
  · infer_instance

instance appendText (target value : Value) :
    FaultsOnce faults fun engine => appendText engine target value := by
  have toOther : FaultsOnly faults (fatal .appendToOther : VM PUnit) := .of_fatal rfl
  have toImmediate : FaultsOnly faults (fatal .appendToImmediate : VM PUnit) := .of_fatal rfl
  unfold VM.appendText
  refine @before _ _ _ _ _ _ fun tail => .behind fun _ => ?_
  dsimp only
  split
  · refine .behind fun object => ?_
    split <;> infer_instance
  · infer_instance

end FaultsOnce

end VM

end RiteVm
