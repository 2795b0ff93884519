import RiteVm.Core.Natives
import RiteVm.Execution.Operators
import RiteVm.Proofs.Fibers.Calls

/-!
Contract: the methods of the core classes are balanced.

Owns: one instance for each part of such a method, and for each family of methods.
-/

namespace RiteVm.VM

set_option synthInstance.maxSize 3000

variable {tidy firm : Prop} {α : Type} {engine engine' : Engine} [agrees : engine.Agrees tidy engine']

/-! ### Objects -/

namespace Quiet

instance strictCopy (proc : Handle) : Quiet (strictCopy proc) := by
  unfold VM.strictCopy
  infer_instance

instance raiseObject (exception : Handle) : Quiet (raiseObject exception : VM α) := by
  unfold VM.raiseObject
  infer_instance

instance allocateInstance (handle : Handle) : Quiet (allocateInstance handle) := by
  have create (content : Content) (noFiber : (Object.mk .null content false {}).fiber? = none)
      (noEnv : (Object.mk .null content false {}).env? = none) :
      Quiet (VM.allocate { classHandle := handle, content }) :=
    of_allocate noFiber noEnv
  have createHash := create (.hash .empty) rfl rfl
  have createString := create (.string #[]) rfl rfl
  have createArray := create (.array #[]) rfl rfl
  have createException := create (.exception {}) rfl rfl
  unfold VM.allocateInstance
  refine @seq _ _ _ _ _ fun record => ?_
  split
  · infer_instance
  · infer_instance
  · dsimp only
    split
    case h_6 =>
      refine ⟨fun machine => .query_bind fun name _ => .bind .of_quiet fun _ _ raised => ?_⟩
      exact absurd raised raise_ne_ok
    all_goals
      rw [pure_bind]
      infer_instance

instance symbolArgs (args : Args) : Quiet (symbolArgs args) := by
  unfold VM.symbolArgs
  infer_instance

instance includeAll (handle : Handle) (modules : List Value) : Quiet (includeAll handle modules) := by
  unfold VM.includeAll
  infer_instance

instance defineAttribute (handle : Handle) (reader writer : Bool) (name : Symbol) :
    Quiet (defineAttribute handle reader writer name) := by
  unfold VM.defineAttribute
  dsimp only
  infer_instance

instance methodBody (args : Args) : Quiet (methodBody args) := by
  unfold VM.methodBody
  split <;> infer_instance

instance expectException (value : Value) : Quiet (expectException value) := by
  unfold VM.expectException
  dsimp only
  split
  · refine @seq _ _ _ _ _ fun object => ?_
    split <;> infer_instance
  · infer_instance

instance arithmetic (op : ArithOp) (left right : Value) : Quiet (arithmetic op left right) := by
  unfold VM.arithmetic
  split <;> split <;> infer_instance

instance popItem (array : Value) : Quiet (popItem array) := by
  unfold VM.popItem
  refine @seq _ _ _ _ _ fun _ => @seq _ _ _ _ _ fun items? => ?_
  split <;> infer_instance

end Quiet

namespace Balanced

instance answersEqual (self other : Value) :
    Balanced tidy firm (answersEqual engine self other) (answersEqual engine' self other) := by
  unfold VM.answersEqual
  infer_instance

instance forward (self : Value) (args : Args) :
    Balanced tidy firm (forward engine self args) (forward engine' self args) := by
  unfold VM.forward
  infer_instance

instance exceptionFor (args : Args) :
    Balanced tidy firm (exceptionFor engine args) (exceptionFor engine' args) := by
  unfold VM.exceptionFor
  refine behind fun content? => ?_
  split <;> infer_instance

instance raiseArgs (args : Args) :
    Balanced tidy firm (raiseArgs engine args) (raiseArgs engine' args) := by
  have finish (exception : Value) : Quiet (do
      match exception with
      | .object handle =>
        if (← Query.object handle).exception?.isSome then VM.raiseObject handle
      | _ => pure ()
      VM.raise .typeError "exception object expected" : VM Value) := by
    dsimp only
    split <;> infer_instance
  dsimp only at finish
  unfold VM.raiseArgs
  infer_instance

instance runObjectMethod (self : Value) (args : Args) (method : ObjectMethod) :
    Balanced tidy firm (runObjectMethod engine self args method)
      (runObjectMethod engine' self args method) := by
  cases method <;> unfold VM.runObjectMethod <;> infer_instance

/-! ### Modules -/

instance newClass (args : Args) : Balanced tidy firm (newClass engine args) (newClass engine' args) := by
  have finish (handle : Handle) : Balanced tidy firm (do
      match args.block? with
      | some block =>
        let body ← VM.expectProc block
        modifyHeap (·.protect (.object handle))
        let _ ← VM.callProc engine (.object body) [.object handle]
      | none => pure ()
      return Value.object handle : VM Value) (do
      match args.block? with
      | some block =>
        let body ← VM.expectProc block
        modifyHeap (·.protect (.object handle))
        let _ ← VM.callProc engine' (.object body) [.object handle]
      | none => pure ()
      return Value.object handle : VM Value) := by
    dsimp only
    split <;> infer_instance
  dsimp only at finish
  unfold VM.newClass
  infer_instance

instance newInstance (self : Value) (args : Args) :
    Balanced tidy firm (newInstance engine self args) (newInstance engine' self args) := by
  unfold VM.newInstance
  infer_instance

instance runModuleMethod (self : Value) (args : Args) (method : ModuleMethod) :
    Balanced tidy firm (runModuleMethod engine self args method)
      (runModuleMethod engine' self args method) := by
  cases method <;> unfold VM.runModuleMethod
  case name =>
    refine behind fun handle => behind fun record => ?_
    split <;> infer_instance
  case constGet =>
    refine behind fun handle => behind fun name => behind fun value? => ?_
    split <;> infer_instance
  all_goals infer_instance

/-! ### Exceptions -/

instance messageValue (value : Value) :
    Balanced tidy firm (messageValue engine value) (messageValue engine' value) := by
  unfold VM.messageValue
  infer_instance

instance copyException (self message : Value) :
    Balanced tidy firm (copyException engine self message) (copyException engine' self message) := by
  have copy (object : Object) (record : ExceptionRecord) : Quiet (VM.allocate
      { classHandle := object.classHandle, content := .exception record
        fields := object.fields }) :=
    .of_allocate rfl rfl
  unfold VM.copyException
  dsimp only
  infer_instance

instance runExceptionMethod (self : Value) (args : Args) (method : ExceptionMethod) :
    Balanced tidy firm (runExceptionMethod engine self args method)
      (runExceptionMethod engine' self args method) := by
  cases method <;> unfold VM.runExceptionMethod
  case backtrace =>
    refine behind fun exception => ?_
    dsimp only
    split <;> infer_instance
  all_goals infer_instance

/-! ### Containers -/

instance callEach (block : Value) (values : List Value) :
    Balanced tidy firm (callEach engine block values) (callEach engine' block values) := by
  induction values with
  | nil => exact inferInstanceAs (Balanced tidy firm (pure _) (pure _))
  | cons value rest inductionHypothesis =>
      unfold VM.callEach
      infer_instance

instance callItems (block array : Value) (rounds index : Nat) :
    Balanced tidy firm (callItems engine block array rounds index)
      (callItems engine' block array rounds index) := by
  induction rounds generalizing index with
  | zero => exact inferInstanceAs (Balanced tidy firm (throw _) (throw _))
  | succ rounds inductionHypothesis =>
      unfold VM.callItems
      refine behind fun item? => ?_
      split <;> infer_instance

instance callPairs (block : Value) (pairs : List (Value × Value)) :
    Balanced tidy firm (callPairs engine block pairs) (callPairs engine' block pairs) := by
  induction pairs with
  | nil => exact inferInstanceAs (Balanced tidy firm (pure _) (pure _))
  | cons pair rest inductionHypothesis =>
      unfold VM.callPairs
      infer_instance

instance areEqual (left right : Value) :
    Balanced tidy firm (areEqual engine left right) (areEqual engine' left right) := by
  unfold VM.areEqual
  split
  · infer_instance
  · have ask : Balanced tidy firm (do
        match ← Query.string? left, ← Query.string? right with
        | some left, some right => return left == right
        | _, _ => return (← VM.callWith engine left .opEq [right]).isTruthy : VM Bool) (do
        match ← Query.string? left, ← Query.string? right with
        | some left, some right => return left == right
        | _, _ => return (← VM.callWith engine' left .opEq [right]).isTruthy : VM Bool) := by
      refine behind fun left? => behind fun right? => ?_
      split <;> infer_instance
    infer_instance

instance areAllEqual (pairs : List (Value × Value)) :
    Balanced tidy firm (areAllEqual engine pairs) (areAllEqual engine' pairs) := by
  induction pairs with
  | nil => exact inferInstanceAs (Balanced tidy firm (pure _) (pure _))
  | cons pair rest inductionHypothesis =>
      unfold VM.areAllEqual
      infer_instance

instance runArrayMethod (self : Value) (args : Args) (method : ArrayMethod) :
    Balanced tidy firm (runArrayMethod engine self args method)
      (runArrayMethod engine' self args method) := by
  cases method <;> unfold VM.runArrayMethod
  case get =>
    refine behind fun _ => behind fun start => ?_
    have slice (count : Int64) (items? : Option (Array Value)) : Quiet (
        match sliceOf? (items?.getD #[]) start.toInt count.toInt with
        | some slice => VM.newArray slice
        | none => Pure.pure .nil : VM Value) := by
      split <;> infer_instance
    infer_instance
  case equal =>
    refine behind fun left? => behind fun right? => ?_
    split <;> infer_instance
  case each =>
    rw [agrees.rounds]
    infer_instance
  all_goals infer_instance

instance runHashMethod (self : Value) (args : Args) (method : HashMethod) :
    Balanced tidy firm (runHashMethod engine self args method)
      (runHashMethod engine' self args method) := by
  cases method <;> unfold VM.runHashMethod <;> infer_instance

instance runRangeMethod (self : Value) (args : Args) (method : RangeMethod) :
    Balanced tidy firm (runRangeMethod engine self args method)
      (runRangeMethod engine' self args method) := by
  cases method <;> unfold VM.runRangeMethod <;> infer_instance

/-! ### Numbers, texts and closures -/

instance countWith (block : Value) (start : Int) (count : Nat) :
    Balanced tidy firm (countWith engine block start count) (countWith engine' block start count) := by
  induction count generalizing start with
  | zero => exact inferInstanceAs (Balanced tidy firm (pure _) (pure _))
  | succ count inductionHypothesis =>
      unfold VM.countWith
      infer_instance

instance runNumberMethod (self : Value) (args : Args) (method : NumberMethod) :
    Balanced tidy firm (runNumberMethod engine self args method)
      (runNumberMethod engine' self args method) := by
  cases method <;> unfold VM.runNumberMethod
  case arithmetic op =>
    refine behind fun _ => behind fun result? => ?_
    split <;> infer_instance
  case comparison op =>
    refine behind fun _ => ?_
    split <;> infer_instance
  case negate =>
    dsimp only
    split <;> infer_instance
  case toI =>
    dsimp only
    split
    · split <;> infer_instance
    · infer_instance
  all_goals infer_instance

instance runTextMethod (self : Value) (args : Args) (method : TextMethod) :
    Balanced tidy firm (runTextMethod self args method) (runTextMethod self args method) := by
  cases method <;> unfold VM.runTextMethod
  case concat =>
    refine behind fun _ => behind fun bytes => behind fun more? => ?_
    split <;> infer_instance
  case equal =>
    refine behind fun left? => behind fun right? => ?_
    split <;> infer_instance
  case symbolToS =>
    dsimp only
    split <;> infer_instance
  all_goals infer_instance

instance runClosureMethod (self : Value) (args : Args) (method : ClosureMethod) :
    Balanced tidy firm (runClosureMethod engine self args method)
      (runClosureMethod engine' self args method) := by
  cases method <;> unfold VM.runClosureMethod
  case newFiber =>
    dsimp only
    split <;> infer_instance
  all_goals infer_instance

/-- A method is balanced if the methods of the host are. -/
theorem runMethod {hosts : Array HostMethod}
    (balanced : ∀ body ∈ hosts, ∀ self args,
      Balanced tidy firm (body engine self args) (body engine' self args))
    (method : NativeMethod) (self : Value) (args : Args) :
    Balanced tidy firm (runMethod hosts engine method self args)
      (runMethod hosts engine' method self args) := by
  unfold VM.runMethod
  cases method with
  | host index =>
      dsimp only
      cases found : hosts[index]? with
      | none => exact ofInPlace
      | some body => exact balanced body (Array.mem_of_getElem? found) self args
  | _ => infer_instance

end Balanced

end RiteVm.VM
