import RiteVm.Proofs.Custody.Actions

/-!
Contract: instructions and the methods of the core classes go by steps.

Owns:
- one instance for each way of leaving frames, for each operator, and for one instruction of
  the running frame;
- one instance for each part of a method of a core class that starts something or raises an
  exception that it received, and for each family of methods.
-/

namespace RiteVm.VM.Steps

set_option synthInstance.maxSize 3000

variable {α : Type}

/-! ### Leaving frames -/

instance enterHandler (target : Nat) (record : Handle) (kind : Bytecode.CatchKind) :
    Steps (enterHandler target record kind) := by
  unfold VM.enterHandler
  infer_instance

instance divert (handler : Bytecode.CatchHandler) (target : ExitTarget) (value : Value) :
    Steps (divert handler target value) := by
  unfold VM.divert
  infer_instance

instance leaveFrames (target : Nat) (value : Value) (stop top : Nat) :
    Steps (leaveFrames target value stop top) := by
  induction top with
  | zero => exact inferInstanceAs (Steps (VM.breach _))
  | succ top inductionHypothesis =>
      unfold VM.leaveFrames
      refine behind fun handler? => ?_
      split
      · infer_instance
      · refine behind fun frame? => ?_
        split <;> infer_instance

instance exitTo (target : Nat) (value : Value) (stop : Nat) : Steps (exitTo target value stop) := by
  unfold VM.exitTo
  infer_instance

instance returnValue (value : Value) (stop : Nat) : Steps (returnValue value stop) := by
  unfold VM.returnValue
  infer_instance

instance linkCause (exception : Handle) (ensuring : Option Handle) :
    Steps (linkCause exception ensuring) := by
  unfold VM.linkCause
  split <;> infer_instance

instance findHandler (exception : Handle) (stop top : Nat) :
    Steps (findHandler exception stop top) := by
  induction top with
  | zero => exact inferInstanceAs (Steps (VM.breach _))
  | succ top inductionHypothesis =>
      unfold VM.findHandler
      refine behind fun frame => behind fun _ => ?_
      split <;> infer_instance

instance handleRaise (exception : Handle) (stop : Nat) : Steps (handleRaise exception stop) := by
  unfold VM.handleRaise
  infer_instance

instance jumpUnwinding (target : Nat) : Steps (jumpUnwinding target) := by
  have leave (handler? : Option Bytecode.CatchHandler) : Steps (match handler? with
      | some handler => VM.divert handler (.address target) .nil
      | none => do
        VM.modifyContext ({ · with pending := none })
        VM.modifyFrame ({ · with ensuring := none, pc := target }) : VM Unit) := by
    split <;> infer_instance
  unfold VM.jumpUnwinding
  refine behind fun handler? => ?_
  dsimp only
  split <;> infer_instance

instance resumePending (record : Value) (stop : Nat) : Steps (resumePending record stop) := by
  unfold VM.resumePending
  refine behind fun _ => ?_
  split
  · infer_instance
  · refine behind fun object => ?_
    split <;> infer_instance
  · infer_instance

instance loadPending : Steps loadPending := by
  unfold VM.loadPending
  refine behind fun context => ?_
  split <;> infer_instance

instance breakOut (value : Value) (stop : Nat) : Steps (breakOut value stop) := by
  unfold VM.breakOut
  refine behind fun depth => behind fun frame => ?_
  split
  · infer_instance
  · refine behind fun strict => ?_
    split
    · infer_instance
    · refine behind fun home? => ?_
      split <;> infer_instance

instance returnFromMethod (value : Value) (stop : Nat) : Steps (returnFromMethod value stop) := by
  unfold VM.returnFromMethod
  refine behind fun frame => ?_
  split
  · infer_instance
  · refine behind fun strict => ?_
    split
    · infer_instance
    · refine behind fun bound => behind fun outermost => behind fun object => ?_
      split
      · infer_instance
      · refine behind fun home? => ?_
        split <;> infer_instance

/-! ### Operators -/

section Engine

variable (engine : Engine) [engine.Steps]

instance executeArithmetic (base register : Nat) (op : ArithOp) (method : Symbol) :
    Steps (executeArithmetic engine base register op method) := by
  unfold VM.executeArithmetic
  refine behind fun left => behind fun right => behind fun result? => ?_
  split <;> infer_instance

instance executeImmediate (base register number : Nat) (op : ArithOp) (method : Symbol) :
    Steps (executeImmediate engine base register number op method) := by
  unfold VM.executeImmediate
  refine behind fun left => behind fun result? => ?_
  split <;> infer_instance

instance executeComparison (base register : Nat) (op : CompareOp) :
    Steps (executeComparison engine base register op) := by
  unfold VM.executeComparison
  refine behind fun left => behind fun right => ?_
  split <;> infer_instance

instance executeEquality (base register : Nat) : Steps (executeEquality engine base register) := by
  unfold VM.executeEquality
  refine behind fun left => behind fun right => ?_
  split <;> infer_instance

instance executeGetIndex (base register : Nat) : Steps (executeGetIndex engine base register) := by
  unfold VM.executeGetIndex
  refine behind fun receiver => behind fun index => behind fun content? => ?_
  split <;> infer_instance

instance executeSetIndex (base register : Nat) : Steps (executeSetIndex engine base register) := by
  unfold VM.executeSetIndex
  refine behind fun receiver => behind fun index => behind fun value => behind fun content? => ?_
  split <;> infer_instance

/-! ### Instructions -/

instance appendText (target value : Value) : Steps (appendText engine target value) := by
  unfold VM.appendText
  refine behind fun tail => behind fun _ => ?_
  dsimp only
  split
  · exact @ofEdits _ _ (Edits.appendBytes _ tail)
  · infer_instance

instance executeBody (base register : Nat) (unit : Bytecode.CodeUnit) (index : Nat) :
    Steps (executeBody base register unit index) := by
  unfold VM.executeBody
  infer_instance

instance execute (stop : Nat) (frame : Frame) (unit : Bytecode.CodeUnit)
    (instruction : Bytecode.Instruction) :
    Steps (execute { engine, stop, frame, unit } instruction) := by
  unfold VM.execute
  dsimp only
  split <;> infer_instance

instance step (stop : Nat) : Steps (step engine stop) := by
  unfold VM.step
  refine behind fun frame => ?_
  split
  · infer_instance
  · split <;> infer_instance

/-! ### Methods of objects and modules -/

instance answersEqual (self other : Value) : Steps (answersEqual engine self other) := by
  unfold VM.answersEqual
  infer_instance

instance forward (self : Value) (args : Args) : Steps (forward engine self args) := by
  unfold VM.forward
  infer_instance

instance raiseObject (exception : Handle) : Steps (raiseObject exception : VM α) := by
  unfold VM.raiseObject
  infer_instance

instance exceptionFor (args : Args) : Steps (exceptionFor engine args) := by
  unfold VM.exceptionFor
  refine behind fun content? => ?_
  split <;> infer_instance

instance raiseArgs (args : Args) : Steps (raiseArgs engine args) := by
  have raiseGiven : Steps (do
      match ← VM.exceptionFor engine args with
      | .object handle =>
        if (← Query.object handle).exception?.isSome then VM.raiseObject handle
      | _ => pure ()
      VM.raise .typeError "exception object expected" : VM Value) := by
    refine behind fun exception => ?_
    dsimp only
    split <;> infer_instance
  dsimp only at raiseGiven
  unfold VM.raiseArgs
  infer_instance

instance runObjectMethod (self : Value) (args : Args) (method : ObjectMethod) :
    Steps (runObjectMethod engine self args method) := by
  cases method <;> unfold VM.runObjectMethod <;> infer_instance

instance newClass (args : Args) : Steps (newClass engine args) := by
  have finish (handle : Handle) : Steps (do
      match args.block? with
      | some block =>
        let body ← VM.expectProc block
        modifyHeap (·.protect (.object handle))
        let _ ← VM.callProc engine (.object body) [.object handle]
      | none => pure ()
      return Value.object handle : VM Value) := by
    dsimp only
    split <;> infer_instance
  dsimp only at finish
  unfold VM.newClass
  infer_instance

instance newInstance (self : Value) (args : Args) : Steps (newInstance engine self args) := by
  unfold VM.newInstance
  infer_instance

instance runModuleMethod (self : Value) (args : Args) (method : ModuleMethod) :
    Steps (runModuleMethod engine self args method) := by
  cases method <;> unfold VM.runModuleMethod
  case name =>
    refine behind fun handle => behind fun record => ?_
    split <;> infer_instance
  case constGet =>
    refine behind fun handle => behind fun name => behind fun value? => ?_
    split <;> infer_instance
  all_goals infer_instance

/-! ### Methods of exceptions -/

instance messageValue (value : Value) : Steps (messageValue engine value) := by
  unfold VM.messageValue
  infer_instance

instance copyException (self message : Value) : Steps (copyException engine self message) := by
  unfold VM.copyException
  dsimp only
  infer_instance

instance runExceptionMethod (self : Value) (args : Args) (method : ExceptionMethod) :
    Steps (runExceptionMethod engine self args method) := by
  cases method <;> unfold VM.runExceptionMethod
  case backtrace =>
    refine behind fun exception => ?_
    dsimp only
    split <;> infer_instance
  all_goals infer_instance

/-! ### Methods of containers -/

instance callEach (block : Value) (values : List Value) : Steps (callEach engine block values) := by
  induction values with
  | nil => exact inferInstanceAs (Steps (pure _))
  | cons value rest inductionHypothesis =>
      unfold VM.callEach
      infer_instance

instance callItems (block array : Value) (rounds index : Nat) :
    Steps (callItems engine block array rounds index) := by
  induction rounds generalizing index with
  | zero => exact inferInstanceAs (Steps (throw _))
  | succ rounds inductionHypothesis =>
      unfold VM.callItems
      refine behind fun item? => ?_
      split <;> infer_instance

instance callPairs (block : Value) (pairs : List (Value × Value)) :
    Steps (callPairs engine block pairs) := by
  induction pairs with
  | nil => exact inferInstanceAs (Steps (pure _))
  | cons pair rest inductionHypothesis =>
      unfold VM.callPairs
      infer_instance

instance areEqual (left right : Value) : Steps (areEqual engine left right) := by
  unfold VM.areEqual
  split
  · infer_instance
  · have ask : Steps (do
        match ← Query.string? left, ← Query.string? right with
        | some left, some right => return left == right
        | _, _ => return (← VM.callWith engine left .opEq [right]).isTruthy : VM Bool) := by
      refine behind fun left? => behind fun right? => ?_
      split <;> infer_instance
    infer_instance

instance areAllEqual (pairs : List (Value × Value)) : Steps (areAllEqual engine pairs) := by
  induction pairs with
  | nil => exact inferInstanceAs (Steps (pure _))
  | cons pair rest inductionHypothesis =>
      unfold VM.areAllEqual
      infer_instance

instance runArrayMethod (self : Value) (args : Args) (method : ArrayMethod) :
    Steps (runArrayMethod engine self args method) := by
  cases method <;> unfold VM.runArrayMethod
  case get =>
    refine behind fun _ => behind fun start => ?_
    have slice (count : Int64) (items? : Option (Array Value)) : Steps (
        match sliceOf? (items?.getD #[]) start.toInt count.toInt with
        | some slice => VM.newArray slice
        | none => Pure.pure .nil : VM Value) := by
      split <;> infer_instance
    infer_instance
  case equal =>
    refine behind fun left? => behind fun right? => ?_
    split <;> infer_instance
  all_goals infer_instance

instance runHashMethod (self : Value) (args : Args) (method : HashMethod) :
    Steps (runHashMethod engine self args method) := by
  cases method <;> unfold VM.runHashMethod <;> infer_instance

instance runRangeMethod (self : Value) (args : Args) (method : RangeMethod) :
    Steps (runRangeMethod engine self args method) := by
  cases method <;> unfold VM.runRangeMethod <;> infer_instance

/-! ### Methods of numbers, texts and closures -/

instance countWith (block : Value) (start : Int) (count : Nat) :
    Steps (countWith engine block start count) := by
  induction count generalizing start with
  | zero => exact inferInstanceAs (Steps (pure _))
  | succ count inductionHypothesis =>
      unfold VM.countWith
      infer_instance

instance runNumberMethod (self : Value) (args : Args) (method : NumberMethod) :
    Steps (runNumberMethod engine self args method) := by
  cases method <;> unfold VM.runNumberMethod
  case arithmetic op =>
    refine behind fun _ => behind fun result? => ?_
    split <;> infer_instance
  case comparison op =>
    refine behind fun _ => ?_
    split <;> infer_instance
  case negate =>
    dsimp only
    split <;> infer_instance
  case toI =>
    dsimp only
    split
    · split <;> infer_instance
    · infer_instance
  all_goals infer_instance

instance runTextMethod (self : Value) (args : Args) (method : TextMethod) :
    Steps (runTextMethod self args method) := by
  cases method <;> unfold VM.runTextMethod
  case concat =>
    refine behind fun _ => behind fun bytes => behind fun more? => ?_
    split <;> infer_instance
  case equal =>
    refine behind fun left? => behind fun right? => ?_
    split <;> infer_instance
  case symbolToS =>
    dsimp only
    split <;> infer_instance
  all_goals infer_instance

instance runClosureMethod (self : Value) (args : Args) (method : ClosureMethod) :
    Steps (runClosureMethod engine self args method) := by
  cases method <;> unfold VM.runClosureMethod
  case newFiber =>
    dsimp only
    split <;> infer_instance
  all_goals infer_instance

/-- A method goes by steps if the methods of the host do. -/
theorem runMethod {hosts : Array HostMethod}
    (steps : ∀ body ∈ hosts, ∀ self args, Steps (body engine self args))
    (method : NativeMethod) (self : Value) (args : Args) :
    Steps (runMethod hosts engine method self args) := by
  unfold VM.runMethod
  cases method with
  | host index =>
      dsimp only
      cases found : hosts[index]? with
      | none => infer_instance
      | some body => exact steps body (Array.mem_of_getElem? found) self args
  | _ => infer_instance

end Engine

end RiteVm.VM.Steps
