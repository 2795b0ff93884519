import RiteVm.Core.Natives
import RiteVm.Execution.Step
import RiteVm.Proofs.Evolution.Calls
import RiteVm.Proofs.Evolution.Classes

/-!
Contract: instructions and the methods of the core classes only evolve the machine.

Owns: one instance for each way of leaving frames, for each part of an instruction, for
one instruction of the running frame, for each part of a method of a core class, and for each
family of such methods.
-/

namespace RiteVm.VM.Evolves

set_option synthInstance.maxSize 3000

/-! ### Operators -/

section Operators

variable (engine : Engine) [engine.Evolves]

instance arithmetic (op : ArithOp) (left right : Value) : Evolves (arithmetic op left right) := by
  unfold VM.arithmetic
  split <;> split <;> infer_instance

instance executeArithmetic (base register : Nat) (op : ArithOp) (method : Symbol) :
    Evolves (executeArithmetic engine base register op method) := by
  unfold VM.executeArithmetic
  refine @seq _ _ _ _ _ fun left => @seq _ _ _ _ _ fun right => @seq _ _ _ _ _ fun result? => ?_
  split <;> infer_instance

instance executeImmediate (base register number : Nat) (op : ArithOp) (method : Symbol) :
    Evolves (executeImmediate engine base register number op method) := by
  unfold VM.executeImmediate
  refine @seq _ _ _ _ _ fun left => @seq _ _ _ _ _ fun result? => ?_
  split <;> infer_instance

instance executeComparison (base register : Nat) (op : CompareOp) :
    Evolves (executeComparison engine base register op) := by
  unfold VM.executeComparison
  refine @seq _ _ _ _ _ fun left => @seq _ _ _ _ _ fun right => ?_
  split <;> infer_instance

instance executeEquality (base register : Nat) :
    Evolves (executeEquality engine base register) := by
  unfold VM.executeEquality
  refine @seq _ _ _ _ _ fun left => @seq _ _ _ _ _ fun right => ?_
  split <;> infer_instance

instance executeGetIndex (base register : Nat) :
    Evolves (executeGetIndex engine base register) := by
  unfold VM.executeGetIndex
  refine @seq _ _ _ _ _ fun receiver => @seq _ _ _ _ _ fun index => ?_
  refine @seq _ _ _ _ _ fun content? => ?_
  split <;> infer_instance

instance executeSetIndex (base register : Nat) :
    Evolves (executeSetIndex engine base register) := by
  unfold VM.executeSetIndex
  refine @seq _ _ _ _ _ fun receiver => @seq _ _ _ _ _ fun index => ?_
  refine @seq _ _ _ _ _ fun value => @seq _ _ _ _ _ fun content? => ?_
  split <;> infer_instance

instance executeDestructure (base register before after : Nat) :
    Evolves (executeDestructure base register before after) := by
  unfold VM.executeDestructure
  infer_instance

end Operators

/-! ### Leaving frames -/

instance enterHandler (target : Nat) (record : Handle) (kind : Bytecode.CatchKind) :
    Evolves (enterHandler target record kind) := by
  unfold VM.enterHandler
  infer_instance

instance divert (handler : Bytecode.CatchHandler) (target : ExitTarget) (value : Value) :
    Evolves (divert handler target value) where
  evolvesFrom machine := by
    unfold VM.divert
    refine .query_bind fun classHandle read => ?_
    obtain rfl : machine.coreClass .object = classHandle := Except.ok.inj read
    exact .bind (.allocate rfl (.core _)) fun _ _ _ => .of_evolves

instance leaveFrames (target : Nat) (value : Value) (stop top : Nat) :
    Evolves (leaveFrames target value stop top) := by
  induction top with
  | zero => exact ofBreach _
  | succ top inductionHypothesis =>
      unfold VM.leaveFrames
      refine @seq _ _ _ _ _ fun handler? => ?_
      split
      · infer_instance
      · refine @seq _ _ _ _ _ fun frame? => ?_
        split <;> infer_instance

instance exitTo (target : Nat) (value : Value) (stop : Nat) :
    Evolves (exitTo target value stop) := by
  unfold VM.exitTo
  infer_instance

instance returnValue (value : Value) (stop : Nat) : Evolves (returnValue value stop) := by
  unfold VM.returnValue
  infer_instance

instance linkCause (exception : Handle) (ensuring : Option Handle) :
    Evolves (linkCause exception ensuring) := by
  unfold VM.linkCause
  split <;> infer_instance

instance findHandler (exception : Handle) (stop top : Nat) :
    Evolves (findHandler exception stop top) := by
  induction top with
  | zero => exact ofBreach _
  | succ top inductionHypothesis =>
      unfold VM.findHandler
      refine @seq _ _ _ _ _ fun frame => @seq _ _ _ _ _ fun _ => ?_
      split <;> infer_instance

instance handleRaise (exception : Handle) (stop : Nat) :
    Evolves (handleRaise exception stop) := by
  unfold VM.handleRaise
  infer_instance

instance jumpUnwinding (target : Nat) : Evolves (jumpUnwinding target) := by
  have leave (handler? : Option Bytecode.CatchHandler) : Evolves (match handler? with
      | some handler => VM.divert handler (.address target) .nil
      | none => do
        VM.modifyContext ({ · with pending := none })
        VM.modifyFrame ({ · with ensuring := none, pc := target }) : VM Unit) := by
    split <;> infer_instance
  unfold VM.jumpUnwinding
  refine @seq _ _ _ _ _ fun handler? => ?_
  dsimp only
  split <;> infer_instance

instance resumePending (record : Value) (stop : Nat) : Evolves (resumePending record stop) := by
  unfold VM.resumePending
  refine @seq _ _ _ _ _ fun _ => ?_
  split
  · infer_instance
  · refine @seq _ _ _ _ _ fun object => ?_
    split <;> infer_instance
  · infer_instance

instance loadPending : Evolves loadPending := by
  unfold VM.loadPending
  refine @seq _ _ _ _ _ fun context => ?_
  split <;> infer_instance

instance breakOut (value : Value) (stop : Nat) : Evolves (breakOut value stop) := by
  unfold VM.breakOut
  refine @seq _ _ _ _ _ fun depth => @seq _ _ _ _ _ fun frame => ?_
  split
  · infer_instance
  · refine @seq _ _ _ _ _ fun strict => ?_
    split
    · infer_instance
    · refine @seq _ _ _ _ _ fun home? => ?_
      split <;> infer_instance

instance returnFromMethod (value : Value) (stop : Nat) :
    Evolves (returnFromMethod value stop) := by
  unfold VM.returnFromMethod
  refine @seq _ _ _ _ _ fun frame => ?_
  split
  · infer_instance
  · refine @seq _ _ _ _ _ fun strict => ?_
    split
    · infer_instance
    · refine @seq _ _ _ _ _ fun bound => @seq _ _ _ _ _ fun outermost => ?_
      refine @seq _ _ _ _ _ fun object => ?_
      split
      · infer_instance
      · refine @seq _ _ _ _ _ fun home? => ?_
        split <;> infer_instance

/-! ### Parts of instructions -/

instance unitSymbol (unit : Bytecode.CodeUnit) (index : Nat) : Evolves (unitSymbol unit index) := by
  unfold VM.unitSymbol
  split <;> infer_instance

instance unitString (unit : Bytecode.CodeUnit) (index : Nat) : Evolves (unitString unit index) := by
  unfold VM.unitString
  split <;> infer_instance

instance unitChild (unit : Bytecode.CodeUnit) (index : Nat) : Evolves (unitChild unit index) := by
  unfold VM.unitChild
  split <;> infer_instance

instance unitLiteral (unit : Bytecode.CodeUnit) (index : Nat) :
    Evolves (unitLiteral unit index) := by
  unfold VM.unitLiteral
  split <;> infer_instance

instance definitionScope (scope : Value) : Evolves (definitionScope scope) := by
  unfold VM.definitionScope
  infer_instance

instance definitionSuperclass (superclass : Value) : Evolves (definitionSuperclass superclass) := by
  unfold VM.definitionSuperclass
  refine @seq _ _ _ _ _ fun isClassOrModule => @seq _ _ _ _ _ fun isModule => ?_
  split <;> infer_instance

instance scopedConst (scope : Value) (name : Symbol) : Evolves (scopedConst scope name) := by
  unfold VM.scopedConst
  refine @seq _ _ _ _ _ fun handle => @seq _ _ _ _ _ fun value? => ?_
  split <;> infer_instance

instance matchesRescue (exception rescued : Value) : Evolves (matchesRescue exception rescued) := by
  unfold VM.matchesRescue
  refine @seq _ _ _ _ _ fun isClass => ?_
  split <;> infer_instance

instance appendText (engine : Engine) [engine.Evolves] (target value : Value) :
    Evolves (appendText engine target value) := by
  have append (handle : Handle) (tail : Bytes) : Evolves (do
      match (← Query.object handle).content with
      | .string bytes => do
        VM.setContent handle (.string (bytes ++ tail))
        VM.grow tail.size
      | _ => do
        VM.fatal .appendToOther
        VM.grow tail.size : VM Unit) := by
    refine ⟨fun machine => .query_bind fun object read => ?_⟩
    split
    · rename_i isString
      refine .bind (.setContent (Query.object_eq_ok_iff.mp read) ?_ rfl) fun _ _ _ => .of_evolves
      rw [Object.class?, isString]
    · exact .of_evolves
  unfold VM.appendText
  refine @seq _ _ _ _ _ fun tail => @seq _ _ _ _ _ fun _ => ?_
  dsimp only
  split <;> infer_instance

instance addPairs (base register count : Nat) : Evolves (addPairs base register count) := by
  unfold VM.addPairs
  infer_instance

instance concatenate (base register : Nat) : Evolves (concatenate base register) := by
  unfold VM.concatenate
  infer_instance

instance newClosure (unit : Bytecode.CodeUnit) (targetClass : Handle) (strict : Bool) :
    Evolves (newClosure unit targetClass strict) := by
  unfold VM.newClosure
  infer_instance

instance executeBody (base register : Nat) (unit : Bytecode.CodeUnit) (index : Nat) :
    Evolves (executeBody base register unit index) := by
  unfold VM.executeBody
  infer_instance

instance internValue (value : Value) : Evolves (internValue value) := by
  unfold VM.internValue
  refine @seq _ _ _ _ _ fun bytes? => ?_
  split <;> infer_instance

/-! ### Instructions -/

instance execute (engine : Engine) [engine.Evolves] (stop : Nat) (frame : Frame)
    (unit : Bytecode.CodeUnit) (instruction : Bytecode.Instruction) :
    Evolves (execute { engine, stop, frame, unit } instruction) := by
  unfold VM.execute
  dsimp only
  split <;> infer_instance

instance step (engine : Engine) [engine.Evolves] (stop : Nat) : Evolves (step engine stop) := by
  unfold VM.step
  refine @seq _ _ _ _ _ fun frame => ?_
  split
  · infer_instance
  · split <;> infer_instance

end RiteVm.VM.Evolves

namespace RiteVm.VM.Evolves

set_option synthInstance.maxSize 3000

variable {α : Type} (engine : Engine) [engine.Evolves]

/-! ### Objects -/

instance strictCopy (proc : Handle) : Evolves (strictCopy proc) := by
  have copy (record : ProcRecord) : Evolves (do
      let classHandle ← Query.coreClass .proc
      VM.allocate { classHandle, content := .proc { record with strict := true } }) := by
    refine ⟨fun machine => .query_bind fun classHandle read => ?_⟩
    obtain rfl : machine.coreClass .proc = classHandle := Except.ok.inj read
    exact .allocate rfl (.core _)
  unfold VM.strictCopy
  infer_instance

instance answersEqual (self other : Value) : Evolves (answersEqual engine self other) := by
  unfold VM.answersEqual
  infer_instance

instance forward (self : Value) (args : Args) : Evolves (forward engine self args) := by
  unfold VM.forward
  infer_instance

instance raiseObject (exception : Handle) : Evolves (raiseObject exception : VM α) := by
  unfold VM.raiseObject
  infer_instance

instance exceptionFor (args : Args) : Evolves (exceptionFor engine args) := by
  unfold VM.exceptionFor
  refine @seq _ _ _ _ _ fun content? => ?_
  split <;> infer_instance

instance raiseArgs (args : Args) : Evolves (raiseArgs engine args) := by
  have raiseNew (rest : Handle → VM Value) [∀ handle, Evolves (rest handle)] : Evolves (do
      let classHandle ← Query.coreClass .runtimeError
      let exception ← newException classHandle (args.get 0)
      rest exception) := by
    rw [← bind_assoc]
    infer_instance
  have raiseGiven : Evolves (do
      match ← VM.exceptionFor engine args with
      | .object handle =>
        if (← Query.object handle).exception?.isSome then VM.raiseObject handle
      | _ => pure ()
      VM.raise .typeError "exception object expected" : VM Value) := by
    refine @seq _ _ _ _ _ fun exception => ?_
    dsimp only
    split <;> infer_instance
  dsimp only at raiseGiven
  unfold VM.raiseArgs
  infer_instance

instance runObjectMethod (self : Value) (args : Args) (method : ObjectMethod) :
    Evolves (runObjectMethod engine self args method) := by
  cases method <;> unfold VM.runObjectMethod <;> infer_instance

/-! ### Modules -/

instance allocateInstance (handle : Handle) : Evolves (allocateInstance handle) where
  evolvesFrom machine := by
    unfold VM.allocateInstance
    refine .query_bind fun record read => ?_
    have given : machine.GivesClass handle := .known (Query.classRecord_eq_ok_iff.mp read)
    have create {content : Content} (plain : (Object.mk .null content false {}).class? = none) :
        EvolvesFrom machine (do
          return Value.object (← VM.allocate { classHandle := handle, content })) :=
      .bind (.allocate plain given) fun _ _ _ => .of_evolves
    split
    · exact .of_evolves
    · exact .of_evolves
    · dsimp only
      split
      · rw [pure_bind]
        exact create rfl
      · rw [pure_bind]
        exact create rfl
      · rw [pure_bind]
        exact create rfl
      · rw [pure_bind]
        exact create rfl
      · rw [pure_bind]
        exact create rfl
      · refine .query_bind fun name _ => .bind .of_evolves fun _ _ raised => ?_
        exact absurd raised raise_ne_ok

instance newClass (args : Args) : Evolves (newClass engine args) := by
  have finish (handle : Handle) : Evolves (do
      let _ ← VM.singletonClass (.object handle)
      match args.block? with
      | some block =>
        let body ← VM.expectProc block
        modifyHeap (·.protect (.object handle))
        let _ ← VM.callProc engine (.object body) [.object handle]
      | none => pure ()
      return Value.object handle : VM Value) := by
    refine @seq _ _ _ _ _ fun _ => ?_
    dsimp only
    split <;> infer_instance
  dsimp only at finish
  have create (superclass : Handle) : Evolves (do
      let record ← Query.classRecord superclass
      if record.kind ≠ .ordinary then VM.raise .typeError "superclass must be a Class"
      let handle ← allocateClass .ordinary (some superclass) record.instances
      let _ ← VM.singletonClass (.object handle)
      match args.block? with
      | some block =>
        let body ← VM.expectProc block
        modifyHeap (·.protect (.object handle))
        let _ ← VM.callProc engine (.object body) [.object handle]
      | none => pure ()
      return Value.object handle : VM Value) := by
    refine ⟨fun machine => .query_bind fun record read => ?_⟩
    have known := Query.classRecord_eq_ok_iff.mp read
    dsimp only
    split
    · exact .bind .of_evolves fun _ _ raised => absurd raised raise_ne_ok
    · rename_i isOrdinary
      exact .bind (allocateBelow known (Decidable.not_not.mp isOrdinary)) fun handle _ _ =>
        (finish handle).evolvesFrom _
  dsimp only at create
  unfold VM.newClass
  infer_instance

instance newInstance (self : Value) (args : Args) : Evolves (newInstance engine self args) := by
  unfold VM.newInstance
  infer_instance

instance symbolArgs (args : Args) : Evolves (symbolArgs args) := by
  unfold VM.symbolArgs
  infer_instance

instance includeAll (handle : Handle) (modules : List Value) :
    Evolves (includeAll handle modules) := by
  unfold VM.includeAll
  infer_instance

instance defineAttribute (handle : Handle) (reader writer : Bool) (name : Symbol) :
    Evolves (defineAttribute handle reader writer name) := by
  unfold VM.defineAttribute
  dsimp only
  infer_instance

instance methodBody (args : Args) : Evolves (methodBody args) := by
  unfold VM.methodBody
  split <;> infer_instance

instance runModuleMethod (self : Value) (args : Args) (method : ModuleMethod) :
    Evolves (runModuleMethod engine self args method) := by
  cases method <;> unfold VM.runModuleMethod
  case name =>
    refine @seq _ _ _ _ _ fun handle => @seq _ _ _ _ _ fun record => ?_
    split <;> infer_instance
  case constGet =>
    refine @seq _ _ _ _ _ fun handle => @seq _ _ _ _ _ fun name => ?_
    refine @seq _ _ _ _ _ fun value? => ?_
    split <;> infer_instance
  all_goals infer_instance

/-! ### Exceptions -/

instance expectException (value : Value) : Evolves (expectException value) := by
  unfold VM.expectException
  dsimp only
  split
  · refine @seq _ _ _ _ _ fun object => ?_
    split <;> infer_instance
  · infer_instance

instance messageValue (value : Value) : Evolves (messageValue engine value) := by
  unfold VM.messageValue
  infer_instance

instance copyException (self message : Value) : Evolves (copyException engine self message) := by
  have copy (handle : Handle) (record : ExceptionRecord) : Evolves (do
      let object ← Query.object handle
      return Value.object (← VM.allocate
        { classHandle := object.classHandle, content := .exception record
          fields := object.fields })) := by
    refine ⟨fun machine => .query_bind fun object read => ?_⟩
    have given : machine.GivesClass object.classHandle := .ofObject (Query.object_eq_ok_iff.mp read)
    exact .bind (.allocate rfl given) fun _ _ _ => .of_evolves
  unfold VM.copyException
  dsimp only
  infer_instance

instance runExceptionMethod (self : Value) (args : Args) (method : ExceptionMethod) :
    Evolves (runExceptionMethod engine self args method) := by
  cases method <;> unfold VM.runExceptionMethod
  case backtrace =>
    refine @seq _ _ _ _ _ fun exception => ?_
    dsimp only
    split <;> infer_instance
  all_goals infer_instance

/-! ### Containers -/

instance callEach (block : Value) (values : List Value) : Evolves (callEach engine block values) := by
  induction values with
  | nil => exact ofValue _
  | cons value rest inductionHypothesis =>
      unfold VM.callEach
      infer_instance

instance callItems (block array : Value) (rounds index : Nat) :
    Evolves (callItems engine block array rounds index) := by
  induction rounds generalizing index with
  | zero => exact ofFailure _
  | succ rounds inductionHypothesis =>
      unfold VM.callItems
      refine @seq _ _ _ _ _ fun item? => ?_
      split <;> infer_instance

instance callPairs (block : Value) (pairs : List (Value × Value)) :
    Evolves (callPairs engine block pairs) := by
  induction pairs with
  | nil => exact ofValue _
  | cons pair rest inductionHypothesis =>
      unfold VM.callPairs
      infer_instance

instance areEqual (left right : Value) : Evolves (areEqual engine left right) := by
  unfold VM.areEqual
  split
  · infer_instance
  · have ask : Evolves (do
        match ← Query.string? left, ← Query.string? right with
        | some left, some right => return left == right
        | _, _ => return (← VM.callWith engine left .opEq [right]).isTruthy : VM Bool) := by
      refine @seq _ _ _ _ _ fun left? => @seq _ _ _ _ _ fun right? => ?_
      split <;> infer_instance
    infer_instance

instance areAllEqual (pairs : List (Value × Value)) : Evolves (areAllEqual engine pairs) := by
  induction pairs with
  | nil => exact ofValue _
  | cons pair rest inductionHypothesis =>
      unfold VM.areAllEqual
      infer_instance

instance popItem (array : Value) : Evolves (popItem array) := by
  unfold VM.popItem
  refine @seq _ _ _ _ _ fun _ => @seq _ _ _ _ _ fun items? => ?_
  split <;> infer_instance

instance runArrayMethod (self : Value) (args : Args) (method : ArrayMethod) :
    Evolves (runArrayMethod engine self args method) := by
  cases method <;> unfold VM.runArrayMethod
  case get =>
    refine @seq _ _ _ _ _ fun _ => @seq _ _ _ _ _ fun start => ?_
    have slice (count : Int64) (items? : Option (Array Value)) : Evolves (
        match sliceOf? (items?.getD #[]) start.toInt count.toInt with
        | some slice => VM.newArray slice
        | none => Pure.pure .nil : VM Value) := by
      split <;> infer_instance
    infer_instance
  case equal =>
    refine @seq _ _ _ _ _ fun left? => @seq _ _ _ _ _ fun right? => ?_
    split <;> infer_instance
  all_goals infer_instance

instance runHashMethod (self : Value) (args : Args) (method : HashMethod) :
    Evolves (runHashMethod engine self args method) := by
  cases method <;> unfold VM.runHashMethod <;> infer_instance

instance runRangeMethod (self : Value) (args : Args) (method : RangeMethod) :
    Evolves (runRangeMethod engine self args method) := by
  cases method <;> unfold VM.runRangeMethod <;> infer_instance

/-! ### Numbers, texts and closures -/

instance countWith (block : Value) (start : Int) (count : Nat) :
    Evolves (countWith engine block start count) := by
  induction count generalizing start with
  | zero => exact ofValue _
  | succ count inductionHypothesis =>
      unfold VM.countWith
      infer_instance

instance runNumberMethod (self : Value) (args : Args) (method : NumberMethod) :
    Evolves (runNumberMethod engine self args method) := by
  cases method <;> unfold VM.runNumberMethod
  case arithmetic op =>
    refine @seq _ _ _ _ _ fun _ => @seq _ _ _ _ _ fun result? => ?_
    split <;> infer_instance
  case comparison op =>
    refine @seq _ _ _ _ _ fun _ => ?_
    split <;> infer_instance
  case negate =>
    dsimp only
    split <;> infer_instance
  case toI =>
    dsimp only
    split
    · split <;> infer_instance
    · infer_instance
  all_goals infer_instance

instance runTextMethod (self : Value) (args : Args) (method : TextMethod) :
    Evolves (runTextMethod self args method) := by
  cases method <;> unfold VM.runTextMethod
  case concat =>
    refine @seq _ _ _ _ _ fun _ => @seq _ _ _ _ _ fun bytes => @seq _ _ _ _ _ fun more? => ?_
    split <;> infer_instance
  case equal =>
    refine @seq _ _ _ _ _ fun left? => @seq _ _ _ _ _ fun right? => ?_
    split <;> infer_instance
  case symbolToS =>
    dsimp only
    split <;> infer_instance
  all_goals infer_instance

instance runClosureMethod (self : Value) (args : Args) (method : ClosureMethod) :
    Evolves (runClosureMethod engine self args method) := by
  cases method <;> unfold VM.runClosureMethod
  case newFiber =>
    dsimp only
    split <;> infer_instance
  all_goals infer_instance

/-- A method runs with methods of a host that evolve the machine. -/
theorem runMethod {hosts : Array HostMethod}
    (evolve : ∀ body ∈ hosts, ∀ self args, Evolves (body engine self args))
    (method : NativeMethod) (self : Value) (args : Args) :
    Evolves (runMethod hosts engine method self args) := by
  unfold VM.runMethod
  cases method with
  | host index =>
      dsimp only
      cases found : hosts[index]? with
      | none => exact ofBreach _
      | some body => exact evolve body (Array.mem_of_getElem? found) self args
  | _ => infer_instance

end RiteVm.VM.Evolves
