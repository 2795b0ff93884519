import RiteVm.Execution.Step
import RiteVm.Proofs.Evolution.Actions

/-!
Contract: which actions can fail because of a fault of the running code.

Owns:
- the failures that are the fault of a code unit;
- failing for no such fault but given ones, and the rules for the ways in which actions are
  put together;
- one instance for each action that starts no loop and no method.

Does not own: which instruction can fail for which fault.

Only instructions look into the tables of a code unit. So no action that they are made of
fails because of one, whatever the machine is.
-/

namespace RiteVm

/-- Whether a failure for good is the fault of the code that runs: an entry that its unit
does not have, or an instruction that is none. -/
def FatalCause.isCodeFault : FatalCause → Bool
  | .unnamedSymbol _ | .noStringLiteral _ | .poolIndex _ | .childIndex _
  | .invalidInstruction _ | .unsupportedPrefix _ => true
  | _ => false

/-- Whether a failure is the fault of the code that runs. -/
def Failure.isCodeFault : Failure → Bool
  | .fatal cause => cause.isCodeFault
  | _ => false

namespace VM

-- long actions consist of many parts
set_option synthInstance.maxSize 3000

/-- The only faults of the code that an action fails for are given ones. -/
class FaultsOnly {α : Type} (faults : Set Failure) (action : VM α) : Prop where
  mem : ∀ machine failure next, action machine = .error failure next → failure.isCodeFault →
    failure ∈ faults

namespace FaultsOnly

variable {faults : Set Failure} {α β : Type}

/-! ### Composition -/

section Composition

variable {action : VM α} {rest : α → VM β}

/-- What always succeeds. -/
theorem of_ok {value : Machine → α} {change : Machine → Machine}
    (succeeds : ∀ machine, action machine = .ok (value machine) (change machine)) :
    FaultsOnly faults action :=
  ⟨fun machine _ _ failed => nomatch (succeeds machine).symm.trans failed⟩

instance ofValue (value : α) : FaultsOnly faults (pure value : VM α) := of_ok fun _ => rfl

instance ofMachine : FaultsOnly faults (MonadState.get : VM Machine) := of_ok fun _ => rfl

instance ofModify (change : Machine → Machine) : FaultsOnly faults (modify change : VM PUnit) :=
  of_ok fun _ => rfl

/-- A failure that is no fault of the code, or a given one. -/
theorem of_failure {failure : Failure} (given : failure.isCodeFault → failure ∈ faults) :
    FaultsOnly faults (throw failure : VM α) where
  mem _ _ _ failed := by
    cases failed
    exact given

instance ofRaised (exception : Handle) :
    FaultsOnly faults (throw (.raised exception) : VM α) := of_failure nofun

instance ofUnwinding (target : Nat) (value : Value) :
    FaultsOnly faults (throw (.unwinding target value) : VM α) := of_failure nofun

instance ofBreach (cause : Breach) : FaultsOnly faults (VM.breach cause : VM α) :=
  of_failure nofun

theorem of_fatal {cause : FatalCause} (noFault : cause.isCodeFault = false) :
    FaultsOnly faults (VM.fatal cause : VM α) :=
  of_failure fun isFault => nomatch noFault.symm.trans isFault

instance ofQuery (query : Query α) : FaultsOnly faults (liftM query : VM α) where
  mem machine failure next failed := by
    cases read : query machine with
    | ok value => exact nomatch (liftM_of_ok read).symm.trans failed
    | error breach =>
        cases (liftM_of_error read).symm.trans failed
        exact nofun

instance seq [first : FaultsOnly faults action] [second : ∀ value, FaultsOnly faults (rest value)] :
    FaultsOnly faults (action >>= rest) where
  mem machine failure next failed := by
    cases result : action machine with
    | ok value between =>
        rw [bind_of_ok result] at failed
        exact (second value).mem between failure next failed
    | error _ _ =>
        cases (bind_of_error result).symm.trans failed
        exact first.mem machine failure next result

/-- The action behind a part of it whose value it depends on. -/
theorem behind [FaultsOnly faults action] (others : ∀ value, FaultsOnly faults (rest value)) :
    FaultsOnly faults (action >>= rest) :=
  seq

instance mapped (change : α → β) [FaultsOnly faults action] : FaultsOnly faults (change <$> action) := by
  rw [map_eq_pure_bind]
  infer_instance

instance branch (condition : Prop) [Decidable condition] {yes no : VM α} [FaultsOnly faults yes]
    [FaultsOnly faults no] : FaultsOnly faults (if condition then yes else no) := by
  split <;> infer_instance

instance listMapM [each : ∀ value, FaultsOnly faults (rest value)] (list : List α) :
    FaultsOnly faults (list.mapM rest) := by
  induction list with
  | nil =>
      rw [List.mapM_nil]
      infer_instance
  | cons first more inductionHypothesis =>
      rw [List.mapM_cons]
      infer_instance

instance listFoldlM {action : β → α → VM β}
    [each : ∀ state value, FaultsOnly faults (action state value)] (initial : β) (list : List α) :
    FaultsOnly faults (list.foldlM action initial) := by
  induction list generalizing initial with
  | nil => exact ofValue _
  | cons first rest inductionHypothesis => exact seq

instance listForIn {action : α → β → VM (ForInStep β)}
    [each : ∀ value state, FaultsOnly faults (action value state)] (list : List α) (initial : β) :
    FaultsOnly faults (forIn list initial action) := by
  induction list generalizing initial with
  | nil => exact ofValue _
  | cons first rest inductionHypothesis =>
      rw [List.forIn_cons]
      refine behind fun step => ?_
      cases step <;> infer_instance

instance optionMapM [each : ∀ value, FaultsOnly faults (rest value)] (option : Option α) :
    FaultsOnly faults (option.mapM rest) := by
  cases option
  · exact inferInstanceAs (FaultsOnly faults (pure _))
  · exact mapped _

instance optionForM {action : α → VM PUnit} [each : ∀ value, FaultsOnly faults (action value)]
    (option : Option α) : FaultsOnly faults (option.forM action) := by
  cases option
  · exact inferInstanceAs (FaultsOnly faults (pure _))
  · exact each _

end Composition

/-! ### Changes of the machine -/

instance modifyHeap (change : Heap → Heap) : FaultsOnly faults (modifyHeap change) := ofModify _

instance modifyContext (change : Context → Context) : FaultsOnly faults (modifyContext change) :=
  ofModify _

instance modifyFrame (change : Frame → Frame) : FaultsOnly faults (modifyFrame change) := ofModify _

instance setSlot (index : Nat) (value : Value) : FaultsOnly faults (setSlot index value) :=
  ofModify _

instance setRegister (base register : Nat) (value : Value) :
    FaultsOnly faults (setRegister base register value) := ofModify _

instance allocate (object : Object) : FaultsOnly faults (allocate object) := of_ok fun _ => rfl

instance modifyObject (handle : Handle) (change : Object → Object) :
    FaultsOnly faults (modifyObject handle change) := ofModify _

instance setContent (handle : Handle) (content : Content) :
    FaultsOnly faults (setContent handle content) := ofModify _

instance modifyItems (handle : Handle) (change : Array Value → Array Value) :
    FaultsOnly faults (modifyItems handle change) := ofModify _

instance intern (name : Bytes) : FaultsOnly faults (intern name) := of_ok fun _ => rfl

instance grow (bytes : Nat) : FaultsOnly faults (grow bytes) := ofModify _

instance setGlobalVar (name : Symbol) (value : Value) : FaultsOnly faults (setGlobalVar name value) :=
  ofModify _

instance invalidateMethods : FaultsOnly faults invalidateMethods := ofModify _

instance cacheMethod (handle : Handle) (name : Symbol) (found : FoundMethod) :
    FaultsOnly faults (cacheMethod handle name found) := ofModify _

instance pushFrame (frame : Frame) : FaultsOnly faults (pushFrame frame) := ofModify _

instance truncateFrames (height : Nat) : FaultsOnly faults (truncateFrames height) := ofModify _

/-! ### Values and exceptions -/

instance newCore (core : CoreClass) (content : Content) : FaultsOnly faults (newCore core content) := by
  unfold VM.newCore
  infer_instance

instance newString (bytes : Bytes) : FaultsOnly faults (newString bytes) := newCore _ _

instance newArray (items : Array Value) : FaultsOnly faults (newArray items) := newCore _ _

instance newHash : FaultsOnly faults newHash := newCore _ _

instance newHashOfPairs (pairs : List (Value × Value)) : FaultsOnly faults (newHashOfPairs pairs) := by
  unfold VM.newHashOfPairs
  infer_instance

instance newRange (first last : Value) (exclusive : Bool) :
    FaultsOnly faults (newRange first last exclusive) := newCore _ _

instance modifyException (handle : Handle) (change : ExceptionRecord → ExceptionRecord) :
    FaultsOnly faults (modifyException handle change) := modifyObject _ _

instance fillBacktrace (handle : Handle) : FaultsOnly faults (fillBacktrace handle) := by
  unfold VM.fillBacktrace
  refine behind fun object => ?_
  split <;> infer_instance

instance exceptionHere (core : CoreClass) (message : String) :
    FaultsOnly faults (exceptionHere core message) := by
  unfold VM.exceptionHere VM.newText VM.newException
  infer_instance

instance raise (core : CoreClass) (message : String) : FaultsOnly faults (raise core message : VM α) := by
  unfold VM.raise
  infer_instance

instance raiseNameError (message : String) (name : Symbol) :
    FaultsOnly faults (raiseNameError message name : VM α) := by
  unfold VM.raiseNameError
  infer_instance

instance raiseNoMethod (message : String) (receiver : Value) (name : Symbol) :
    FaultsOnly faults (raiseNoMethod message receiver name : VM α) := by
  unfold VM.raiseNoMethod
  infer_instance

instance raiseStackError : FaultsOnly faults (raiseStackError : VM α) := raise _ _

instance checkFrozen (value : Value) : FaultsOnly faults (checkFrozen value) := by
  unfold VM.checkFrozen
  infer_instance

instance expectModule (value : Value) : FaultsOnly faults (expectModule value) := by
  unfold VM.expectModule
  dsimp only
  split <;> infer_instance

instance expectProc (value : Value) : FaultsOnly faults (expectProc value) := by
  unfold VM.expectProc
  dsimp only
  split <;> infer_instance

instance expectHash (value : Value) : FaultsOnly faults (expectHash value) := by
  unfold VM.expectHash
  dsimp only
  split <;> infer_instance

/-! ### Arrays, hashes and variables -/

instance freeze (value : Value) : FaultsOnly faults (freeze value) := by
  unfold VM.freeze
  split <;> infer_instance

instance raiseNoArray (value : Value) : FaultsOnly faults (raiseNoArray value : VM α) := by
  unfold VM.raiseNoArray
  infer_instance

instance arrayStore (array : Value) (index : Int) (value : Value) :
    FaultsOnly faults (arrayStore array index value) := by
  unfold VM.arrayStore
  refine behind fun _ => behind fun items? => ?_
  have store (size? : Option Nat) (size : Nat) (position : Int) :
      FaultsOnly faults (match array, size? with
        | .object handle, some _ => do
          VM.modifyItems handle (storeAt · position.toNat value)
          VM.grow ((position.toNat + 1 - size) * 16)
        | _, _ => VM.raiseNoArray array : VM Unit) := by
    split <;> infer_instance
  dsimp only
  infer_instance

instance arrayExtend (array : Value) (more : List Value) :
    FaultsOnly faults (arrayExtend array more) := by
  unfold VM.arrayExtend
  refine behind fun _ => behind fun isArray => ?_
  dsimp only
  split <;> infer_instance

instance withHash (handle : Handle) (change : OrderedHash → OrderedHash × α) :
    FaultsOnly faults (withHash handle change) := by
  unfold VM.withHash
  refine behind fun object => ?_
  split <;> infer_instance

instance storedKey (key : Value) : FaultsOnly faults (storedKey key) := by
  unfold VM.storedKey
  refine behind fun bytes? => behind fun frozen => ?_
  split <;> infer_instance

instance hashSet (hash key value : Value) : FaultsOnly faults (hashSet hash key value) := by
  unfold VM.hashSet
  infer_instance

instance hashMerge (into source : Value) : FaultsOnly faults (hashMerge into source) := by
  unfold VM.hashMerge
  infer_instance

instance setInstanceVar (value : Value) (name : Symbol) (content : Value) :
    FaultsOnly faults (setInstanceVar value name content) := by
  unfold VM.setInstanceVar
  refine behind fun _ => ?_
  split <;> infer_instance

instance setCapturedVar (env : Handle) (register : Nat) (value : Value) :
    FaultsOnly faults (setCapturedVar env register value) := by
  unfold VM.setCapturedVar
  refine behind fun record => ?_
  split <;> infer_instance

instance detachEnv (env : Handle) : FaultsOnly faults (detachEnv env) := by
  unfold VM.detachEnv
  refine behind fun object => ?_
  split <;> infer_instance

/-! ### Classes -/

instance modifyClass (handle : Handle) (change : ClassRecord → ClassRecord) :
    FaultsOnly faults (modifyClass handle change) := by
  unfold VM.modifyClass
  infer_instance

instance ancestorsWithin (fuel : Nat) (handle : Handle) :
    FaultsOnly faults (ancestorsWithin fuel handle) := by
  induction fuel generalizing handle with
  | zero => exact ofBreach _
  | succ fuel inductionHypothesis =>
      unfold VM.ancestorsWithin
      refine behind fun machine => behind fun record => ?_
      split <;> infer_instance

instance ancestors (handle : Handle) : FaultsOnly faults (ancestors handle) := by
  unfold VM.ancestors
  infer_instance

instance isKindOf (value : Value) (handle : Handle) : FaultsOnly faults (isKindOf value handle) := by
  unfold VM.isKindOf
  infer_instance

instance checkClass (handle : Handle) : FaultsOnly faults (checkClass handle) := by
  unfold VM.checkClass
  infer_instance

instance checkFrozenClass (handle : Handle) : FaultsOnly faults (checkFrozenClass handle) := by
  unfold VM.checkFrozenClass
  infer_instance

instance findMethod (handle : Handle) (name : Symbol) : FaultsOnly faults (findMethod handle name) := by
  unfold VM.findMethod
  refine behind fun cached? => ?_
  split
  · infer_instance
  · refine behind fun list => behind fun found? => ?_
    split <;> infer_instance

instance findSuperMethod (handle owner : Handle) (name : Symbol) :
    FaultsOnly faults (findSuperMethod handle owner name) := by
  unfold VM.findSuperMethod
  refine behind fun list => ?_
  split
  · infer_instance
  · refine behind fun found? => ?_
    split <;> infer_instance

instance setMethod (handle : Handle) (name : Symbol) (method : Method) :
    FaultsOnly faults (setMethod handle name method) := by
  unfold VM.setMethod VM.addMethod
  infer_instance

instance raiseUndefinedMethod (handle : Handle) (name : Symbol) :
    FaultsOnly faults (raiseUndefinedMethod handle name : VM α) := by
  unfold VM.raiseUndefinedMethod
  infer_instance

instance undefMethod (handle : Handle) (name : Symbol) :
    FaultsOnly faults (undefMethod handle name) := by
  unfold VM.undefMethod
  refine behind fun _ => behind fun found? => ?_
  split <;> infer_instance

instance aliasMethod (handle : Handle) (new old : Symbol) :
    FaultsOnly faults (aliasMethod handle new old) := by
  unfold VM.aliasMethod
  refine behind fun _ => behind fun found? => ?_
  split <;> infer_instance

instance nameClass (outer handle : Handle) (name : Symbol) :
    FaultsOnly faults (nameClass outer handle name) := by
  unfold VM.nameClass
  dsimp only
  infer_instance

instance setConst (handle : Handle) (name : Symbol) (value : Value) :
    FaultsOnly faults (setConst handle name value) := by
  unfold VM.setConst
  refine behind fun _ => ?_
  dsimp only
  split <;> infer_instance

instance constInAncestors (handle : Handle) (name : Symbol) :
    FaultsOnly faults (constInAncestors handle name) := by
  unfold VM.constInAncestors
  infer_instance

instance lexicalConst (scope : Handle) (name : Symbol) :
    FaultsOnly faults (lexicalConst scope name) := by
  unfold VM.lexicalConst
  refine behind fun bound => behind fun inScope? => ?_
  split
  · infer_instance
  · refine behind fun inAncestors? => ?_
    split <;> infer_instance

instance getClassVar (handle : Handle) (name : Symbol) :
    FaultsOnly faults (getClassVar handle name) := by
  unfold VM.getClassVar
  refine behind fun list => behind fun entry? => ?_
  split <;> infer_instance

instance setClassVar (handle : Handle) (name : Symbol) (value : Value) :
    FaultsOnly faults (setClassVar handle name value) := by
  unfold VM.setClassVar
  infer_instance

instance allocateClass (kind : ClassKind) (superclass : Option Handle) (instances : InstanceKind) :
    FaultsOnly faults (allocateClass kind superclass instances) := by
  unfold VM.allocateClass
  infer_instance

instance attachSingleton (handle superclass : Handle) :
    FaultsOnly faults (attachSingleton handle superclass) := by
  unfold VM.attachSingleton VM.invalidateHierarchy
  infer_instance

instance singletonOf (fuel : Nat) (handle : Handle) : FaultsOnly faults (singletonOf fuel handle) := by
  induction fuel generalizing handle with
  | zero => exact ofBreach _
  | succ fuel inductionHypothesis =>
      have attach (object : Object) : FaultsOnly faults (match object.class? with
          | none => VM.attachSingleton handle object.classHandle
          | some record =>
            if record.kind = .module then VM.attachSingleton handle object.classHandle
            else
              match record.superclass with
              | some superclass => do VM.attachSingleton handle (← VM.singletonOf fuel superclass)
              | none => do VM.attachSingleton handle (← Query.coreClass .classClass)) := by
        split
        · infer_instance
        · split
          · infer_instance
          · split <;> infer_instance
      unfold VM.singletonOf
      dsimp only
      infer_instance

instance singletonClass (value : Value) : FaultsOnly faults (singletonClass value) := by
  unfold VM.singletonClass
  split <;> infer_instance

instance openClass (outer : Handle) (name : Symbol) (superclass? : Option Handle) :
    FaultsOnly faults (openClass outer name superclass?) := by
  unfold VM.openClass
  refine behind fun record => ?_
  split
  · refine behind fun existing? => ?_
    split
    · infer_instance
    · dsimp only
      infer_instance
  · dsimp only
    infer_instance

instance openModule (outer : Handle) (name : Symbol) : FaultsOnly faults (openModule outer name) := by
  unfold VM.openModule
  refine behind fun record => ?_
  split
  · refine behind fun isModule => ?_
    split <;> infer_instance
  · infer_instance

/-! ### Arguments and scopes -/

instance checkDepth : FaultsOnly faults checkDepth := by
  unfold VM.checkDepth
  infer_instance

instance checkNativeDepth : FaultsOnly faults checkNativeDepth := by
  unfold VM.checkNativeDepth
  infer_instance

instance setSlots (first : Nat) (values : List Value) : FaultsOnly faults (setSlots first values) := by
  induction values generalizing first with
  | nil => exact ofValue _
  | cons value rest inductionHypothesis =>
      unfold VM.setSlots
      infer_instance

instance normalizeArgs (receiverAt operand : Nat) (withBlock : Bool) :
    FaultsOnly faults (normalizeArgs receiverAt operand withBlock) := by
  unfold VM.normalizeArgs
  dsimp only
  split <;> refine behind fun block => ?_ <;> split
  · infer_instance
  · split <;> infer_instance
  · infer_instance
  · split <;> infer_instance

instance packForMissing (site : CallSite) (name : Symbol) :
    FaultsOnly faults (packForMissing site name) := by
  unfold VM.packForMissing
  dsimp only
  infer_instance

instance layOutArgs (receiverAt : Nat) (receiver : Value) (args : Args) :
    FaultsOnly faults (layOutArgs receiverAt receiver args) := by
  unfold VM.layOutArgs
  dsimp only
  infer_instance

instance newProc (unit : Bytecode.CodeUnit) (upper env : Option Handle) (targetClass : Handle)
    (strict : Bool) : FaultsOnly faults (newProc unit upper env targetClass strict) := by
  unfold VM.newProc
  infer_instance

instance frameEnv : FaultsOnly faults frameEnv := by
  unfold VM.frameEnv
  refine behind fun frame => ?_
  split <;> infer_instance

instance enclosingEnv (level : Nat) : FaultsOnly faults (enclosingEnv level) := by
  unfold VM.enclosingEnv
  refine behind fun env? => ?_
  split
  · infer_instance
  · exact of_fatal rfl

instance outwardArg (base level index : Nat) : FaultsOnly faults (outwardArg base level index) := by
  unfold VM.outwardArg
  split <;> infer_instance

instance argArray (base register operand : Nat) : FaultsOnly faults (argArray base register operand) := by
  unfold VM.argArray
  dsimp only
  infer_instance

instance pushBlock (base register operand : Nat) :
    FaultsOnly faults (pushBlock base register operand) := by
  unfold VM.pushBlock
  dsimp only
  infer_instance

instance newDictionary (keywords? : Option Value) : FaultsOnly faults (newDictionary keywords?) := by
  unfold VM.newDictionary
  infer_instance

instance placeArgs (base : Nat) (frame : Frame) (spec : Bytecode.ArgSpec) (bound : BoundArgs)
    (keywords? : Option Value) (block : Value) :
    FaultsOnly faults (placeArgs base frame spec bound keywords? block) := by
  unfold VM.placeArgs
  dsimp only
  infer_instance

instance enter (base : Nat) (spec : Bytecode.ArgSpec) : FaultsOnly faults (enter base spec) := by
  unfold VM.enter VM.raiseArity
  dsimp only
  infer_instance

instance takeKeyword (base : Nat) (name : Symbol) : FaultsOnly faults (takeKeyword base name) := by
  have finish (found : Option Value) : FaultsOnly faults (match found with
      | some value => Pure.pure value
      | none => do VM.raise .argumentError s!"missing keyword: {← Query.symbolText name}" : VM Value) := by
    split <;> infer_instance
  unfold VM.takeKeyword
  refine behind fun digest => behind fun dictionary? => ?_
  dsimp only
  split <;> infer_instance

instance checkKeywords (base : Nat) : FaultsOnly faults (checkKeywords base) := by
  unfold VM.checkKeywords
  refine behind fun dictionary? => ?_
  split
  · refine behind fun pairs? => ?_
    split <;> infer_instance
  · infer_instance

/-! ### Frames -/

instance pushProcFrame (site : CallSite) (proc : Handle) (owner : Option Handle)
    (method : Option Symbol) (block : Value) (boundary : Bool) :
    FaultsOnly faults (pushProcFrame site proc owner method block boundary) := by
  unfold VM.pushProcFrame
  dsimp only
  infer_instance

instance pushNativeFrame (site : CallSite) (owner : Handle) (method : Symbol) (block : Value) :
    FaultsOnly faults (pushNativeFrame site owner method block) := by
  unfold VM.pushNativeFrame
  dsimp only
  infer_instance

instance popFrame? : FaultsOnly faults popFrame? := by
  unfold VM.popFrame?
  refine behind fun context => ?_
  split <;> infer_instance

instance becomeProc : FaultsOnly faults becomeProc := by
  unfold VM.becomeProc
  refine behind fun frame => behind fun receiver => behind fun proc => behind fun record => ?_
  dsimp only
  split <;> infer_instance

instance takeYielded : FaultsOnly faults takeYielded := by
  unfold VM.takeYielded
  dsimp only
  infer_instance

instance raiseUndefinedCall (receiver : Value) (name : Symbol) :
    FaultsOnly faults (raiseUndefinedCall receiver name : VM α) := by
  unfold VM.raiseUndefinedCall
  infer_instance

instance resolveCall (receiver : Value) (name : Symbol) (args : Args) :
    FaultsOnly faults (resolveCall receiver name args) := by
  unfold VM.resolveCall
  refine behind fun handle => behind fun found? => ?_
  split
  · infer_instance
  · refine behind fun missing? => ?_
    split <;> infer_instance

/-! ### Exits -/

instance divert (handler : Bytecode.CatchHandler) (target : ExitTarget) (value : Value) :
    FaultsOnly faults (divert handler target value) := by
  unfold VM.divert VM.enterHandler
  infer_instance

instance leaveFrames (target : Nat) (value : Value) (stop height : Nat) :
    FaultsOnly faults (leaveFrames target value stop height) := by
  induction height with
  | zero => exact ofBreach _
  | succ top inductionHypothesis =>
      unfold VM.leaveFrames
      refine behind fun handler? => ?_
      split
      · infer_instance
      · refine behind fun frame? => ?_
        split <;> infer_instance

instance exitTo (target : Nat) (value : Value) (stop : Nat) :
    FaultsOnly faults (exitTo target value stop) := by
  unfold VM.exitTo
  infer_instance

instance returnValue (value : Value) (stop : Nat) : FaultsOnly faults (returnValue value stop) := by
  unfold VM.returnValue
  infer_instance

instance jumpUnwinding (target : Nat) : FaultsOnly faults (jumpUnwinding target) := by
  have leave (leaves? : Option Bytecode.CatchHandler) : FaultsOnly faults (match leaves? with
      | some handler => VM.divert handler (.address target) .nil
      | none => do
        VM.modifyContext ({ · with pending := none })
        VM.modifyFrame ({ · with ensuring := none, pc := target })) := by
    split <;> infer_instance
  unfold VM.jumpUnwinding
  refine behind fun covering? => ?_
  dsimp only
  split <;> infer_instance

instance resumePending (record : Value) (stop : Nat) :
    FaultsOnly faults (resumePending record stop) := by
  unfold VM.resumePending
  refine behind fun _ => ?_
  split
  · infer_instance
  · refine behind fun object => ?_
    split <;> infer_instance
  · infer_instance

instance loadPending : FaultsOnly faults loadPending := by
  unfold VM.loadPending
  refine behind fun context => ?_
  split <;> infer_instance

instance breakOut (value : Value) (stop : Nat) : FaultsOnly faults (breakOut value stop) := by
  unfold VM.breakOut
  refine behind fun depth => behind fun frame => ?_
  split
  · infer_instance
  · rename_i proc _
    have leave : FaultsOnly faults (do
        match ← Query.homeFrame? proc with
        | some home =>
          if home < depth - 1 then VM.exitTo (home + 1) value stop
          else VM.raise .localJumpError "break from proc-closure"
        | none => VM.raise .localJumpError "break from proc-closure" : VM (Option Exit)) := by
      refine behind fun home? => ?_
      split <;> infer_instance
    infer_instance

instance returnFromMethod (value : Value) (stop : Nat) :
    FaultsOnly faults (returnFromMethod value stop) := by
  unfold VM.returnFromMethod
  refine behind fun frame => ?_
  split
  · infer_instance
  · refine behind fun isStrict => ?_
    split
    · infer_instance
    · refine behind fun bound => behind fun outermost => behind fun object => ?_
      split
      · infer_instance
      · refine behind fun home? => ?_
        split <;> infer_instance

/-! ### Parts of instructions -/

instance arithmetic (op : ArithOp) (left right : Value) :
    FaultsOnly faults (arithmetic op left right) := by
  unfold VM.arithmetic
  split <;> split <;> infer_instance

instance executeDestructure (base register before after : Nat) :
    FaultsOnly faults (executeDestructure base register before after) := by
  unfold VM.executeDestructure
  infer_instance

instance definitionScope (scope : Value) : FaultsOnly faults (definitionScope scope) := by
  unfold VM.definitionScope
  infer_instance

instance definitionSuperclass (superclass : Value) :
    FaultsOnly faults (definitionSuperclass superclass) := by
  unfold VM.definitionSuperclass
  refine behind fun isClassOrModule => behind fun isModule => ?_
  split <;> infer_instance

instance scopedConst (scope : Value) (name : Symbol) : FaultsOnly faults (scopedConst scope name) := by
  unfold VM.scopedConst
  refine behind fun handle => behind fun value? => ?_
  split <;> infer_instance

instance matchesRescue (exception rescued : Value) :
    FaultsOnly faults (matchesRescue exception rescued) := by
  unfold VM.matchesRescue
  refine behind fun isClass => ?_
  split <;> infer_instance

instance addPairs (base register count : Nat) : FaultsOnly faults (addPairs base register count) := by
  unfold VM.addPairs
  infer_instance

instance concatenate (base register : Nat) : FaultsOnly faults (concatenate base register) := by
  unfold VM.concatenate
  infer_instance

instance newClosure (unit : Bytecode.CodeUnit) (targetClass : Handle) (strict : Bool) :
    FaultsOnly faults (newClosure unit targetClass strict) := by
  unfold VM.newClosure
  infer_instance

instance internValue (value : Value) : FaultsOnly faults (internValue value) := by
  unfold VM.internValue
  refine behind fun bytes? => ?_
  split <;> infer_instance

end FaultsOnly

end VM

end RiteVm
