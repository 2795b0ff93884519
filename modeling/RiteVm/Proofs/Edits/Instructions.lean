import RiteVm.Call.Binding
import RiteVm.Call.Dispatch
import RiteVm.Call.Enclosing
import RiteVm.Core.Natives
import RiteVm.Execution.Step
import RiteVm.Execution.Program
import RiteVm.Proofs.Edits.Classes

/-!
Contract: what instructions and methods do by themselves are edits.

Owns:
- one instance for each action that lays out arguments, binds parameters or reads the scopes
  around the running frame;
- one instance for each part of an instruction, and of a method that is no bytecode, that
  starts nothing.

Does not own: calls, frames that come and go, and fibers that are switched.
-/

namespace RiteVm.VM.Edits

-- long actions consist of many parts
set_option synthInstance.maxSize 3000

variable {α : Type}

/-! ### Arguments -/

instance setSlots (first : Nat) (values : List Value) : Edits (setSlots first values) := by
  induction values generalizing first with
  | nil => exact ofValue _
  | cons value rest inductionHypothesis =>
      unfold VM.setSlots
      infer_instance

instance normalizeArgs (receiverAt operand : Nat) (withBlock : Bool) :
    Edits (normalizeArgs receiverAt operand withBlock) := by
  unfold VM.normalizeArgs
  dsimp only
  split <;> refine behind fun block => ?_ <;> split
  · infer_instance
  · split <;> infer_instance
  · infer_instance
  · split <;> infer_instance

instance packForMissing (site : CallSite) (name : Symbol) : Edits (packForMissing site name) := by
  unfold VM.packForMissing
  dsimp only
  infer_instance

instance layOutArgs (receiverAt : Nat) (receiver : Value) (args : Args) :
    Edits (layOutArgs receiverAt receiver args) := by
  unfold VM.layOutArgs
  dsimp only
  infer_instance

instance enclosingEnv (level : Nat) : Edits (enclosingEnv level) := by
  unfold VM.enclosingEnv
  refine behind fun env? => ?_
  split <;> infer_instance

instance outwardArg (base level index : Nat) : Edits (outwardArg base level index) := by
  unfold VM.outwardArg
  split <;> infer_instance

instance newDictionary (keywords? : Option Value) : Edits (newDictionary keywords?) := by
  unfold VM.newDictionary
  infer_instance

instance takeKeyword (base : Nat) (name : Symbol) : Edits (takeKeyword base name) := by
  have finish (found : Option Value) : Edits (match found with
      | some value => Pure.pure value
      | none => do VM.raise .argumentError s!"missing keyword: {← Query.symbolText name}" : VM Value) := by
    split <;> infer_instance
  unfold VM.takeKeyword
  refine behind fun digest => behind fun dictionary? => ?_
  dsimp only
  split <;> infer_instance

instance checkKeywords (base : Nat) : Edits (checkKeywords base) := by
  unfold VM.checkKeywords
  refine behind fun dictionary? => ?_
  split
  · refine behind fun pairs? => ?_
    split <;> infer_instance
  · infer_instance

instance argArray (base register operand : Nat) : Edits (argArray base register operand) := by
  unfold VM.argArray
  dsimp only
  infer_instance

instance pushBlock (base register operand : Nat) : Edits (pushBlock base register operand) := by
  unfold VM.pushBlock
  dsimp only
  infer_instance

/-! ### The running frame -/

instance frameEnv : Edits frameEnv := by
  unfold VM.frameEnv
  refine behind fun frame => ?_
  split
  · infer_instance
  · refine behind fun _ => behind fun classHandle => ⟨fun machine wellFormed => ?_⟩
    refine .bind wellFormed (.of_edit rfl (.allocate rfl)) fun env next created wellFormed' _ => ?_
    have live : (next.role? env).isSome := by
      rw [role?_of_allocate wellFormed created]
      rfl
    exact .bind wellFormed' (.of_edit rfl (.scope live)) fun _ last _ wellFormed'' _ =>
      .of_edits wellFormed''

instance placeArgs (base : Nat) (frame : Frame) (spec : Bytecode.ArgSpec) (bound : BoundArgs)
    (keywords? : Option Value) (block : Value) :
    Edits (placeArgs base frame spec bound keywords? block) := by
  have setDictionary (register : Nat) :
      Edits (modifyFrame ({ · with keywordRegister := some register })) :=
    of_frame fun _ => ⟨rfl, rfl, rfl, rfl, rfl⟩
  have enlarge (next skipped : Nat) : Edits (modifyFrame fun frame =>
      { frame with top := max frame.top next, pc := frame.pc + skipped }) :=
    of_frame fun _ => ⟨rfl, rfl, rfl, rfl, rfl⟩
  unfold VM.placeArgs
  dsimp only
  infer_instance

instance enter (base : Nat) (spec : Bytecode.ArgSpec) : Edits (enter base spec) := by
  unfold VM.enter
  dsimp only
  infer_instance

instance newClosure (unit : Bytecode.CodeUnit) (targetClass : Handle) (strict : Bool) :
    Edits (newClosure unit targetClass strict) := by
  unfold VM.newClosure
  infer_instance

/-! ### Parts of instructions -/

instance unitSymbol (unit : Bytecode.CodeUnit) (index : Nat) : Edits (unitSymbol unit index) := by
  unfold VM.unitSymbol
  split <;> infer_instance

instance unitString (unit : Bytecode.CodeUnit) (index : Nat) : Edits (unitString unit index) := by
  unfold VM.unitString
  split <;> infer_instance

instance unitChild (unit : Bytecode.CodeUnit) (index : Nat) : Edits (unitChild unit index) := by
  unfold VM.unitChild
  split <;> infer_instance

instance unitLiteral (unit : Bytecode.CodeUnit) (index : Nat) : Edits (unitLiteral unit index) := by
  unfold VM.unitLiteral
  split <;> infer_instance

instance definitionScope (scope : Value) : Edits (definitionScope scope) := by
  unfold VM.definitionScope
  infer_instance

instance definitionSuperclass (superclass : Value) : Edits (definitionSuperclass superclass) := by
  unfold VM.definitionSuperclass
  refine behind fun isClassOrModule => behind fun isModule => ?_
  split <;> infer_instance

instance scopedConst (scope : Value) (name : Symbol) : Edits (scopedConst scope name) := by
  unfold VM.scopedConst
  refine behind fun handle => behind fun value? => ?_
  split <;> infer_instance

instance matchesRescue (exception rescued : Value) : Edits (matchesRescue exception rescued) := by
  unfold VM.matchesRescue
  refine behind fun isClass => ?_
  split <;> infer_instance

instance internValue (value : Value) : Edits (internValue value) := by
  unfold VM.internValue
  refine behind fun bytes? => ?_
  split <;> infer_instance

/-- Appends bytes to a string, as the end of `STRCAT` does. -/
theorem appendBytes (handle : Handle) (tail : Bytes) : Edits (do
    match (← Query.object handle).content with
    | .string bytes => do
      setContent handle (.string (bytes ++ tail))
      VM.grow tail.size
    | _ => do
      fatal .appendToOther
      VM.grow tail.size : VM Unit) := by
  refine ⟨fun machine wellFormed => .query_bind fun object known => ?_⟩
  split
  · rename_i isString
    exact .bind wellFormed (.setContent (Query.object_eq_ok_iff.mp known) (isString ▸ .string _ _))
      fun _ _ _ wellFormed _ => .of_edits wellFormed
  · exact .of_edits wellFormed

instance addPairs (base register count : Nat) : Edits (addPairs base register count) := by
  unfold VM.addPairs
  infer_instance

instance concatenate (base register : Nat) : Edits (concatenate base register) := by
  unfold VM.concatenate
  infer_instance

instance executeDestructure (base register before after : Nat) :
    Edits (executeDestructure base register before after) := by
  unfold VM.executeDestructure
  infer_instance

instance linkCause (exception : Handle) (ensuring : Option Handle) :
    Edits (linkCause exception ensuring) := by
  unfold VM.linkCause
  split <;> infer_instance

/-! ### Parts of calls -/

instance raiseUndefinedCall (receiver : Value) (name : Symbol) :
    Edits (raiseUndefinedCall receiver name : VM α) := by
  unfold VM.raiseUndefinedCall
  infer_instance

instance resolveCall (receiver : Value) (name : Symbol) (args : Args) :
    Edits (resolveCall receiver name args) := by
  unfold VM.resolveCall
  refine behind fun handle => behind fun found? => ?_
  split
  · infer_instance
  · refine behind fun missing? => ?_
    split <;> infer_instance

instance readProgram (binary : Bytes) : Edits (readProgram binary) := by
  unfold VM.readProgram
  split <;> infer_instance

/-! ### Parts of methods -/

instance strictCopy (proc : Handle) : Edits (strictCopy proc) := by
  unfold VM.strictCopy
  infer_instance

instance allocateInstance (handle : Handle) : Edits (allocateInstance handle) := by
  have create (content : Content) (noFiber : (Object.mk .null content false {}).fiber? = none) :
      Edits (VM.allocate { classHandle := handle, content }) :=
    of_allocate noFiber
  have createPlain := create .plain rfl
  have createHash := create (.hash .empty) rfl
  have createString := create (.string #[]) rfl
  have createArray := create (.array #[]) rfl
  have createException := create (.exception {}) rfl
  unfold VM.allocateInstance
  refine behind fun record => ?_
  split
  · infer_instance
  · infer_instance
  · dsimp only
    split
    case h_6 =>
      refine ⟨fun machine wellFormed => .query_bind fun name _ =>
        .bind wellFormed (.of_edits wellFormed) fun _ _ raised _ _ => ?_⟩
      exact absurd raised raise_ne_ok
    all_goals
      rw [pure_bind]
      infer_instance

instance symbolArgs (args : Args) : Edits (symbolArgs args) := by
  unfold VM.symbolArgs
  infer_instance

instance includeAll (handle : Handle) (modules : List Value) : Edits (includeAll handle modules) := by
  unfold VM.includeAll
  infer_instance

instance defineAttribute (handle : Handle) (reader writer : Bool) (name : Symbol) :
    Edits (defineAttribute handle reader writer name) := by
  unfold VM.defineAttribute
  dsimp only
  infer_instance

instance methodBody (args : Args) : Edits (methodBody args) := by
  unfold VM.methodBody
  split <;> infer_instance

instance expectException (value : Value) : Edits (expectException value) := by
  unfold VM.expectException
  dsimp only
  split
  · refine behind fun object => ?_
    split <;> infer_instance
  · infer_instance

instance arithmetic (op : ArithOp) (left right : Value) : Edits (arithmetic op left right) := by
  unfold VM.arithmetic
  split <;> split <;> infer_instance

instance popItem (array : Value) : Edits (popItem array) := by
  unfold VM.popItem
  refine behind fun _ => behind fun items? => ?_
  split <;> infer_instance

instance packValues (values : List Value) : Edits (packValues values) := by
  unfold VM.packValues
  split <;> infer_instance

/-! ### What observes fibers -/

instance withSignals (number : Nat) (change : FiberSignals → FiberSignals × α) :
    Edits (withSignals number change) :=
  ⟨fun _ _ => .of_edit rfl .aside⟩

instance completeCycle (fiber : Handle) (state : FiberState) : Edits (completeCycle fiber state) := by
  have wake (wakers : List Waker) : Edits (modify fun machine : Machine =>
      { machine with woken := machine.woken ++ wakers } : VM PUnit) :=
    of_modify fun _ => .aside
  unfold VM.completeCycle
  infer_instance

instance resumeWaiter (fiber : Value) : Edits (resumeWaiter fiber) := by
  unfold VM.resumeWaiter
  infer_instance

instance terminationWaiter (fiber : Value) : Edits (terminationWaiter fiber) := by
  unfold VM.terminationWaiter
  infer_instance

instance setFiberState (handle : Handle) (state : FiberState) : Edits (setFiberState handle state) where
  editsFrom machine wellFormed := by
    unfold VM.setFiberState
    refine .query_bind fun record read => ?_
    obtain ⟨object, found, isFiber⟩ :=
      Option.bind_eq_some_iff.mp (Query.fiberRecord_eq_ok_iff.mp read)
    have isContent : object.content = .fiber record := by
      rw [Object.fiber?] at isFiber
      split at isFiber <;> simp_all
    exact .setContent found (isContent ▸ .fiberState record state)

end RiteVm.VM.Edits
