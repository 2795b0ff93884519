import RiteVm.Call.Args
import RiteVm.Call.Engine
import RiteVm.Machine.Variables
import RiteVm.Proofs.Fibers.Quiet

/-!
Contract: new values, exceptions, containers and variables leave fibers alone.

Owns: one instance for each action on objects that are no classes, and for the checks of
arguments and limits.
-/

namespace RiteVm.VM.Quiet

variable {α : Type}

/-! ### New values -/

instance newPlain (classHandle : Handle) : Quiet (allocate { classHandle, content := .plain }) :=
  of_allocate rfl rfl

instance newRecord (classHandle : Handle) (record : ProcRecord) :
    Quiet (allocate { classHandle, content := .proc record }) :=
  of_allocate rfl rfl

instance newData (classHandle : Handle) (record : DataRecord) :
    Quiet (allocate { classHandle, content := .data record }) :=
  of_allocate rfl rfl

instance newExit (classHandle : Handle) (record : ExitRecord) :
    Quiet (allocate { classHandle, content := .exit record }) :=
  of_allocate rfl rfl

theorem newCore (core : CoreClass) (content : Content)
    (noFiber : (Object.mk .null content false {}).fiber? = none)
    (noEnv : (Object.mk .null content false {}).env? = none) : Quiet (newCore core content) := by
  have create (classHandle : Handle) : Quiet (allocate { classHandle, content }) :=
    of_allocate noFiber noEnv
  unfold VM.newCore
  infer_instance

instance newString (bytes : Bytes) : Quiet (newString bytes) := newCore _ _ rfl rfl

instance newText (text : String) : Quiet (newText text) := newString _

instance newArray (items : Array Value) : Quiet (newArray items) := newCore _ _ rfl rfl

instance newHash : Quiet newHash := newCore _ _ rfl rfl

instance newHashOfPairs (pairs : List (Value × Value)) : Quiet (newHashOfPairs pairs) := by
  have evolves (digest : Value → KeyDigest) :
      Quiet (VM.newCore .hash (.hash (.ofPairs digest pairs))) := newCore _ _ rfl rfl
  unfold VM.newHashOfPairs
  infer_instance

instance newRange (first last : Value) (exclusive : Bool) :
    Quiet (newRange first last exclusive) := newCore _ _ rfl rfl

/-! ### Exceptions -/

instance modifyException (handle : Handle) (change : ExceptionRecord → ExceptionRecord) :
    Quiet (modifyException handle change) :=
  .of_modifyObject fun object => by
    obtain ⟨classHandle, content, frozen, fields⟩ := object
    cases content <;> exact ⟨rfl, rfl⟩

instance fillBacktrace (handle : Handle) : Quiet (fillBacktrace handle) := by
  unfold VM.fillBacktrace
  refine @seq _ _ _ _ _ fun exception? => ?_
  split <;> infer_instance

instance newException (classHandle : Handle) (message : Value) :
    Quiet (newException classHandle message) :=
  of_allocate rfl rfl

instance exceptionHere (core : CoreClass) (message : String) :
    Quiet (exceptionHere core message) := by
  unfold VM.exceptionHere
  infer_instance

instance raise (core : CoreClass) (message : String) :
    Quiet (raise core message : VM α) := by
  unfold VM.raise
  infer_instance

instance raiseNameError (message : String) (name : Symbol) :
    Quiet (raiseNameError message name : VM α) := by
  unfold VM.raiseNameError
  infer_instance

instance raiseNoMethod (message : String) (receiver : Value) (name : Symbol) :
    Quiet (raiseNoMethod message receiver name : VM α) := by
  unfold VM.raiseNoMethod
  infer_instance

instance raiseStackError : Quiet (raiseStackError : VM α) := raise _ _

/-! ### Checks -/

instance checkFrozen (value : Value) : Quiet (checkFrozen value) := by
  unfold VM.checkFrozen
  infer_instance

instance expectModule (value : Value) : Quiet (expectModule value) := by
  unfold VM.expectModule
  split <;> infer_instance

instance expectProc (value : Value) : Quiet (expectProc value) := by
  unfold VM.expectProc
  split <;> infer_instance

instance expectFiber (value : Value) : Quiet (expectFiber value) := by
  unfold VM.expectFiber
  split <;> infer_instance

instance expectHash (value : Value) : Quiet (expectHash value) := by
  unfold VM.expectHash
  split <;> infer_instance

/-! ### Arrays and hashes -/

instance grow (bytes : Nat) : Quiet (grow bytes) := growHeap bytes

instance freezeObject (handle : Handle) :
    Quiet (modifyObject handle ({ · with frozen := true })) :=
  .of_modifyObject fun _ => ⟨rfl, rfl⟩

instance freeze (value : Value) : Quiet (freeze value) := by
  unfold VM.freeze
  split <;> infer_instance

instance raiseNoArray (value : Value) : Quiet (raiseNoArray value : VM α) := by
  unfold VM.raiseNoArray
  infer_instance

instance arrayPush (array item : Value) : Quiet (arrayPush array item) := by
  unfold VM.arrayPush
  refine @seq _ _ _ _ _ fun _ => @seq _ _ _ _ _ fun isArray => ?_
  dsimp only
  split <;> infer_instance

instance arrayStore (array : Value) (index : Int) (value : Value) :
    Quiet (arrayStore array index value) := by
  unfold VM.arrayStore
  refine @seq _ _ _ _ _ fun _ => @seq _ _ _ _ _ fun items? => ?_
  have store (size? : Option Nat) (size : Nat) (position : Int) :
      Quiet (match array, size? with
        | .object handle, some _ => do
          VM.modifyItems handle (storeAt · position.toNat value)
          VM.grow ((position.toNat + 1 - size) * 16)
        | _, _ => VM.raiseNoArray array : VM Unit) := by
    split <;> infer_instance
  dsimp only
  infer_instance

instance arrayExtend (array : Value) (more : List Value) : Quiet (arrayExtend array more) := by
  unfold VM.arrayExtend
  refine @seq _ _ _ _ _ fun _ => @seq _ _ _ _ _ fun isArray => ?_
  dsimp only
  split <;> infer_instance

instance withHash (handle : Handle) (change : OrderedHash → OrderedHash × α) :
    Quiet (withHash handle change) where
  quietFrom machine := by
    unfold VM.withHash
    refine .query_bind fun object known => ?_
    split
    · exact .of_quiet
    · rename_i table isHash
      have wasPlain : object.fiber? = none := by
        rw [Object.hash?] at isHash
        rw [Object.fiber?]
        split at isHash <;> simp_all
      exact .bind (.setContent (Query.object_eq_ok_iff.mp known) wasPlain rfl (Object.not_captures rfl))
        fun _ _ _ => .of_quiet

instance storedKey (key : Value) : Quiet (storedKey key) := by
  unfold VM.storedKey
  refine @seq _ _ _ _ _ fun bytes? => @seq _ _ _ _ _ fun frozen => ?_
  split <;> infer_instance

instance hashSet (hash key value : Value) : Quiet (hashSet hash key value) := by
  unfold VM.hashSet
  infer_instance

instance hashDelete (hash key : Value) : Quiet (hashDelete hash key) := by
  unfold VM.hashDelete
  infer_instance

instance hashMerge (into source : Value) : Quiet (hashMerge into source) := by
  unfold VM.hashMerge
  infer_instance

/-! ### Variables -/

instance setField (handle : Handle) (name : Symbol) (value : Value) :
    Quiet (modifyObject handle fun object =>
      { object with fields := object.fields.insert name value }) :=
  .of_modifyObject fun _ => ⟨rfl, rfl⟩

instance setInstanceVar (value : Value) (name : Symbol) (content : Value) :
    Quiet (setInstanceVar value name content) := by
  unfold VM.setInstanceVar
  refine @seq _ _ _ _ _ fun _ => ?_
  split <;> infer_instance

instance setGlobalVar (name : Symbol) (value : Value) : Quiet (setGlobalVar name value) :=
  of_modify fun _ => ⟨rfl, rfl, rfl, rfl, rfl, rfl, rfl, rfl, .refl⟩

/-- The captured variables of an environment are kept in the environment from here on. -/
theorem detach {machine : Machine} {env : Handle} {object : Object} {record : EnvRecord}
    {values : Array Value} (found : machine.heap.get? env = some object)
    (isEnv : object.env? = some record) :
    QuietFrom machine (setContent env (.env { record with storage := .detached values })) := by
  have wasPlain : object.fiber? = none := by
    rw [Object.env?] at isEnv
    rw [Object.fiber?]
    split at isEnv <;> simp_all
  refine .setContent found wasPlain rfl ?_
  rintro id index ⟨detached, fiber, base, count, isDetached, onStack, -⟩
  cases isDetached
  exact nomatch onStack

instance detachEnv (env : Handle) : Quiet (detachEnv env) where
  quietFrom machine := by
    unfold VM.detachEnv
    refine .query_bind fun object known => ?_
    split
    · rename_i isEnv
      refine .query_bind fun values _ => ?_
      exact .bind (detach (Query.object_eq_ok_iff.mp known) isEnv) fun _ _ _ => .of_quiet
    · exact .of_quiet

/-! ### Arguments -/

instance raiseArity (given : Nat) (expected : String) :
    Quiet (raiseArity given expected : VM α) := raise _ _

instance checkArity (args : Args) (fewest : Nat) (most? : Option Nat) :
    Quiet (checkArity args fewest most?) := by
  unfold VM.checkArity
  infer_instance

instance intArg (args : Args) (index : Nat) : Quiet (intArg args index) := by
  unfold VM.intArg
  split <;> infer_instance

instance symbolOf (value : Value) : Quiet (symbolOf value) := by
  unfold VM.symbolOf
  split
  · infer_instance
  · refine @seq _ _ _ _ _ fun bytes? => ?_
    split <;> infer_instance

instance symbolArg (args : Args) (index : Nat) : Quiet (symbolArg args index) := symbolOf _

instance blockToYield (args : Args) : Quiet (blockToYield args) := by
  unfold VM.blockToYield
  split <;> infer_instance

instance blockToKeep (args : Args) : Quiet (blockToKeep args) := by
  unfold VM.blockToKeep
  split <;> infer_instance

/-! ### Results and limits -/

instance resolve (result : Except Failure α) : Quiet (resolve result) := by
  unfold VM.resolve
  split <;> infer_instance

instance checkDepth : Quiet checkDepth := by
  unfold VM.checkDepth
  infer_instance

instance checkNativeDepth : Quiet checkNativeDepth := by
  unfold VM.checkNativeDepth
  infer_instance

instance finishCall (result : Except Failure Exit) : Quiet (finishCall result) := by
  unfold VM.finishCall
  split <;> infer_instance

end RiteVm.VM.Quiet
