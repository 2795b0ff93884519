import RiteVm.Call.Args
import RiteVm.Call.Engine
import RiteVm.Machine.Variables
import RiteVm.Proofs.Evolution.Actions

/-!
Contract: new values, exceptions, containers and variables only evolve the machine.

Owns: one instance for each action on objects that are no classes, for the checks of
arguments, and for nested loops.
-/

namespace RiteVm.VM.Evolves

variable {α : Type}

/-! ### New values -/

/-- A new object that takes its class from the machine. -/
theorem newCore (core : CoreClass) (content : Content)
    (plain : (Object.mk .null content false {}).class? = none) :
    Evolves (newCore core content) where
  evolvesFrom machine := by
    unfold VM.newCore
    refine .query_bind fun classHandle known => ?_
    obtain rfl : machine.coreClass core = classHandle := Except.ok.inj known
    exact .bind (.allocate plain (.core core)) fun _ _ _ => .of_evolves

instance newString (bytes : Bytes) : Evolves (newString bytes) := newCore _ _ rfl

instance newText (text : String) : Evolves (newText text) := newString _

instance newArray (items : Array Value) : Evolves (newArray items) := newCore _ _ rfl

instance newHash : Evolves newHash := newCore _ _ rfl

instance newHashOfPairs (pairs : List (Value × Value)) : Evolves (newHashOfPairs pairs) := by
  have evolves (digest : Value → KeyDigest) :
      Evolves (VM.newCore .hash (.hash (.ofPairs digest pairs))) := newCore _ _ rfl
  unfold VM.newHashOfPairs
  infer_instance

instance newRange (first last : Value) (exclusive : Bool) :
    Evolves (newRange first last exclusive) := newCore _ _ rfl

/-! ### Exceptions -/

instance modifyException (handle : Handle) (change : ExceptionRecord → ExceptionRecord) :
    Evolves (modifyException handle change) :=
  .of_modifyObject fun object => by
    obtain ⟨classHandle, content, frozen, fields⟩ := object
    cases content <;> exact ⟨rfl, rfl⟩

instance fillBacktrace (handle : Handle) : Evolves (fillBacktrace handle) := by
  unfold VM.fillBacktrace
  refine @seq _ _ _ _ _ fun exception? => ?_
  split <;> infer_instance

/-- A new exception of a core class. -/
instance newCoreException (core : CoreClass) (message : Value) :
    Evolves (liftM (Query.coreClass core) >>= (newException · message)) where
  evolvesFrom machine := by
    refine .query_bind fun classHandle known => ?_
    obtain rfl : machine.coreClass core = classHandle := Except.ok.inj known
    exact .allocate rfl (.core core)

instance exceptionHere (core : CoreClass) (message : String) :
    Evolves (exceptionHere core message) := by
  unfold VM.exceptionHere
  have regrouped (message : Value) :
      (do
        let classHandle ← liftM (Query.coreClass core)
        let exception ← newException classHandle message
        VM.fillBacktrace exception
        Pure.pure exception : VM Handle) =
      (do
        let exception ← liftM (Query.coreClass core) >>= (newException · message)
        VM.fillBacktrace exception
        Pure.pure exception) := by
    rw [bind_assoc]
  simp only [regrouped]
  infer_instance

instance raise (core : CoreClass) (message : String) :
    Evolves (raise core message : VM α) := by
  unfold VM.raise
  infer_instance

instance raiseNameError (message : String) (name : Symbol) :
    Evolves (raiseNameError message name : VM α) := by
  unfold VM.raiseNameError
  infer_instance

instance raiseNoMethod (message : String) (receiver : Value) (name : Symbol) :
    Evolves (raiseNoMethod message receiver name : VM α) := by
  unfold VM.raiseNoMethod
  infer_instance

instance raiseStackError : Evolves (raiseStackError : VM α) := raise _ _

/-! ### Checks -/

instance checkFrozen (value : Value) : Evolves (checkFrozen value) := by
  unfold VM.checkFrozen
  infer_instance

instance expectModule (value : Value) : Evolves (expectModule value) := by
  unfold VM.expectModule
  split <;> infer_instance

instance expectProc (value : Value) : Evolves (expectProc value) := by
  unfold VM.expectProc
  split <;> infer_instance

instance expectFiber (value : Value) : Evolves (expectFiber value) := by
  unfold VM.expectFiber
  split <;> infer_instance

instance expectHash (value : Value) : Evolves (expectHash value) := by
  unfold VM.expectHash
  split <;> infer_instance

/-! ### Arrays and hashes -/

instance grow (bytes : Nat) : Evolves (grow bytes) := growHeap bytes

instance freezeObject (handle : Handle) :
    Evolves (modifyObject handle ({ · with frozen := true })) :=
  .of_modifyObject fun _ => ⟨rfl, rfl⟩

instance freeze (value : Value) : Evolves (freeze value) := by
  unfold VM.freeze
  split <;> infer_instance

instance raiseNoArray (value : Value) : Evolves (raiseNoArray value : VM α) := by
  unfold VM.raiseNoArray
  infer_instance

instance arrayPush (array item : Value) : Evolves (arrayPush array item) := by
  unfold VM.arrayPush
  refine @seq _ _ _ _ _ fun _ => @seq _ _ _ _ _ fun isArray => ?_
  dsimp only
  split <;> infer_instance

instance arrayStore (array : Value) (index : Int) (value : Value) :
    Evolves (arrayStore array index value) := by
  unfold VM.arrayStore
  refine @seq _ _ _ _ _ fun _ => @seq _ _ _ _ _ fun items? => ?_
  have store (size? : Option Nat) (size : Nat) (position : Int) :
      Evolves (match array, size? with
        | .object handle, some _ => do
          VM.modifyItems handle (storeAt · position.toNat value)
          VM.grow ((position.toNat + 1 - size) * 16)
        | _, _ => VM.raiseNoArray array : VM Unit) := by
    split <;> infer_instance
  dsimp only
  infer_instance

instance arrayExtend (array : Value) (more : List Value) : Evolves (arrayExtend array more) := by
  unfold VM.arrayExtend
  refine @seq _ _ _ _ _ fun _ => @seq _ _ _ _ _ fun isArray => ?_
  dsimp only
  split <;> infer_instance

instance withHash (handle : Handle) (change : OrderedHash → OrderedHash × α) :
    Evolves (withHash handle change) where
  evolvesFrom machine := by
    unfold VM.withHash
    refine .query_bind fun object known => ?_
    split
    · exact .of_evolves
    · rename_i table isHash
      have wasPlain : object.class? = none := by
        rw [Object.hash?] at isHash
        rw [Object.class?]
        split at isHash <;> simp_all
      exact .bind (.setContent (Query.object_eq_ok_iff.mp known) wasPlain rfl) fun _ _ _ => .of_evolves

instance storedKey (key : Value) : Evolves (storedKey key) := by
  unfold VM.storedKey
  refine @seq _ _ _ _ _ fun bytes? => @seq _ _ _ _ _ fun frozen => ?_
  split <;> infer_instance

instance hashSet (hash key value : Value) : Evolves (hashSet hash key value) := by
  unfold VM.hashSet
  infer_instance

instance hashDelete (hash key : Value) : Evolves (hashDelete hash key) := by
  unfold VM.hashDelete
  infer_instance

instance hashMerge (into source : Value) : Evolves (hashMerge into source) := by
  unfold VM.hashMerge
  infer_instance

/-! ### Variables -/

instance setField (handle : Handle) (name : Symbol) (value : Value) :
    Evolves (modifyObject handle fun object =>
      { object with fields := object.fields.insert name value }) :=
  .of_modifyObject fun _ => ⟨rfl, rfl⟩

instance setInstanceVar (value : Value) (name : Symbol) (content : Value) :
    Evolves (setInstanceVar value name content) := by
  unfold VM.setInstanceVar
  refine @seq _ _ _ _ _ fun _ => ?_
  split <;> infer_instance

instance setGlobalVar (name : Symbol) (value : Value) : Evolves (setGlobalVar name value) :=
  of_outside (fun _ => rfl) (fun _ => rfl) (fun _ => rfl)

/-- A record that was read is that of an object, so its storage may be replaced. -/
theorem setStorage {machine : Machine} {env : Handle} {record : EnvRecord} {storage : EnvStorage}
    (found : (machine.heap.get? env).bind Object.env? = some record) :
    EvolvesFrom machine (setContent env (.env { record with storage })) := by
  obtain ⟨object, known, isEnv⟩ := Option.bind_eq_some_iff.mp found
  refine .setContent known ?_ rfl
  rw [Object.env?] at isEnv
  rw [Object.class?]
  split at isEnv <;> simp_all

instance setCapturedVar (env : Handle) (register : Nat) (value : Value) :
    Evolves (setCapturedVar env register value) where
  evolvesFrom machine := by
    unfold VM.setCapturedVar
    refine .query_bind fun record known => ?_
    split
    · have store (id : ContextId) (index : Nat) : Evolves (modify (·.modifyContext id fun context =>
          { context with stack := context.stack.setIfInBounds index value }) : VM PUnit) :=
        of_outside (fun _ => rfl) (fun _ => rfl) (fun _ => rfl)
      exact .of_evolves
    · exact setStorage (Query.envRecord_eq_ok_iff.mp known)

instance detachEnv (env : Handle) : Evolves (detachEnv env) where
  evolvesFrom machine := by
    unfold VM.detachEnv
    refine .query_bind fun object known => ?_
    split
    · rename_i isEnv
      refine .query_bind fun values _ => ?_
      have found : (machine.heap.get? env).bind Object.env? = object.env? := by
        rw [Query.object_eq_ok_iff.mp known, Option.bind_some]
      exact .bind (setStorage (found.trans isEnv)) fun _ _ _ => .of_evolves
    · exact .of_evolves

/-! ### Arguments -/

instance raiseArity (given : Nat) (expected : String) :
    Evolves (raiseArity given expected : VM α) := raise _ _

instance checkArity (args : Args) (fewest : Nat) (most? : Option Nat) :
    Evolves (checkArity args fewest most?) := by
  unfold VM.checkArity
  infer_instance

instance intArg (args : Args) (index : Nat) : Evolves (intArg args index) := by
  unfold VM.intArg
  split <;> infer_instance

instance symbolOf (value : Value) : Evolves (symbolOf value) := by
  unfold VM.symbolOf
  split
  · infer_instance
  · refine @seq _ _ _ _ _ fun bytes? => ?_
    split <;> infer_instance

instance symbolArg (args : Args) (index : Nat) : Evolves (symbolArg args index) := symbolOf _

instance blockToYield (args : Args) : Evolves (blockToYield args) := by
  unfold VM.blockToYield
  split <;> infer_instance

instance blockToKeep (args : Args) : Evolves (blockToKeep args) := by
  unfold VM.blockToKeep
  split <;> infer_instance

/-! ### Nested loops -/

instance resolve (result : Except Failure α) : Evolves (resolve result) := by
  unfold VM.resolve
  split <;> infer_instance

instance checkDepth : Evolves checkDepth := by
  unfold VM.checkDepth
  infer_instance

instance checkNativeDepth : Evolves checkNativeDepth := by
  unfold VM.checkNativeDepth
  infer_instance

instance nested {action : VM α} [Evolves action] : Evolves (nested action) := by
  have enter : Evolves (modify fun machine : Machine =>
      { machine with nativeDepth := machine.nativeDepth + 1 } : VM PUnit) :=
    of_outside (fun _ => rfl) (fun _ => rfl) (fun _ => rfl)
  have leave : Evolves (modify fun machine : Machine =>
      { machine with nativeDepth := machine.nativeDepth - 1 } : VM PUnit) :=
    of_outside (fun _ => rfl) (fun _ => rfl) (fun _ => rfl)
  unfold VM.nested
  infer_instance

instance finishCall (result : Except Failure Exit) : Evolves (finishCall result) := by
  unfold VM.finishCall
  split <;> infer_instance

end RiteVm.VM.Evolves
