import RiteVm.Call.Args
import RiteVm.Call.Engine
import RiteVm.Host.Storage
import RiteVm.Proofs.Edits.Actions

/-!
Contract: new values, containers and variables are edits.

Owns: one instance for each action on objects that are no classes, for the checks of
arguments and limits, and for what a host keeps in use.
-/

namespace RiteVm.VM.Edits

variable {α : Type}

/-! ### New values -/

instance newRecord (classHandle : Handle) (record : ProcRecord) :
    Edits (allocate { classHandle, content := .proc record }) :=
  of_allocate rfl

instance newEnv (classHandle : Handle) (record : EnvRecord) :
    Edits (allocate { classHandle, content := .env record }) :=
  of_allocate rfl

instance newExit (classHandle : Handle) (record : ExitRecord) :
    Edits (allocate { classHandle, content := .exit record }) :=
  of_allocate rfl

theorem newCore (core : CoreClass) (content : Content)
    (noFiber : (Object.mk .null content false {}).fiber? = none) : Edits (newCore core content) := by
  have create (classHandle : Handle) : Edits (allocate { classHandle, content }) :=
    of_allocate noFiber
  unfold VM.newCore
  infer_instance

instance newArray (items : Array Value) : Edits (newArray items) := newCore _ _ rfl

instance newHash : Edits newHash := newCore _ _ rfl

instance newHashOfPairs (pairs : List (Value × Value)) : Edits (newHashOfPairs pairs) := by
  have create (digest : Value → KeyDigest) :
      Edits (VM.newCore .hash (.hash (.ofPairs digest pairs))) := newCore _ _ rfl
  unfold VM.newHashOfPairs
  infer_instance

instance newRange (first last : Value) (exclusive : Bool) :
    Edits (newRange first last exclusive) := newCore _ _ rfl

instance newObject (classHandle : Handle) : Edits (newObject classHandle) := by
  have create : Edits (allocate { classHandle, content := .plain }) := of_allocate rfl
  unfold VM.newObject
  infer_instance

instance newData (classHandle : Handle) (typeName : String) (payload : Int) :
    Edits (newData classHandle typeName payload) := by
  have create : Edits (allocate { classHandle, content := .data { typeName, payload } }) :=
    of_allocate rfl
  unfold VM.newData
  infer_instance

/-! ### Checks -/

instance checkFrozen (value : Value) : Edits (checkFrozen value) := by
  unfold VM.checkFrozen
  infer_instance

instance expectModule (value : Value) : Edits (expectModule value) := by
  unfold VM.expectModule
  split <;> infer_instance

instance expectProc (value : Value) : Edits (expectProc value) := by
  unfold VM.expectProc
  split <;> infer_instance

instance expectFiber (value : Value) : Edits (expectFiber value) := by
  unfold VM.expectFiber
  split <;> infer_instance

instance expectHash (value : Value) : Edits (expectHash value) := by
  unfold VM.expectHash
  split <;> infer_instance

/-! ### Arrays and hashes -/

instance grow (bytes : Nat) : Edits (grow bytes) := growHeap bytes

instance freezeObject (handle : Handle) :
    Edits (modifyObject handle ({ · with frozen := true })) :=
  .of_modifyObject fun _ => .same _

instance freeze (value : Value) : Edits (freeze value) := by
  unfold VM.freeze
  split <;> infer_instance

instance raiseNoArray (value : Value) : Edits (raiseNoArray value : VM α) := by
  unfold VM.raiseNoArray
  infer_instance

instance arrayPush (array item : Value) : Edits (arrayPush array item) := by
  unfold VM.arrayPush
  refine behind fun _ => behind fun isArray => ?_
  dsimp only
  split <;> infer_instance

instance arrayStore (array : Value) (index : Int) (value : Value) :
    Edits (arrayStore array index value) := by
  unfold VM.arrayStore
  refine behind fun _ => behind fun items? => ?_
  have store (size? : Option Nat) (size : Nat) (position : Int) :
      Edits (match array, size? with
        | .object handle, some _ => do
          VM.modifyItems handle (storeAt · position.toNat value)
          VM.grow ((position.toNat + 1 - size) * 16)
        | _, _ => VM.raiseNoArray array : VM Unit) := by
    split <;> infer_instance
  dsimp only
  infer_instance

instance arrayExtend (array : Value) (more : List Value) : Edits (arrayExtend array more) := by
  unfold VM.arrayExtend
  refine behind fun _ => behind fun isArray => ?_
  dsimp only
  split <;> infer_instance

instance withHash (handle : Handle) (change : OrderedHash → OrderedHash × α) :
    Edits (withHash handle change) where
  editsFrom machine wellFormed := by
    unfold VM.withHash
    refine .query_bind fun object known => ?_
    split
    · exact .of_edits wellFormed
    · rename_i table isHash
      have isContent : object.content = .hash table := by
        rw [Object.hash?] at isHash
        split at isHash <;> simp_all
      refine .bind wellFormed (.setContent (Query.object_eq_ok_iff.mp known) ?_)
        fun _ _ _ wellFormed _ => .of_edits wellFormed
      exact isContent ▸ .hash _ _

instance storedKey (key : Value) : Edits (storedKey key) := by
  unfold VM.storedKey
  refine behind fun bytes? => behind fun frozen => ?_
  split <;> infer_instance

instance hashSet (hash key value : Value) : Edits (hashSet hash key value) := by
  unfold VM.hashSet
  infer_instance

instance hashDelete (hash key : Value) : Edits (hashDelete hash key) := by
  unfold VM.hashDelete
  infer_instance

instance hashMerge (into source : Value) : Edits (hashMerge into source) := by
  unfold VM.hashMerge
  infer_instance

/-! ### Variables -/

instance setField (handle : Handle) (name : Symbol) (value : Value) :
    Edits (modifyObject handle fun object =>
      { object with fields := object.fields.insert name value }) :=
  .of_modifyObject fun _ => .same _

instance setInstanceVar (value : Value) (name : Symbol) (content : Value) :
    Edits (setInstanceVar value name content) := by
  unfold VM.setInstanceVar
  refine behind fun _ => ?_
  split <;> infer_instance

instance setGlobalVar (name : Symbol) (value : Value) : Edits (setGlobalVar name value) :=
  of_modify fun _ => .aside

/-- The captured variables of an environment are kept in the environment from here on. -/
theorem detach {machine : Machine} {env : Handle} {object : Object} {record : EnvRecord}
    {values : Array Value} (found : machine.heap.get? env = some object)
    (isEnv : object.env? = some record) :
    EditsFrom machine (setContent env (.env { record with storage := .detached values })) := by
  have isContent : object.content = .env record := by
    rw [Object.env?] at isEnv
    split at isEnv <;> simp_all
  exact .setContent found (isContent ▸ .detach record values)

instance detachEnv (env : Handle) : Edits (detachEnv env) where
  editsFrom machine wellFormed := by
    unfold VM.detachEnv
    refine .query_bind fun object known => ?_
    split
    · rename_i isEnv
      refine .query_bind fun values _ => ?_
      exact .bind wellFormed (detach (Query.object_eq_ok_iff.mp known) isEnv)
        fun _ _ _ wellFormed _ => .of_edits wellFormed
    · exact .of_edits wellFormed

instance setCapturedVar (env : Handle) (register : Nat) (value : Value) :
    Edits (setCapturedVar env register value) where
  editsFrom machine wellFormed := by
    unfold VM.setCapturedVar
    refine .query_bind fun record read => ?_
    obtain ⟨object, found, isEnv⟩ :=
      Option.bind_eq_some_iff.mp (Query.envRecord_eq_ok_iff.mp read)
    split
    · split
      · exact .of_edit rfl (.slots fun _ => ⟨rfl, rfl, rfl⟩)
      · exact .of_edits wellFormed
    · exact detach found isEnv

/-! ### Arguments -/

instance raiseArity (given : Nat) (expected : String) :
    Edits (raiseArity given expected : VM α) := raise _ _

instance checkArity (args : Args) (fewest : Nat) (most? : Option Nat) :
    Edits (checkArity args fewest most?) := by
  unfold VM.checkArity
  infer_instance

instance intArg (args : Args) (index : Nat) : Edits (intArg args index) := by
  unfold VM.intArg
  split <;> infer_instance

instance symbolOf (value : Value) : Edits (symbolOf value) := by
  unfold VM.symbolOf
  split
  · infer_instance
  · refine behind fun bytes? => ?_
    split <;> infer_instance

instance symbolArg (args : Args) (index : Nat) : Edits (symbolArg args index) := symbolOf _

instance blockToYield (args : Args) : Edits (blockToYield args) := by
  unfold VM.blockToYield
  split <;> infer_instance

instance blockToKeep (args : Args) : Edits (blockToKeep args) := by
  unfold VM.blockToKeep
  split <;> infer_instance

/-! ### Limits -/

instance checkDepth : Edits checkDepth := by
  unfold VM.checkDepth
  infer_instance

instance checkNativeDepth : Edits checkNativeDepth := by
  unfold VM.checkNativeDepth
  infer_instance

/-! ### What a host keeps in use -/

instance modifyPayload (value : Value) (change : Int → Int) : Edits (modifyPayload value change) := by
  have modify (handle : Handle) : Edits (modifyObject handle fun object =>
      match object.content with
      | .data record =>
        { object with content := .data { record with payload := change record.payload } }
      | _ => object) :=
    .of_modifyObject fun object => by
      obtain ⟨classHandle, content, frozen, fields⟩ := object
      cases content <;> first | exact .data _ _ | exact .same _
  exact optionForM _

instance pin (value : Value) : Edits (pin value) where
  editsFrom machine _ := by
    cases value <;> exact .of_edit rfl (.accounts rfl rfl)

end RiteVm.VM.Edits
