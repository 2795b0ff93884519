import RiteVm.Proofs.Fibers.QuietClasses
import RiteVm.Proofs.MethodCache.Freshness

/-!
Contract: look-ups and failures leave the records of all classes as they are.

Owns:
- the record of a class without its cached ancestors;
- actions that keep all of these records however they end, with one instance for each
  look-up and for each way to raise;
- actions that keep them if they fail, with one instance for each action that edits a
  class behind its checks.
-/

namespace RiteVm

variable {α β : Type}

namespace Machine

/-- The record of a class or module, without the list that is cached in it. -/
def record? (machine : Machine) (handle : Handle) : Option ClassRecord :=
  (machine.class? handle).map ({ · with ancestors := none })

variable {machine next : Machine} {handle : Handle}

theorem record?_congr (same : next.class? handle = machine.class? handle) :
    next.record? handle = machine.record? handle := by
  rw [record?, record?, same]

theorem record?_setAncestors {record : ClassRecord} (known : machine.class? handle = some record)
    (ancestors : Option CachedAncestors) (other : Handle) :
    (machine.setClass handle { record with ancestors }).record? other = machine.record? other := by
  rw [record?, class?_setClass known]
  split
  · rename_i isHandle
    rw [record?, isHandle, known]
    rfl
  · rfl

/-- What is read from the records alone is the same in machines with the same records. -/
theorem map_class?_of_record? {γ : Type} {read : ClassRecord → γ}
    (alone : ∀ record : ClassRecord, read { record with ancestors := none } = read record)
    (same : next.record? handle = machine.record? handle) :
    (next.class? handle).map read = (machine.class? handle).map read := by
  have byRecord (machine : Machine) :
      (machine.class? handle).map read = (machine.record? handle).map read := by
    rw [record?, Option.map_map]
    exact Option.map_congr fun record _ => (alone record).symm
  rw [byRecord, byRecord, same]

theorem parents?_of_record? (same : next.record? handle = machine.record? handle) :
    next.parents? handle = machine.parents? handle :=
  map_class?_of_record? (fun _ => rfl) same

theorem ownMethod?_of_record? {name : Symbol}
    (same : next.record? handle = machine.record? handle) :
    next.ownMethod? name handle = machine.ownMethod? name handle := by
  have byMap (machine : Machine) : machine.ownMethod? name handle =
      ((machine.class? handle).map fun record =>
        (record.methods.get? name).map fun method => { method, owner := handle }).join := by
    rw [ownMethod?]
    cases machine.class? handle <;> rfl
  rw [byMap, byMap, map_class?_of_record? (fun _ => rfl) same]

end Machine

namespace VM

/-! ### Actions that keep all records -/

/-- An action behind which every class has the record that it had, however it ends. -/
class KeepsRecords (action : VM α) : Prop where
  keeps : ∀ machine : Machine, machine.heap.WellFormed →
    (action.after machine).heap.WellFormed ∧
      ∀ handle, (action.after machine).record? handle = machine.record? handle

namespace KeepsRecords

instance ofValue (value : α) : KeepsRecords (pure value : VM α) :=
  ⟨fun _ wellFormed => ⟨wellFormed, fun _ => rfl⟩⟩

instance ofFailure (failure : Failure) : KeepsRecords (throw failure : VM α) :=
  ⟨fun _ wellFormed => ⟨wellFormed, fun _ => rfl⟩⟩

instance ofQuery (query : Query α) : KeepsRecords (liftM query : VM α) where
  keeps machine wellFormed := by
    cases read : query machine with
    | ok value =>
        rw [after_of_ok (liftM_of_ok read)]
        exact ⟨wellFormed, fun _ => rfl⟩
    | error breach =>
        rw [after_of_error (liftM_of_error read)]
        exact ⟨wellFormed, fun _ => rfl⟩

instance seq {action : VM α} {rest : α → VM β} [first : KeepsRecords action]
    [second : ∀ value, KeepsRecords (rest value)] : KeepsRecords (action >>= rest) where
  keeps machine wellFormed := by
    obtain ⟨stillWellFormed, same⟩ := first.keeps machine wellFormed
    cases outcome : action machine with
    | ok value between =>
        rw [after_of_ok outcome] at stillWellFormed same
        obtain ⟨wellFormedAtLast, sameAtLast⟩ := (second value).keeps between stillWellFormed
        rw [after_bind_of_ok outcome]
        exact ⟨wellFormedAtLast, fun handle => (sameAtLast handle).trans (same handle)⟩
    | error failure between =>
        rw [after_of_error outcome] at stillWellFormed same
        rw [after_of_error (bind_of_error outcome)]
        exact ⟨stillWellFormed, same⟩

instance mapped (change : α → β) {action : VM α} [KeepsRecords action] :
    KeepsRecords (change <$> action) := by
  rw [map_eq_pure_bind]
  infer_instance

instance branch (condition : Prop) [Decidable condition] {yes no : VM α} [KeepsRecords yes]
    [KeepsRecords no] : KeepsRecords (if condition then yes else no) := by
  split <;> infer_instance

/-- A change that keeps the cells of the heap. -/
theorem ofModify {change : Machine → Machine}
    (cells : ∀ machine, (change machine).heap.cells = machine.heap.cells)
    (free : ∀ machine, (change machine).heap.free = machine.heap.free) :
    KeepsRecords (modify change : VM PUnit) where
  keeps machine wellFormed := by
    refine ⟨wellFormed.of_cells (cells machine) (free machine), fun handle => ?_⟩
    have same : (change machine).heap.get? handle = machine.heap.get? handle := by
      rw [Heap.get?, Heap.get?, cells]
    exact Machine.record?_congr (congrArg (·.bind Object.class?) same)

theorem allocate {object : Object} (plain : object.class? = none) :
    KeepsRecords (VM.allocate object) where
  keeps _ wellFormed := by
    refine ⟨wellFormed.allocate object, fun handle => Machine.record?_congr ?_⟩
    exact Machine.Hierarchical.class?_allocate_plain wellFormed plain handle

/-! ### Raised exceptions -/

instance newText (text : String) : KeepsRecords (newText text) := by
  have place (classHandle : Handle) :
      KeepsRecords (VM.allocate { classHandle, content := .string (Text.utf8 text) }) :=
    allocate rfl
  unfold VM.newText VM.newString VM.newCore
  infer_instance

instance newException (classHandle : Handle) (message : Value) :
    KeepsRecords (newException classHandle message) := allocate rfl

instance modifyException (handle : Handle) (change : ExceptionRecord → ExceptionRecord) :
    KeepsRecords (modifyException handle change) where
  keeps machine wellFormed := by
    refine ⟨wellFormed.modify handle _, fun other => Machine.record?_congr ?_⟩
    refine Machine.class?_rewrite (fun object _ => ?_) other
    obtain ⟨classHandle, content, frozen, fields⟩ := object
    cases content <;> rfl

instance fillBacktrace (handle : Handle) : KeepsRecords (fillBacktrace handle) := by
  unfold VM.fillBacktrace
  refine @seq _ _ _ _ _ fun exception? => ?_
  split <;> infer_instance

instance exceptionHere (core : CoreClass) (message : String) :
    KeepsRecords (exceptionHere core message) := by
  unfold VM.exceptionHere
  infer_instance

instance raise (core : CoreClass) (message : String) :
    KeepsRecords (raise core message : VM α) := by
  unfold VM.raise
  infer_instance

instance raiseNameError (message : String) (name : Symbol) :
    KeepsRecords (raiseNameError message name : VM α) := by
  unfold VM.raiseNameError
  infer_instance

instance raiseUndefinedMethod (handle : Handle) (name : Symbol) :
    KeepsRecords (raiseUndefinedMethod handle name : VM α) := by
  unfold VM.raiseUndefinedMethod
  infer_instance

/-! ### Checks and look-ups -/

instance checkClass (handle : Handle) : KeepsRecords (checkClass handle) := by
  unfold VM.checkClass
  infer_instance

instance checkFrozenClass (handle : Handle) : KeepsRecords (checkFrozenClass handle) := by
  unfold VM.checkFrozenClass
  infer_instance

instance internText (name : String) : KeepsRecords (internText name) where
  keeps machine wellFormed := by
    obtain ⟨symbol, symbols, interned⟩ : ∃ symbol symbols,
        VM.internText name machine = .ok symbol { machine with symbols } := ⟨_, _, rfl⟩
    rw [after_of_ok interned]
    exact ⟨wellFormed, fun _ => rfl⟩

instance ancestors (handle : Handle) : KeepsRecords (ancestors handle) := by
  have within (fuel : Nat) : KeepsRecords (ancestorsWithin fuel handle) := by
    refine ⟨fun machine wellFormed => ⟨?_, fun other => ?_⟩⟩
    · exact ((Quiet.ancestorsWithin fuel handle).quietFrom machine).heap wellFormed |>.wellFormed
    · refine @kept_ancestorsWithin _ (·.record? other) (fun machine handle record list known => ?_)
        fuel handle machine
      exact Machine.record?_setAncestors known list other
  unfold VM.ancestors
  infer_instance

instance findMethod (handle : Handle) (name : Symbol) : KeepsRecords (findMethod handle name) := by
  have keep (found : FoundMethod) : KeepsRecords (cacheMethod handle name found) :=
    ofModify (fun _ => rfl) fun _ => rfl
  unfold VM.findMethod
  refine @seq _ _ _ _ _ fun cached? => ?_
  split
  · infer_instance
  · refine @seq _ _ _ _ _ fun list => @seq _ _ _ _ _ fun found? => ?_
    split <;> infer_instance

end KeepsRecords

/-! ### Actions that fail without a trace -/

/-- An action that keeps every record if it fails. -/
class FailsCleanly (action : VM α) : Prop where
  cleanly : ∀ {machine next : Machine} {failure : Failure}, machine.heap.WellFormed →
    action machine = .error failure next →
    ∀ handle, next.record? handle = machine.record? handle

namespace FailsCleanly

instance ofKeeping {action : VM α} [keeps : KeepsRecords action] : FailsCleanly action where
  cleanly {machine next failure} wellFormed failed handle := by
    rw [← (keeps.keeps machine wellFormed).2 handle, after_of_error failed]

/-- What fails cleanly may stand behind what keeps the records. -/
instance behind {action : VM α} {rest : α → VM β} [first : KeepsRecords action]
    [second : ∀ value, FailsCleanly (rest value)] : FailsCleanly (action >>= rest) where
  cleanly {machine next failure} wellFormed failed handle := by
    obtain ⟨stillWellFormed, same⟩ := first.keeps machine wellFormed
    cases outcome : action machine with
    | ok value between =>
        rw [after_of_ok outcome] at stillWellFormed same
        rw [bind_of_ok outcome] at failed
        rw [(second value).cleanly stillWellFormed failed handle, same]
    | error _ between =>
        rw [after_of_error outcome] at same
        obtain ⟨-, rfl⟩ := EStateM.Result.error.inj ((bind_of_error outcome).symm.trans failed)
        exact same handle

instance branch (condition : Prop) [Decidable condition] {yes no : VM α} [FailsCleanly yes]
    [FailsCleanly no] : FailsCleanly (if condition then yes else no) := by
  split <;> infer_instance

/-- The change of a class fails only if there is no class. -/
instance modifyClass (handle : Handle) (change : ClassRecord → ClassRecord) :
    FailsCleanly (modifyClass handle change) where
  cleanly {machine next failure} _ failed other := by
    cases known : machine.class? handle with
    | none =>
        obtain ⟨_, stopped⟩ := modifyClass_of_class?_eq_none known
        obtain ⟨-, rfl⟩ := EStateM.Result.error.inj (stopped.symm.trans failed)
        rfl
    | some record => exact nomatch (modifyClass_of_class? known).symm.trans failed

/-- An action that does not fail may stand behind what fails cleanly. -/
theorem before {action : VM α} {rest : α → VM β} [first : FailsCleanly action]
    (succeeds : ∀ value machine failure next, rest value machine ≠ .error failure next) :
    FailsCleanly (action >>= rest) where
  cleanly {machine next failure} wellFormed failed handle := by
    cases outcome : action machine with
    | ok value between =>
        exact absurd ((bind_of_ok outcome).symm.trans failed) (succeeds value between failure next)
    | error _ between =>
        obtain ⟨-, rfl⟩ := EStateM.Result.error.inj ((bind_of_error outcome).symm.trans failed)
        exact first.cleanly wellFormed outcome handle

instance includeModule (handle module : Handle) : FailsCleanly (includeModule handle module) := by
  have enter : FailsCleanly (do
      VM.modifyClass handle fun record => { record with includes := record.includes.push module }
      VM.invalidateHierarchy) := before fun _ _ _ _ => nofun
  have whenModule : FailsCleanly (do
      VM.checkFrozenClass handle
      if (← VM.ancestors handle).contains module then return
      if (← VM.ancestors module).contains handle then
        VM.raise .argumentError "cyclic include detected"
      VM.modifyClass handle fun record => { record with includes := record.includes.push module }
      VM.invalidateHierarchy) := by
    dsimp only
    infer_instance
  dsimp only at whenModule
  unfold VM.includeModule
  refine @behind _ _ _ _ _ fun refused => ?_
  dsimp only
  split <;> infer_instance

instance addMethod (handle : Handle) (name : Symbol) (method : Method) :
    FailsCleanly (addMethod handle name method) := before fun _ _ _ _ => nofun

instance setMethod (handle : Handle) (name : Symbol) (method : Method) :
    FailsCleanly (setMethod handle name method) := by
  unfold VM.setMethod
  infer_instance

instance defineMethod (handle : Handle) (name : String) (body : NativeMethod) :
    FailsCleanly (defineMethod handle name body) := by
  unfold VM.defineMethod
  infer_instance

instance undefMethod (handle : Handle) (name : Symbol) :
    FailsCleanly (undefMethod handle name) := by
  unfold VM.undefMethod
  refine @behind _ _ _ _ _ fun _ => @behind _ _ _ _ _ fun found? => ?_
  split <;> infer_instance

instance aliasMethod (handle : Handle) (new old : Symbol) :
    FailsCleanly (aliasMethod handle new old) := by
  unfold VM.aliasMethod
  refine @behind _ _ _ _ _ fun _ => @behind _ _ _ _ _ fun found? => ?_
  split <;> infer_instance

end FailsCleanly

end VM

end RiteVm
