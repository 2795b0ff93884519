import RiteVm.Proofs.ClassGraph.Records

/-!
Contract: a failed operation on a class changes no look-up.

Owns:
- the operations that edit a class, as one data type;
- that each of them keeps the records of all classes if it fails, except for the removal of
  an entry that ends a search, which drops the entry and then fails;
- what this means for every look-up in every machine that a host reaches.

The removal of such an entry is the one exception: the name is then found in the ancestors
again.
-/

namespace RiteVm

namespace VM

variable {machine next : Machine} {failure : Failure}

/-! ### Constants -/

namespace FailsCleanly

instance nameClass (outer handle : Handle) (name : Symbol) :
    FailsCleanly (nameClass outer handle name) := by
  unfold VM.nameClass
  dsimp only
  infer_instance

/-- Behind the checks, only the naming of a stored class can fail. -/
instance setConst (handle : Handle) (name : Symbol) (value : Value) :
    FailsCleanly (setConst handle name value) where
  cleanly {machine next failure} wellFormed failed := by
    have stores {between last : Machine} {cause : Failure}
        (isClass : ∃ record, between.class? handle = some record) :
        VM.modifyClass handle (fun record =>
          { record with constants := record.constants.insert name value }) between ≠
            .error cause last := by
      obtain ⟨record, known⟩ := isClass
      rw [modifyClass_of_class? known]
      exact nofun
    rw [VM.setConst] at failed
    cases checked : checkFrozenClass handle machine with
    | error cause between =>
        obtain ⟨-, rfl⟩ := EStateM.Result.error.inj ((bind_of_error checked).symm.trans failed)
        exact FailsCleanly.cleanly wellFormed checked
    | ok checkedToo between =>
        obtain ⟨rfl, isClass, -⟩ := checkFrozenClass_eq_ok_iff.mp checked
        rw [bind_of_ok checked] at failed
        cases value with
        | object stored =>
            dsimp only at failed
            cases read : Query.object stored machine with
            | error breach =>
                obtain ⟨-, rfl⟩ := EStateM.Result.error.inj
                  ((bind_of_error (liftM_of_error read)).symm.trans failed)
                exact fun _ => rfl
            | ok object =>
                rw [bind_of_ok (liftM_of_ok read)] at failed
                split at failed
                · cases named : VM.nameClass handle stored name machine with
                  | error cause last =>
                      obtain ⟨-, rfl⟩ := EStateM.Result.error.inj
                        ((bind_of_error named).symm.trans failed)
                      exact FailsCleanly.cleanly wellFormed named
                  | ok namedToo last =>
                      exact absurd ((bind_of_ok named).symm.trans failed)
                        (stores (KeepsClasses.keeps named isClass))
                · exact absurd failed (stores isClass)
        | _ => exact absurd failed (stores isClass)

instance defineConst (handle : Handle) (name : String) (value : Value) :
    FailsCleanly (defineConst handle name value) := by
  unfold VM.defineConst
  infer_instance

end FailsCleanly

/-! ### Removal -/

theorem raiseNameError_ne_ok {message : String} {name : Symbol} {value : Unit} :
    raiseNameError message name machine ≠ .ok value next := by
  intro returned
  rw [raiseNameError] at returned
  obtain ⟨_, _, _, returned⟩ := bind_eq_ok_iff.mp returned
  obtain ⟨_, _, _, thrown⟩ := bind_eq_ok_iff.mp returned
  cases thrown

/-- The removal of a method fails without a trace unless it drops an undefined entry. -/
theorem record?_of_removeMethod {handle : Handle} {name : Symbol}
    (wellFormed : machine.heap.WellFormed)
    (noMarker : machine.ownMethod? name handle ≠ some { method := .undefined, owner := handle })
    (failed : removeMethod handle name machine = .error failure next) (other : Handle) :
    next.record? other = machine.record? other := by
  rw [removeMethod] at failed
  cases checked : checkFrozenClass handle machine with
  | error cause between =>
      obtain ⟨-, rfl⟩ := EStateM.Result.error.inj ((bind_of_error checked).symm.trans failed)
      exact FailsCleanly.cleanly wellFormed checked other
  | ok _ between =>
      obtain ⟨rfl, ⟨record, known⟩, -⟩ := checkFrozenClass_eq_ok_iff.mp checked
      have read : Query.classRecord handle machine = .ok record :=
        Query.classRecord_eq_ok_iff.mpr known
      rw [bind_of_ok checked, bind_of_ok (liftM_of_ok read)] at failed
      rw [bind_of_ok (modifyClass_of_class? known)] at failed
      rw [Machine.ownMethod?, known, Option.bind_some] at noMarker
      cases entry : record.methods.get? name with
      | some method =>
          rw [entry] at failed noMarker
          cases method with
          | undefined => exact absurd rfl noMarker
          | _ => cases failed
      | none =>
          rw [entry, Table.erase_of_get?_eq_none entry] at failed
          have raised := FailsCleanly.cleanly (wellFormed.modify handle _) failed other
          rw [raised]
          exact Machine.record?_setAncestors known record.ancestors other

/-- The removal of an undefined entry fails, and the entry is gone. -/
theorem removeMethod_of_marker {handle : Handle} {name : Symbol}
    (wellFormed : machine.heap.WellFormed) (isOpen : ∀ object,
      machine.heap.get? handle = some object → object.frozen = false)
    (marker : machine.ownMethod? name handle = some { method := .undefined, owner := handle }) :
    ∃ failure next, removeMethod handle name machine = .error failure next ∧
      next.ownMethod? name handle = none := by
  obtain ⟨record, known, stored⟩ := Option.bind_eq_some_iff.mp marker
  have entry : record.methods.get? name = some .undefined := by
    obtain ⟨method, isEntry, isMarker⟩ := Option.map_eq_some_iff.mp stored
    rw [isEntry, (FoundMethod.mk.inj isMarker).1]
  have checked : checkFrozenClass handle machine = .ok ⟨⟩ machine :=
    checkFrozenClass_eq_ok_iff.mpr ⟨rfl, ⟨record, known⟩, isOpen⟩
  have read : Query.classRecord handle machine = .ok record :=
    Query.classRecord_eq_ok_iff.mpr known
  rw [removeMethod, bind_of_ok checked, bind_of_ok (liftM_of_ok read),
    bind_of_ok (modifyClass_of_class? known), entry]
  generalize erased : machine.setClass handle { record with methods := record.methods.erase name }
    = between
  have dropped : between.ownMethod? name handle = none := by
    rw [← erased, Machine.ownMethod?, Machine.class?_setClass known, if_pos rfl, Option.bind_some,
      Table.get?_erase, if_pos rfl]
    rfl
  have stillWellFormed : between.heap.WellFormed := erased ▸ wellFormed.modify handle _
  have report : KeepsRecords (do
      let method ← Query.symbolText name
      raiseNameError s!"method '{method}' not defined in {← Query.className handle}" name :
        VM Unit) := inferInstance
  have kept := (report.keeps between stillWellFormed).2 handle
  dsimp only at kept ⊢
  cases outcome : (do
      let method ← Query.symbolText name
      raiseNameError s!"method '{method}' not defined in {← Query.className handle}" name :
        VM Unit) between with
  | ok _ last =>
      obtain ⟨_, _, _, named⟩ := bind_eq_ok_iff.mp outcome
      obtain ⟨_, _, _, raised⟩ := bind_eq_ok_iff.mp named
      exact absurd raised raiseNameError_ne_ok
  | error failure last =>
      rw [after_of_error outcome] at kept
      exact ⟨failure, last, rfl, (Machine.ownMethod?_of_record? kept).trans dropped⟩

end VM

/-! ### Operations -/

/-- The operations that edit a class. -/
inductive ClassOperation where
  | defineMethod (handle : Handle) (name : String) (body : NativeMethod)
  | removeMethod (handle : Handle) (name : Symbol)
  | undefMethod (handle : Handle) (name : Symbol)
  | aliasMethod (handle : Handle) (new old : Symbol)
  | includeModule (handle module : Handle)
  | defineConst (handle : Handle) (name : String) (value : Value)

namespace ClassOperation

/-- Runs an operation. -/
def run : ClassOperation → VM Unit
  | defineMethod handle name body => VM.defineMethod handle name body
  | removeMethod handle name => VM.removeMethod handle name
  | undefMethod handle name => VM.undefMethod handle name
  | aliasMethod handle new old => VM.aliasMethod handle new old
  | includeModule handle module => VM.includeModule handle module
  | defineConst handle name value => VM.defineConst handle name value

/-- Whether an operation removes an entry that ends a search. -/
def DropsMarker (machine : Machine) : ClassOperation → Prop
  | removeMethod handle name =>
    machine.ownMethod? name handle = some { method := .undefined, owner := handle }
  | _ => False

variable {machine next : Machine} {failure : Failure} {operation : ClassOperation}

theorem evolves (operation : ClassOperation) : operation.run.Evolves := by
  cases operation <;> (unfold run; infer_instance)

/-- A failed operation keeps the records of all classes. -/
theorem record?_of_failed (wellFormed : machine.heap.WellFormed)
    (noMarker : ¬ operation.DropsMarker machine)
    (failed : operation.run machine = .error failure next) (handle : Handle) :
    next.record? handle = machine.record? handle := by
  cases operation with
  | removeMethod => exact VM.record?_of_removeMethod wellFormed noMarker failed handle
  | defineMethod target name body =>
      exact (VM.FailsCleanly.defineMethod target name body).cleanly wellFormed failed handle
  | undefMethod target name =>
      exact (VM.FailsCleanly.undefMethod target name).cleanly wellFormed failed handle
  | aliasMethod target new old =>
      exact (VM.FailsCleanly.aliasMethod target new old).cleanly wellFormed failed handle
  | includeModule target module =>
      exact (VM.FailsCleanly.includeModule target module).cleanly wellFormed failed handle
  | defineConst target name value =>
      exact (VM.FailsCleanly.defineConst target name value).cleanly wellFormed failed handle

/-- In every machine that a host reaches, a failed operation leaves the ancestors of every
class, the method that it has under any name, and its constants as they were, unless it
removes an entry that ends a search. -/
theorem failed_changes_nothing {config : Config} {hosts : Array HostMethod}
    (reached : Machine.Reached config hosts machine) (regular : HostsAreRegular hosts)
    (noMarker : ¬ operation.DropsMarker machine)
    (failed : operation.run machine = .error failure next) {handle : Handle}
    {record : ClassRecord} (known : machine.class? handle = some record) :
    (∃ list, (∃ last, VM.ancestors handle machine = .ok list last) ∧
      ∃ last, VM.ancestors handle next = .ok list last) ∧
    (∀ name, ∃ found, (∃ last, VM.findMethod handle name machine = .ok found last) ∧
      ∃ last, VM.findMethod handle name next = .ok found last) ∧
    (next.class? handle).map (·.constants) = some record.constants := by
  have sound := reached.sound regular
  have evolution := operation.evolves.evolvesFrom machine
  rw [VM.EvolvesFrom, VM.after_of_error failed] at evolution
  have coherent := sound.coherent
  have coherentToo := (sound.of_evolution evolution).coherent
  have same := record?_of_failed coherent.hierarchical.wellFormed noMarker failed
  obtain ⟨list, lineage⟩ := coherent.hierarchical.lineages handle record known
  have lineageToo : next.Lineage handle list :=
    lineage.of_parents? fun member _ => Machine.parents?_of_record? (same member)
  refine ⟨⟨list, ?_, ?_⟩, fun name => ⟨machine.resolve name list, ?_, ?_⟩, ?_⟩
  · exact (VM.caches_ancestors coherent lineage).returns trivial
  · exact (VM.caches_ancestors coherentToo lineageToo).returns trivial
  · exact coherent.findMethod_eq lineage name
  · obtain ⟨last, found⟩ := coherentToo.findMethod_eq lineageToo name
    rw [Machine.resolve_congr fun owner _ => Machine.ownMethod?_of_record? (same owner)] at found
    exact ⟨last, found⟩
  · rw [Machine.map_class?_of_record? (fun _ => rfl) (same handle), known, Option.map_some]

end ClassOperation

end RiteVm
