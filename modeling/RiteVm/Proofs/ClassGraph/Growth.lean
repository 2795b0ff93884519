import RiteVm.Proofs.ClassGraph.Kinds
import RiteVm.Proofs.ClassGraph.Records

/-!
Contract: objects are instances of classes, and no creation makes a module the class of one.

Owns:
- machines in which no module is the class of an object or a superclass;
- growth, which keeps this and what every class is;
- one instance for each action that creates or opens a class or module, or includes one.

Does not own: hosts, which may make an object an instance of a module, and then a singleton
class that inherits from it.
-/

namespace RiteVm

namespace Machine

variable {machine next last : Machine} {handle : Handle} {object : Object}

/-- A handle that may be the class of an object: that of a class, or null for lack of one. -/
def Instantiable (machine : Machine) (handle : Handle) : Prop :=
  handle = .null ∨ ∃ kind, machine.kind? handle = some kind ∧ kind ≠ .module

/-- No module is the class of an object or a superclass. -/
structure Classed (machine : Machine) : Prop where
  wellFormed : machine.heap.WellFormed
  coreClasses : ∀ core, core ≠ .kernel → machine.Instantiable (machine.coreClass core)
  objects : ∀ handle object, machine.heap.get? handle = some object →
    machine.Instantiable object.classHandle
  superclasses : ∀ handle record, machine.class? handle = some record →
    ∀ parent, record.superclass = some parent → machine.Instantiable parent

/-- From one machine to a later one, classes stay what they are, and modules are no classes of
objects. -/
structure Grows (machine next : Machine) : Prop where
  classed : next.Classed
  kinds : ∀ handle kind, machine.kind? handle = some kind → next.kind? handle = some kind

theorem Grows.refl (classed : machine.Classed) : machine.Grows machine :=
  ⟨classed, fun _ _ known => known⟩

theorem Grows.trans (first : machine.Grows next) (second : next.Grows last) :
    machine.Grows last :=
  ⟨second.classed, fun handle kind known => second.kinds handle kind (first.kinds handle kind known)⟩

theorem Instantiable.mono (given : machine.Instantiable handle)
    (kinds : ∀ handle kind, machine.kind? handle = some kind → next.kind? handle = some kind) :
    next.Instantiable handle := by
  rcases given with isNull | ⟨kind, known, isClass⟩
  · exact .inl isNull
  · exact .inr ⟨kind, kinds handle kind known, isClass⟩

theorem Instantiable.of_class? {record : ClassRecord} (known : machine.class? handle = some record)
    (isClass : record.kind ≠ .module) : machine.Instantiable handle :=
  .inr ⟨record.kind, kind?_of_class? known, isClass⟩

/-- What a class is and what it inherits from. -/
def descent? (machine : Machine) (handle : Handle) : Option (ClassKind × Option Handle) :=
  (machine.class? handle).map fun record => (record.kind, record.superclass)

theorem kind?_of_descent? (same : next.descent? handle = machine.descent? handle) :
    next.kind? handle = machine.kind? handle := by
  have byDescent (machine : Machine) :
      machine.kind? handle = (machine.descent? handle).map (·.1) := by
    rw [kind?, descent?, Option.map_map]
    rfl
  rw [byDescent, byDescent, same]

namespace Classed

/-- If there is no new class, only new objects need a look. -/
theorem grows (classed : machine.Classed) (wellFormed : next.heap.WellFormed)
    (coreClasses : next.coreClasses = machine.coreClasses)
    (same : ∀ handle, next.descent? handle = machine.descent? handle)
    (objects : ∀ handle object, next.heap.get? handle = some object →
      machine.Instantiable object.classHandle) : machine.Grows next := by
  have kinds (handle : Handle) (kind : ClassKind) (known : machine.kind? handle = some kind) :
      next.kind? handle = some kind := (kind?_of_descent? (same handle)).trans known
  refine ⟨⟨wellFormed, fun core isClass => ?_, fun handle object found => ?_,
    fun handle record known parent inherits => ?_⟩, kinds⟩
  · rw [coreClass, coreClasses]
    exact (classed.coreClasses core isClass).mono kinds
  · exact (objects handle object found).mono kinds
  · have descent : machine.descent? handle = some (record.kind, record.superclass) := by
      rw [← same, descent?, known, Option.map_some]
    obtain ⟨previous, wasKnown, isSame⟩ := Option.map_eq_some_iff.mp descent
    have wasInherited : previous.superclass = some parent :=
      (congrArg Prod.snd isSame).trans inherits
    exact (classed.superclasses handle previous wasKnown parent wasInherited).mono kinds

/-- One more object, which may be a class. -/
theorem allocate (classed : machine.Classed) (given : machine.Instantiable object.classHandle)
    (parents : ∀ record, object.class? = some record →
      ∀ parent, record.superclass = some parent → machine.Instantiable parent) :
    machine.Grows (machine.allocate object) := by
  have wellFormed := classed.wellFormed
  have placed (other : Handle) := Hierarchical.class?_allocate wellFormed object other
  have kinds (other : Handle) (kind : ClassKind) (known : machine.kind? other = some kind) :
      (machine.allocate object).kind? other = some kind := by
    rw [kind?, placed, if_neg, ← kind?, known]
    rintro rfl
    rw [kind?, Hierarchical.class?_place_snd wellFormed] at known
    cases known
  refine ⟨⟨wellFormed.allocate object, fun core isClass => ?_, fun other otherObject found => ?_,
    fun other record known parent inherits => ?_⟩, kinds⟩
  · exact (classed.coreClasses core isClass).mono kinds
  · rcases Hierarchical.get?_allocate_cases wellFormed found with rfl | wasFound
    · exact given.mono kinds
    · exact (classed.objects other otherObject wasFound).mono kinds
  · rw [placed] at known
    split at known
    · exact (parents record known parent inherits).mono kinds
    · exact (classed.superclasses other record known parent inherits).mono kinds

/-- Another object under a handle, which inherits from the same class if it is one. -/
theorem rewrite (classed : machine.Classed) {change : Object → Object}
    (given : ∀ object, machine.heap.get? handle = some object →
      machine.Instantiable (change object).classHandle)
    (same : ∀ other,
      (machine.rewrite handle change).descent? other = machine.descent? other) :
    machine.Grows (machine.rewrite handle change) := by
  refine classed.grows (classed.wellFormed.modify handle change) rfl same ?_
  intro other object found
  rw [get?_rewrite] at found
  split at found
  · obtain ⟨previous, wasFound, rfl⟩ := Option.map_eq_some_iff.mp found
    exact given previous wasFound
  · exact classed.objects other object found

theorem setClass (classed : machine.Classed) {record changed : ClassRecord}
    (known : machine.class? handle = some record) (kind : changed.kind = record.kind)
    (superclass : changed.superclass = record.superclass) :
    machine.Grows (machine.setClass handle changed) := by
  refine classed.rewrite (fun object found => classed.objects handle object found) fun other => ?_
  have changed := class?_setClass known changed other
  rw [descent?, ← Machine.setClass, changed]
  split
  · rename_i isHandle
    rw [descent?, isHandle, known, Option.map_some, Option.map_some, kind, superclass]
  · rfl

theorem setCoreClass (classed : machine.Classed) {core : CoreClass}
    (given : core ≠ .kernel → machine.Instantiable handle) :
    machine.Grows { machine with coreClasses := machine.coreClasses.insert core handle } := by
  refine ⟨⟨classed.wellFormed, fun other isClass => ?_, classed.objects, classed.superclasses⟩,
    fun _ _ known => known⟩
  rw [coreClass, Table.get?_insert]
  split
  · rename_i isCore
    exact given (isCore ▸ isClass)
  · exact classed.coreClasses other isClass

end Classed

end Machine

namespace VM

variable {α β : Type} {machine : Machine}

open Machine (Classed Grows Instantiable)

/-! ### Composition -/

/-- An action behind which no module is the class of an object, however it ends. -/
class KeepsClassed (action : VM α) : Prop where
  grows : ∀ machine : Machine, machine.Classed → machine.Grows (action.after machine)

theorem grows_bind {action : VM α} {rest : α → VM β} (first : machine.Grows (action.after machine))
    (second : ∀ value next, action machine = .ok value next → machine.Grows next →
      next.Grows ((rest value).after next)) : machine.Grows ((action >>= rest).after machine) := by
  cases outcome : action machine with
  | ok value between =>
      rw [after_of_ok outcome] at first
      rw [after_bind_of_ok outcome]
      exact first.trans (second value between outcome first)
  | error failure between =>
      rw [after_of_error outcome] at first
      rw [after_of_error (bind_of_error outcome)]
      exact first

theorem grows_query_bind (classed : machine.Classed) {query : Query α} {rest : α → VM β}
    (second : ∀ value, query machine = .ok value → machine.Grows ((rest value).after machine)) :
    machine.Grows ((liftM query >>= rest).after machine) := by
  cases read : query machine with
  | ok value =>
      rw [after_bind_of_ok (liftM_of_ok read)]
      exact second value read
  | error breach =>
      rw [after_of_error (bind_of_error (liftM_of_error read))]
      exact .refl classed

/-- A new object that is no class. -/
theorem grows_allocate (classed : machine.Classed) {object : Object}
    (plain : object.class? = none) (given : machine.Instantiable object.classHandle) :
    machine.Grows ((VM.allocate object).after machine) :=
  classed.allocate given fun record isClass => by cases plain.symm.trans isClass

namespace KeepsClassed

instance ofValue (value : α) : KeepsClassed (pure value : VM α) := ⟨fun _ => .refl⟩

instance ofFailure (failure : Failure) : KeepsClassed (throw failure : VM α) := ⟨fun _ => .refl⟩

instance ofQuery (query : Query α) : KeepsClassed (liftM query : VM α) where
  grows machine classed := by
    cases read : query machine with
    | ok value =>
        rw [after_of_ok (liftM_of_ok read)]
        exact .refl classed
    | error breach =>
        rw [after_of_error (liftM_of_error read)]
        exact .refl classed

instance seq {action : VM α} {rest : α → VM β} [first : KeepsClassed action]
    [second : ∀ value, KeepsClassed (rest value)] : KeepsClassed (action >>= rest) where
  grows machine classed :=
    grows_bind (first.grows machine classed) fun value next _ grown =>
      (second value).grows next grown.classed

instance mapped (change : α → β) {action : VM α} [KeepsClassed action] :
    KeepsClassed (change <$> action) := by
  rw [map_eq_pure_bind]
  infer_instance

instance branch (condition : Prop) [Decidable condition] {yes no : VM α} [KeepsClassed yes]
    [KeepsClassed no] : KeepsClassed (if condition then yes else no) := by
  split <;> infer_instance

instance forEach (items : List α) (action : α → VM PUnit) [∀ item, KeepsClassed (action item)] :
    KeepsClassed (items.forM action) := by
  induction items with
  | nil => exact ofValue _
  | cons item rest inductionHypothesis => exact seq

instance optionForM (item? : Option α) (action : α → VM PUnit)
    [∀ item, KeepsClassed (action item)] : KeepsClassed (item?.forM action) := by
  cases item? with
  | none => exact ofValue _
  | some item => exact inferInstanceAs (KeepsClassed (action item))

/-- A change that keeps the cells of the heap and the core classes. -/
theorem ofModify {change : Machine → Machine}
    (cells : ∀ machine, (change machine).heap.cells = machine.heap.cells)
    (free : ∀ machine, (change machine).heap.free = machine.heap.free)
    (coreClasses : ∀ machine, (change machine).coreClasses = machine.coreClasses) :
    KeepsClassed (modify change : VM PUnit) where
  grows machine classed := by
    have same (handle : Handle) : (change machine).heap.get? handle = machine.heap.get? handle := by
      rw [Heap.get?, Heap.get?, cells]
    have isNext : (modify change : VM PUnit).after machine = change machine := rfl
    rw [isNext]
    refine classed.grows (classed.wellFormed.of_cells (cells machine) (free machine))
      (coreClasses machine) (fun handle => ?_) fun handle object found => ?_
    · rw [Machine.descent?, Machine.descent?, Machine.class?, Machine.class?, same]
    · exact classed.objects handle object ((same handle).symm.trans found)

theorem modifyClass {handle : Handle} {change : ClassRecord → ClassRecord}
    (kind : ∀ record, (change record).kind = record.kind)
    (superclass : ∀ record, (change record).superclass = record.superclass) :
    KeepsClassed (VM.modifyClass handle change) where
  grows machine classed := by
    cases known : machine.class? handle with
    | none =>
        obtain ⟨failure, failed⟩ := modifyClass_of_class?_eq_none known
        rw [after_of_error failed]
        exact .refl classed
    | some record =>
        rw [after_of_ok (modifyClass_of_class? known)]
        exact classed.setClass known (kind record) (superclass record)

/-- A change of an object that keeps its class, and its record if it is a class itself. -/
theorem modifyObject {handle : Handle} {change : Object → Object}
    (classHandle : ∀ object, (change object).classHandle = object.classHandle)
    (record : ∀ object, (change object).class? = object.class?) :
    KeepsClassed (VM.modifyObject handle change) where
  grows machine classed := by
    refine classed.rewrite (fun object found => ?_) fun other => ?_
    · rw [classHandle]
      exact classed.objects handle object found
    · rw [Machine.descent?, Machine.class?_rewrite (fun object _ => record object) other]
      rfl

/-- What is done with a core class may create an instance of it. -/
theorem withCoreClass {core : CoreClass} {rest : Handle → VM α}
    (second : ∀ machine : Machine, machine.Classed →
      machine.Grows ((rest (machine.coreClass core)).after machine)) :
    KeepsClassed (liftM (Query.coreClass core) >>= rest) where
  grows machine classed := by
    refine grows_query_bind classed fun classHandle read => ?_
    obtain rfl : machine.coreClass core = classHandle := Except.ok.inj read
    exact second machine classed

/-! ### Raised exceptions -/

instance newText (text : String) : KeepsClassed (newText text) := by
  unfold VM.newText VM.newString VM.newCore
  refine withCoreClass fun machine classed => ?_
  refine grows_bind (grows_allocate classed rfl (classed.coreClasses _ ?_)) ?_
  · rintro ⟨⟩
  · exact fun _ _ _ grown => .refl grown.classed

instance modifyException (handle : Handle) (change : ExceptionRecord → ExceptionRecord) :
    KeepsClassed (modifyException handle change) := by
  refine modifyObject (fun object => ?_) fun object => ?_ <;>
    obtain ⟨classHandle, content, frozen, fields⟩ := object <;> cases content <;> rfl

instance fillBacktrace (handle : Handle) : KeepsClassed (fillBacktrace handle) := by
  unfold VM.fillBacktrace
  refine @seq _ _ _ _ _ fun exception? => ?_
  split <;> infer_instance

/-- An exception of a core class that is no module. -/
theorem raise {core : CoreClass} (isClass : core ≠ .kernel) (message : String) :
    KeepsClassed (raise core message : VM α) := by
  have create (message : Value) : KeepsClassed (do
      let exception ← newException (← Query.coreClass core) message
      VM.fillBacktrace exception
      return exception) := by
    refine withCoreClass fun machine classed => ?_
    refine grows_bind (grows_allocate classed rfl (classed.coreClasses core isClass)) ?_
    exact fun exception next _ grown => seq.grows next grown.classed
  unfold VM.raise VM.exceptionHere
  infer_instance

instance raiseTypeError (message : String) : KeepsClassed (VM.raise .typeError message : VM α) :=
  raise (by rintro ⟨⟩) message

instance raiseArgumentError (message : String) :
    KeepsClassed (VM.raise .argumentError message : VM α) :=
  raise (by rintro ⟨⟩) message

instance raiseFrozenError (message : String) :
    KeepsClassed (VM.raise .frozenError message : VM α) :=
  raise (by rintro ⟨⟩) message

/-! ### Checks and look-ups -/

instance checkClass (handle : Handle) : KeepsClassed (checkClass handle) := by
  unfold VM.checkClass
  infer_instance

instance checkFrozenClass (handle : Handle) : KeepsClassed (checkFrozenClass handle) := by
  unfold VM.checkFrozenClass
  infer_instance

instance internText (name : String) : KeepsClassed (internText name) where
  grows machine classed := by
    obtain ⟨symbol, symbols, interned⟩ : ∃ symbol symbols,
        VM.internText name machine = .ok symbol { machine with symbols } := ⟨_, _, rfl⟩
    rw [after_of_ok interned]
    exact classed.grows classed.wellFormed rfl (fun _ => rfl) classed.objects

instance ancestors (handle : Handle) : KeepsClassed (ancestors handle) := by
  have within (fuel : Nat) : KeepsClassed (ancestorsWithin fuel handle) := by
    refine ⟨fun machine classed => ?_⟩
    have quiet := (Quiet.ancestorsWithin fuel handle).quietFrom machine
    have classes (other : Handle) :=
      @kept_ancestorsWithin _ (fun machine => (machine.heap.get? other).map (·.classHandle))
        (fun machine handle record list known => by
          rw [Machine.setClass, Machine.get?_rewrite]
          split
          · rename_i isHandle
            rw [isHandle, Option.map_map]
            rfl
          · rfl) fuel handle machine
    refine classed.grows (quiet.heap classed.wellFormed).wellFormed ?_ (fun other => ?_)
      fun other object found => ?_
    · exact @kept_ancestorsWithin _ (·.coreClasses) (fun _ _ _ _ _ => rfl) fuel handle machine
    · refine @kept_ancestorsWithin _ (·.descent? other)
        (fun machine handle record list known => ?_) fuel handle machine
      rw [Machine.descent?, Machine.class?_setClass known]
      split
      · rename_i isHandle
        rw [Machine.descent?, isHandle, known]
        rfl
      · rfl
    · have isSame := classes other
      rw [found] at isSame
      obtain ⟨previous, wasFound, sameClass⟩ := Option.map_eq_some_iff.mp isSame.symm
      have given := classed.objects other previous wasFound
      rwa [show previous.classHandle = object.classHandle from sameClass] at given
  unfold VM.ancestors
  infer_instance

instance invalidateMethods : KeepsClassed invalidateMethods :=
  ofModify (fun _ => rfl) (fun _ => rfl) fun _ => rfl

instance invalidateHierarchy : KeepsClassed invalidateHierarchy := by
  have hierarchy : KeepsClassed (modify fun machine : Machine =>
      { machine with methodCache.hierarchy := machine.methodCache.hierarchy + 1 } : VM PUnit) :=
    ofModify (fun _ => rfl) (fun _ => rfl) fun _ => rfl
  unfold VM.invalidateHierarchy
  infer_instance

/-! ### Edits of a class -/

instance includeModule (handle module : Handle) : KeepsClassed (includeModule handle module) := by
  have enter : KeepsClassed (VM.modifyClass handle fun record =>
      { record with includes := record.includes.push module }) :=
    modifyClass (fun _ => rfl) fun _ => rfl
  have whenModule : KeepsClassed (do
      VM.checkFrozenClass handle
      if (← VM.ancestors handle).contains module then return
      if (← VM.ancestors module).contains handle then
        VM.raise .argumentError "cyclic include detected"
      VM.modifyClass handle fun record => { record with includes := record.includes.push module }
      VM.invalidateHierarchy) := by
    dsimp only
    infer_instance
  dsimp only at whenModule
  unfold VM.includeModule
  refine @seq _ _ _ _ _ fun refused => ?_
  dsimp only
  split <;> infer_instance

instance addMethod (handle : Handle) (name : Symbol) (method : Method) :
    KeepsClassed (addMethod handle name method) := by
  have enter : KeepsClassed (VM.modifyClass handle fun record =>
      { record with methods := record.methods.insert name method }) :=
    modifyClass (fun _ => rfl) fun _ => rfl
  unfold VM.addMethod
  infer_instance

instance defineMethod (handle : Handle) (name : String) (body : NativeMethod) :
    KeepsClassed (defineMethod handle name body) := by
  unfold VM.defineMethod VM.setMethod
  infer_instance

instance nameClass (outer handle : Handle) (name : Symbol) :
    KeepsClassed (nameClass outer handle name) := by
  have enter (full : String) : KeepsClassed (VM.modifyClass handle fun record =>
      { record with
        name := some full
        outer := if outer = handle then record.outer else some outer }) :=
    modifyClass (fun _ => rfl) fun _ => rfl
  unfold VM.nameClass
  dsimp only
  infer_instance

instance setConst (handle : Handle) (name : Symbol) (value : Value) :
    KeepsClassed (setConst handle name value) := by
  have enter : KeepsClassed (VM.modifyClass handle fun record =>
      { record with constants := record.constants.insert name value }) :=
    modifyClass (fun _ => rfl) fun _ => rfl
  unfold VM.setConst
  refine @seq _ _ _ _ _ fun _ => ?_
  dsimp only
  split <;> infer_instance

instance defineConst (handle : Handle) (name : String) (value : Value) :
    KeepsClassed (defineConst handle name value) := by
  unfold VM.defineConst
  infer_instance

end KeepsClassed

/-! ### Creations -/

/-- The object of a new class or module. -/
def newClassObject (machine : Machine) (kind : ClassKind) (superclass? : Option Handle)
    (instances : InstanceKind) : Object where
  classHandle := machine.coreClass (if kind = .module then .module else .classClass)
  content := .classOrModule { kind, superclass := superclass?, instances }

/-- A new class or module, which inherits from no module. -/
theorem grows_allocateClass (classed : machine.Classed) {kind : ClassKind}
    {superclass? : Option Handle} {instances : InstanceKind}
    (given : ∀ parent, superclass? = some parent → machine.Instantiable parent) :
    machine.Grows ((allocateClass kind superclass? instances).after machine) := by
  have core : (if kind = .module then CoreClass.module else .classClass) ≠ .kernel := by
    split <;> rintro ⟨⟩
  refine @Classed.allocate _ (newClassObject machine kind superclass? instances) classed
    (classed.coreClasses _ core) ?_
  rintro _ ⟨⟩
  exact given

/-- An action that leads to a grown machine, in which the handle that it returns may be the
class of an object. -/
structure GrowsTo (machine : Machine) (action : VM Handle) : Prop where
  grows : machine.Grows (action.after machine)
  returns : ∀ handle next, action machine = .ok handle next → next.Instantiable handle

namespace GrowsTo

variable {handle superclass : Handle}

theorem bind {action : VM α} {rest : α → VM Handle} (first : machine.Grows (action.after machine))
    (second : ∀ value next, action machine = .ok value next → machine.Grows next →
      GrowsTo next (rest value)) : GrowsTo machine (action >>= rest) where
  grows := grows_bind first fun value next done grown => (second value next done grown).grows
  returns handle last done := by
    obtain ⟨value, between, isFirst, isRest⟩ := bind_eq_ok_iff.mp done
    rw [after_of_ok isFirst] at first
    exact (second value between isFirst first).returns handle last isRest

theorem bind_keeps (classed : machine.Classed) {action : VM α} [keeps : KeepsClassed action]
    {rest : α → VM Handle}
    (second : ∀ value next, action machine = .ok value next → machine.Grows next →
      GrowsTo next (rest value)) : GrowsTo machine (action >>= rest) :=
  bind (keeps.grows machine classed) second

theorem query_bind (classed : machine.Classed) {query : Query α} {rest : α → VM Handle}
    (second : ∀ value, query machine = .ok value → GrowsTo machine (rest value)) :
    GrowsTo machine (liftM query >>= rest) := by
  refine bind_keeps classed fun value next done _ => ?_
  obtain ⟨read, rfl⟩ := liftM_eq_ok_iff.mp done
  exact second value read

theorem value (classed : machine.Classed) (given : machine.Instantiable handle) :
    GrowsTo machine (pure handle) := by
  refine ⟨.refl classed, fun result next returned => ?_⟩
  obtain ⟨rfl, rfl⟩ := pure_eq_ok_iff.mp returned
  exact given

/-- What follows a raise is not reached. -/
theorem raised (classed : machine.Classed) {core : CoreClass} {message : String}
    [keeps : KeepsClassed (VM.raise core message : VM α)] {rest : α → VM Handle} :
    GrowsTo machine (VM.raise core message >>= rest) :=
  bind (keeps.grows machine classed) fun _ _ done => absurd done raise_ne_ok

/-- A new class, but no module. -/
theorem allocateClass (classed : machine.Classed) {kind : ClassKind} (isClass : kind ≠ .module)
    {superclass? : Option Handle} {instances : InstanceKind}
    (given : ∀ parent, superclass? = some parent → machine.Instantiable parent) :
    GrowsTo machine (VM.allocateClass kind superclass? instances) where
  grows := grows_allocateClass classed given
  returns handle next done := by
    cases done
    have known := Machine.Hierarchical.class?_allocate classed.wellFormed
      (newClassObject machine kind superclass? instances)
      (machine.heap.place (newClassObject machine kind superclass? instances)).2
    rw [if_pos rfl] at known
    exact Instantiable.of_class? known isClass

theorem attachSingleton (classed : machine.Classed) (given : machine.Instantiable superclass) :
    GrowsTo machine (VM.attachSingleton handle superclass) := by
  have attach (singleton : Handle) : KeepsClassed (VM.modifyClass singleton fun record =>
      { record with attached := some handle }) :=
    .modifyClass (fun _ => rfl) fun _ => rfl
  have created := @allocateClass machine classed .singleton (by rintro ⟨⟩) (some superclass)
    .special (by rintro _ ⟨⟩; exact given)
  refine bind created.grows fun singleton next allocated grown => ?_
  have isClass := created.returns singleton next allocated
  refine bind_keeps grown.classed fun _ marked _ grownToo => ?_
  have isStillClass := isClass.mono grownToo.kinds
  refine bind (grownToo.classed.rewrite (fun _ _ => isStillClass) fun other => ?_)
    fun _ reclassed _ last => ?_
  · rw [Machine.descent?, Machine.class?_reclass]
    rfl
  · refine bind_keeps last.classed fun _ _ _ invalidated => ?_
    exact value invalidated.classed ((isStillClass.mono last.kinds).mono invalidated.kinds)

theorem singletonOf (classed : machine.Classed) (fuel : Nat) :
    GrowsTo machine (VM.singletonOf fuel handle) := by
  induction fuel generalizing handle machine with
  | zero => exact ⟨.refl classed, fun _ _ done => by cases done⟩
  | succ fuel inductionHypothesis =>
      unfold VM.singletonOf
      refine query_bind classed fun object read => query_bind classed fun current _ => ?_
      have given := classed.objects handle object (Query.object_eq_ok_iff.mp read)
      have belowParent (superclass : Handle) :
          GrowsTo machine (VM.singletonOf fuel superclass >>= VM.attachSingleton handle) := by
        have ofParent := @inductionHypothesis machine superclass classed
        refine bind ofParent.grows fun parent next done grown => ?_
        exact attachSingleton grown.classed (ofParent.returns parent next done)
      have belowRoot : GrowsTo machine
          (liftM (Query.coreClass .classClass) >>= VM.attachSingleton handle) := by
        refine query_bind classed fun classClass read => attachSingleton classed ?_
        obtain rfl : machine.coreClass .classClass = classClass := Except.ok.inj read
        exact classed.coreClasses _ (by rintro ⟨⟩)
      dsimp only
      split
      case' isTrue =>
        refine query_bind classed fun record _ => ?_
        rw [pure_bind]
        split
        case isTrue => exact value classed given
      case' isFalse => rw [pure_bind, if_neg Bool.false_ne_true]
      -- The handle has no singleton class of its own yet.
      all_goals
        split
        · exact attachSingleton classed given
        · split
          · exact attachSingleton classed given
          · split
            · exact belowParent _
            · exact belowRoot

end GrowsTo

end VM

end RiteVm
