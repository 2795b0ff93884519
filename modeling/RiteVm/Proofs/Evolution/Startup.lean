import RiteVm.Core.Boot
import RiteVm.Proofs.Evolution.Calls
import RiteVm.Proofs.Evolution.Classes

/-!
Contract: the creation of the core classes only evolves the machine.

Owns:
- that an opened class or module is a class, so that it may become a core class;
- one instance for each part of the start of a machine behind the first four classes.

Does not own: the first four classes, which refer to each other before they are complete.
-/

namespace RiteVm

namespace VM

variable {α β : Type}

/-! ### Actions that keep classes -/

/-- An action behind which every class is still a class, if it succeeds. -/
class KeepsClasses (action : VM α) : Prop where
  keeps : ∀ {machine value next handle}, action machine = .ok value next →
    (∃ record, machine.class? handle = some record) → ∃ record, next.class? handle = some record

namespace KeepsClasses

instance ofValue (value : α) : KeepsClasses (pure value : VM α) where
  keeps returned known := (pure_eq_ok_iff.mp returned).2 ▸ known

instance ofQuery (query : Query α) : KeepsClasses (liftM query : VM α) where
  keeps returned known := (liftM_eq_ok_iff.mp returned).2 ▸ known

instance ofRaise (core : CoreClass) (message : String) :
    KeepsClasses (raise core message : VM α) where
  keeps returned := absurd returned raise_ne_ok

instance seq {action : VM α} {rest : α → VM β} [first : KeepsClasses action]
    [second : ∀ value, KeepsClasses (rest value)] : KeepsClasses (action >>= rest) where
  keeps returned known := by
    obtain ⟨value, between, isFirst, isRest⟩ := bind_eq_ok_iff.mp returned
    exact (second value).keeps isRest (first.keeps isFirst known)

instance branch (condition : Prop) [Decidable condition] {yes no : VM α} [KeepsClasses yes]
    [KeepsClasses no] : KeepsClasses (if condition then yes else no) := by
  split <;> infer_instance

instance modifyClass (handle : Handle) (change : ClassRecord → ClassRecord) :
    KeepsClasses (modifyClass handle change) where
  keeps {machine value next other} returned known := by
    obtain ⟨record, wasKnown, rfl⟩ := modifyClass_eq_ok_iff.mp returned
    rw [Machine.class?_setClass wasKnown]
    split
    · exact ⟨_, rfl⟩
    · exact known

instance nameClass (outer handle : Handle) (name : Symbol) :
    KeepsClasses (nameClass outer handle name) := by
  unfold VM.nameClass
  dsimp only
  infer_instance

instance checkFrozenClass (handle : Handle) : KeepsClasses (checkFrozenClass handle) := by
  unfold VM.checkFrozenClass VM.checkClass
  infer_instance

instance setConst (handle : Handle) (name : Symbol) (value : Value) :
    KeepsClasses (setConst handle name value) := by
  unfold VM.setConst
  refine @seq _ _ _ _ _ fun _ => ?_
  dsimp only
  split <;> infer_instance

end KeepsClasses

/-! ### Opened classes -/

section Opened

variable {machine next : Machine} {outer handle : Handle}

/-- A class is named only if it is one. -/
theorem class?_of_nameClass {name : Symbol} {value : PUnit}
    (named : nameClass outer handle name machine = .ok value next) :
    ∃ record, machine.class? handle = some record := by
  rw [nameClass] at named
  obtain ⟨record, _, read, _⟩ := bind_eq_ok_iff.mp named
  exact ⟨record, Query.classRecord_eq_ok_iff.mp (liftM_eq_ok_iff.mp read).1⟩

/-- The end of the creation of a class or module. -/
theorem class?_of_named {name : Symbol} {result : Handle}
    (opened : (do
      nameClass outer handle name
      setConst outer name (.object handle)
      return handle : VM Handle) machine = .ok result next) :
    ∃ record, next.class? result = some record := by
  obtain ⟨_, named, naming, opened⟩ := bind_eq_ok_iff.mp opened
  obtain ⟨_, stored, storing, returned⟩ := bind_eq_ok_iff.mp opened
  obtain ⟨rfl, rfl⟩ := pure_eq_ok_iff.mp returned
  exact KeepsClasses.keeps storing (KeepsClasses.keeps naming (class?_of_nameClass naming))

theorem class?_of_ordinaryClass? {value : Value}
    (read : ordinaryClass? value machine = .ok (some handle)) :
    ∃ record, machine.class? handle = some record ∧ record.kind = .ordinary := by
  rw [ordinaryClass?, Query.bind_eq_ok_iff] at read
  obtain ⟨record?, isPart, read⟩ := read
  cases value with
  | object stored =>
      cases record? with
      | none => cases read
      | some record =>
          dsimp only at read
          split at read
          · rename_i isOrdinary
            obtain rfl : stored = handle := Option.some.inj (Except.ok.inj read)
            rw [Query.part?, Query.bind_eq_ok_iff] at isPart
            obtain ⟨_, isObject, selected⟩ := isPart
            obtain ⟨object, found, rfl⟩ := Query.object?_eq_ok_iff.mp isObject
            refine ⟨record, ?_, isOrdinary⟩
            rw [Machine.class?, found]
            exact Except.ok.inj selected
          · cases read
  | _ => cases read

theorem class?_of_isModule (read : Query.isModule (.object handle) machine = .ok true) :
    ∃ record, machine.class? handle = some record := by
  obtain ⟨record, known, -⟩ := Option.map_eq_some_iff.mp (Query.isModule_eq_ok_iff.mp read)
  exact ⟨record, known⟩

theorem class?_of_openClass {name : Symbol} {superclass? : Option Handle}
    (opened : openClass outer name superclass? machine = .ok handle next) :
    ∃ record, next.class? handle = some record := by
  rw [openClass] at opened
  obtain ⟨outerRecord, _, _, opened⟩ := bind_eq_ok_iff.mp opened
  cases stored : outerRecord.constants.get? name with
  | some existing =>
      simp only [stored] at opened
      obtain ⟨existing?, _, read, opened⟩ := bind_eq_ok_iff.mp opened
      obtain ⟨isOrdinary, rfl⟩ := liftM_eq_ok_iff.mp read
      cases existing? with
      | none =>
          obtain ⟨_, _, _, raised⟩ := bind_eq_ok_iff.mp opened
          exact absurd raised raise_ne_ok
      | some existing =>
          obtain ⟨record, known, -⟩ := class?_of_ordinaryClass? isOrdinary
          obtain ⟨_, _, read, opened⟩ := bind_eq_ok_iff.mp opened
          obtain ⟨_, rfl⟩ := liftM_eq_ok_iff.mp read
          split at opened
          · obtain ⟨_, _, _, opened⟩ := bind_eq_ok_iff.mp opened
            obtain ⟨_, _, raised, _⟩ := bind_eq_ok_iff.mp opened
            exact absurd raised raise_ne_ok
          · obtain ⟨rfl, rfl⟩ := pure_eq_ok_iff.mp opened
            exact ⟨record, known⟩
  | none =>
      simp only [stored] at opened
      obtain ⟨object, _, _, opened⟩ := bind_eq_ok_iff.mp opened
      obtain ⟨record, _, _, opened⟩ := bind_eq_ok_iff.mp opened
      split at opened
      · obtain ⟨_, _, raised, _⟩ := bind_eq_ok_iff.mp opened
        exact absurd raised raise_ne_ok
      · obtain ⟨created, _, _, opened⟩ := bind_eq_ok_iff.mp opened
        obtain ⟨_, _, _, opened⟩ := bind_eq_ok_iff.mp opened
        exact class?_of_named opened

theorem class?_of_openModule {name : Symbol}
    (opened : openModule outer name machine = .ok handle next) :
    ∃ record, next.class? handle = some record := by
  rw [openModule] at opened
  obtain ⟨outerRecord, _, _, opened⟩ := bind_eq_ok_iff.mp opened
  cases stored : outerRecord.constants.get? name with
  | some existing =>
      simp only [stored] at opened
      obtain ⟨isModule, _, read, opened⟩ := bind_eq_ok_iff.mp opened
      obtain ⟨isRead, rfl⟩ := liftM_eq_ok_iff.mp read
      split at opened
      · obtain ⟨rfl, rfl⟩ := pure_eq_ok_iff.mp opened
        exact class?_of_isModule isRead
      · obtain ⟨_, _, _, raised⟩ := bind_eq_ok_iff.mp opened
        exact absurd raised raise_ne_ok
  | none =>
      simp only [stored] at opened
      obtain ⟨created, _, _, opened⟩ := bind_eq_ok_iff.mp opened
      exact class?_of_named opened

theorem class?_of_defineClass {name : String} {superclass? : Option Handle}
    (defined : defineClass name superclass? machine = .ok handle next) :
    ∃ record, next.class? handle = some record := by
  rw [defineClass] at defined
  obtain ⟨object, _, _, defined⟩ := bind_eq_ok_iff.mp defined
  rw [defineClassUnder] at defined
  obtain ⟨_, _, _, defined⟩ := bind_eq_ok_iff.mp defined
  obtain ⟨_, _, _, defined⟩ := bind_eq_ok_iff.mp defined
  obtain ⟨symbol, _, _, opened⟩ := bind_eq_ok_iff.mp defined
  exact class?_of_openClass opened

theorem class?_of_defineModule {name : String}
    (defined : defineModule name machine = .ok handle next) :
    ∃ record, next.class? handle = some record := by
  rw [defineModule] at defined
  obtain ⟨object, _, _, defined⟩ := bind_eq_ok_iff.mp defined
  rw [defineModuleUnder] at defined
  obtain ⟨_, _, _, defined⟩ := bind_eq_ok_iff.mp defined
  obtain ⟨symbol, _, _, opened⟩ := bind_eq_ok_iff.mp defined
  exact class?_of_openModule opened

theorem EvolvesFrom.setCoreClass {core : CoreClass} (isOther : core ≠ .classClass)
    (known : ∃ record, machine.class? handle = some record) :
    EvolvesFrom machine (setCoreClass core handle) := by
  obtain ⟨record, isClass⟩ := known
  exact .of_change rfl (.setCoreClass isClass isOther)

end Opened

/-! ### The start of a machine -/

namespace Evolves

-- the start consists of many parts
set_option synthInstance.maxSize 3000

instance setInstances (handle : Handle) (instances : InstanceKind) :
    Evolves (modifyClass handle fun record => { record with instances }) :=
  ⟨fun _ => .modifyClass fun _ known => .setInstances known⟩

theorem bootClass {definition : CoreDefinition} (isOther : definition.core ≠ .classClass) :
    Evolves (bootClass definition) := by
  unfold VM.bootClass
  refine @seq _ _ _ _ _ fun superclass => ⟨fun machine => ?_⟩
  refine .bind .of_evolves fun handle next defined => ?_
  refine .bind .of_evolves fun _ last changed => .setCoreClass isOther ?_
  have keeps : KeepsClasses (definition.instances.forM fun instances =>
      modifyClass handle fun record => { record with instances }) := by
    cases definition.instances with
    | none => exact .ofValue _
    | some instances => exact .modifyClass _ _
  exact keeps.keeps changed (class?_of_defineClass defined)

/-- The class of classes is there before any of the classes in a list. -/
theorem bootClasses {definitions : List CoreDefinition}
    (others : ∀ definition ∈ definitions, definition.core ≠ .classClass) :
    Evolves (definitions.forM VM.bootClass) := by
  induction definitions with
  | nil => exact ofValue _
  | cons first rest inductionHypothesis =>
      have := bootClass (others first List.mem_cons_self)
      have := inductionHypothesis fun definition isRest => others definition (.tail _ isRest)
      exact seq

instance bootValueClasses : Evolves (valueClasses.forM VM.bootClass) := bootClasses (by decide)

instance bootExceptionClasses : Evolves (exceptionClasses.forM VM.bootClass) :=
  bootClasses (by decide)

instance bootRoots : Evolves bootRoots := by
  have finish (object : Handle) : Evolves (do
      let kernel ← VM.defineModule "Kernel"
      VM.setCoreClass .kernel kernel
      VM.includeModule object kernel) := by
    refine ⟨fun machine => .bind .of_evolves fun kernel next defined => ?_⟩
    exact .bind (.setCoreClass nofun (class?_of_defineModule defined)) fun _ _ _ => .of_evolves
  unfold VM.bootRoots
  infer_instance

instance bootMain : Evolves bootMain := by
  have newMain : Evolves (liftM (Query.coreClass .object) >>= newObject) := by
    refine ⟨fun machine => .query_bind fun classHandle read => ?_⟩
    obtain rfl : machine.coreClass .object = classHandle := Except.ok.inj read
    exact .bind (.allocate rfl (.core _)) fun _ _ _ => .of_evolves
  have setMain (mainObject : Handle) : Evolves
      (modify fun machine : Machine => { machine with mainObject } : VM PUnit) :=
    of_outside (fun _ => rfl) (fun _ => rfl) (fun _ => rfl)
  unfold VM.bootMain
  rw [← bind_assoc]
  refine @seq _ _ _ _ _ fun main => ?_
  dsimp only
  split <;> infer_instance

instance bootMethods (handle : Handle) (methods : List NamedMethod) :
    Evolves (bootMethods handle methods) := by
  unfold VM.bootMethods
  infer_instance

instance bootCoreMethods (core : CoreClass) (methods : List NamedMethod) :
    Evolves (bootCoreMethods core methods) := by
  unfold VM.bootCoreMethods
  infer_instance

instance bootClassMethods (core : CoreClass) (methods : List NamedMethod) :
    Evolves (bootClassMethods core methods) := by
  unfold VM.bootClassMethods
  infer_instance

instance bootExceptions : Evolves bootExceptions := by
  unfold VM.bootExceptions
  infer_instance

instance bootClosures : Evolves bootClosures := by
  unfold VM.bootClosures
  infer_instance

instance bootCore : Evolves bootCore := by
  unfold VM.bootCore
  infer_instance

end Evolves

end VM

/-- A new machine is built upon the one with the first four classes. -/
theorem Machine.new_eq_after_bootCore {config : Config} {machine : Machine}
    (started : VM.bootHierarchy (.empty config) = .ok ⟨⟩ machine) :
    Machine.new config = VM.bootCore.after machine := by
  rw [VM.new_eq_after_boot]
  unfold VM.boot
  exact VM.after_bind_of_ok started

/-- A new machine evolves from the one with the first four classes. -/
theorem Machine.evolution_new {config : Config} {machine : Machine}
    (started : VM.bootHierarchy (.empty config) = .ok ⟨⟩ machine) :
    machine.Evolution (.new config) := by
  rw [new_eq_after_bootCore started]
  exact VM.Evolves.bootCore.evolvesFrom machine

end RiteVm
