import Mathlib.Logic.Relation
import RiteVm.Class.Definition
import RiteVm.Machine.Collector

/-!
Contract: the changes that a machine makes to its heap, its classes and its method cache.

Owns:
- the class record behind a handle, and replacing it;
- the handles that the machine takes as classes and superclasses of new objects, and the
  superclasses that each kind of class may have;
- one constructor for each kind of change, with what is known when it is made;
- evolution, which is any number of changes in a row.

Does not own: that every action evolves the machine, and what changes preserve. Register
stacks, frames and globals are not described: a change may replace them freely.
-/

namespace RiteVm

namespace VM

/-- The machine behind an action, however the action ends. -/
def after {α : Type} (action : VM α) (machine : Machine) : Machine :=
  match action machine with
  | .ok _ machine => machine
  | .error _ machine => machine

end VM

namespace Machine

/-- The class or module that a handle leads to. -/
def class? (machine : Machine) (handle : Handle) : Option ClassRecord :=
  (machine.heap.get? handle).bind Object.class?

/-- The machine with another object under a handle. -/
def rewrite (machine : Machine) (handle : Handle) (change : Object → Object) : Machine :=
  { machine with heap := machine.heap.modify handle change }

/-- The machine with another record of a class or module. -/
def setClass (machine : Machine) (handle : Handle) (record : ClassRecord) : Machine :=
  machine.rewrite handle fun object => { object with content := .classOrModule record }

/-- The machine with one more object. -/
def allocate (machine : Machine) (object : Object) : Machine :=
  { machine with heap := (machine.heap.allocate object).1 }

/-- The machine with greater counters of the method cache. -/
def bump (machine : Machine) (methods hierarchy : Nat) : Machine :=
  { machine with
    methodCache.generation := machine.methodCache.generation + methods
    methodCache.hierarchy := machine.methodCache.hierarchy + hierarchy }

/-- What the machine takes as the class of a new object: a core class, the class of
another object, or what it has just seen to be a class. -/
inductive GivesClass (machine : Machine) : Handle → Prop where
  | core (core : CoreClass) : GivesClass machine (machine.coreClass core)
  | ofObject {handle : Handle} {object : Object} :
      machine.heap.get? handle = some object → GivesClass machine object.classHandle
  | known {handle : Handle} {record : ClassRecord} :
      machine.class? handle = some record → GivesClass machine handle

/-- What the machine takes as the superclass of a new class. -/
inductive GivesSuperclass (machine : Machine) : Handle → Prop where
  | classClass : GivesSuperclass machine (machine.coreClass .classClass)
  | ofObject {handle : Handle} {object superclass : Object} :
      machine.heap.get? handle = some object →
      machine.heap.get? object.classHandle = some superclass →
      GivesSuperclass machine object.classHandle
  | known {handle : Handle} {record : ClassRecord} :
      machine.class? handle = some record → GivesSuperclass machine handle

/-- Whether a handle leads to a class, a module or a singleton class. -/
def kind? (machine : Machine) (handle : Handle) : Option ClassKind :=
  (machine.class? handle).map (·.kind)

/-- The superclass that a class of a kind may have: modules have none, and ordinary classes
inherit from ordinary classes. -/
def Admits (machine : Machine) (kind : ClassKind) (superclass : Option Handle) : Prop :=
  match kind with
  | .ordinary => ∀ parent, superclass = some parent → machine.kind? parent = some .ordinary
  | .module => superclass = none
  | .singleton => True

/-- The cached ancestors of a class, if no superclass or list of includes has changed. -/
def cachedAncestors? (machine : Machine) (handle : Handle) : Option (List Handle) :=
  (machine.class? handle).bind (·.cachedAncestors? machine.methodCache.hierarchy)

/-! ### Look-ups in a changed heap -/

end Machine

/-- Changing an object affects the look-up of its own handle only. -/
theorem Heap.get?_modify (heap : Heap) (handle other : Handle) (change : Object → Object) :
    (heap.modify handle change).get? other =
      if other = handle then (heap.get? handle).map change else heap.get? other := by
  simp only [get?, modify, Array.getElem?_modify]
  by_cases sameSlot : handle.slot = other.slot
  · rw [if_pos sameSlot, ← sameSlot]
    cases heap.cells[handle.slot]? with
    | none => simp
    | some cell =>
        by_cases isHandle : other = handle
        · subst isHandle
          by_cases current : cell.generation = other.generation <;> simp [current]
        · have differs : other.generation ≠ handle.generation := by
            intro sameGeneration
            apply isHandle
            rw [Handle.mk.injEq]
            exact ⟨sameSlot.symm, sameGeneration⟩
          by_cases current : cell.generation = handle.generation
          · simp [isHandle, current, Ne.symm differs]
          · simp [isHandle, current]
  · have isOther : other ≠ handle := fun same => sameSlot (by rw [same])
    rw [if_neg sameSlot, if_neg isOther]

namespace Machine

variable {machine : Machine} {handle : Handle}

theorem get?_rewrite (other : Handle) (change : Object → Object) :
    (machine.rewrite handle change).heap.get? other =
      if other = handle then (machine.heap.get? handle).map change
      else machine.heap.get? other :=
  Heap.get?_modify _ _ _ _

/-- A change that keeps the record of a class keeps it for every look-up. -/
theorem class?_rewrite {change : Object → Object}
    (similar : ∀ object, machine.heap.get? handle = some object →
      (change object).class? = object.class?) (other : Handle) :
    (machine.rewrite handle change).class? other = machine.class? other := by
  rw [class?, class?, get?_rewrite]
  by_cases isHandle : other = handle
  · rw [if_pos isHandle, isHandle]
    cases found : machine.heap.get? handle with
    | none => rfl
    | some object => exact similar object found
  · rw [if_neg isHandle]

theorem class?_reclass (classHandle other : Handle) :
    (machine.rewrite handle fun object => { object with classHandle }).class? other =
      machine.class? other := by
  apply class?_rewrite
  intro object _
  rfl

theorem class?_setClass {record : ClassRecord} (known : machine.class? handle = some record)
    (changed : ClassRecord) (other : Handle) :
    (machine.setClass handle changed).class? other =
      if other = handle then some changed else machine.class? other := by
  rw [class?, setClass, get?_rewrite]
  by_cases isHandle : other = handle
  · obtain ⟨object, found, -⟩ := Option.bind_eq_some_iff.mp known
    rw [if_pos isHandle, if_pos isHandle, found]
    rfl
  · rw [if_neg isHandle, if_neg isHandle, class?]

theorem heap_bump (methods hierarchy : Nat) :
    (machine.bump methods hierarchy).heap = machine.heap := rfl

theorem class?_bump (methods hierarchy : Nat) (other : Handle) :
    (machine.bump methods hierarchy).class? other = machine.class? other := rfl

/-! ### Changes -/

/-- One change of a machine. -/
inductive Change (machine : Machine) : Machine → Prop where
  /-- register stacks, frames, fibers, globals, symbols and what the host keeps in use -/
  | outside {next : Machine} :
      next.heap.cells = machine.heap.cells → next.heap.free = machine.heap.free →
      next.coreClasses = machine.coreClasses → next.methodCache = machine.methodCache →
      Change machine next
  /-- a new object that is no class -/
  | allocate {object : Object} :
      object.class? = none → machine.GivesClass object.classHandle →
      Change machine (machine.allocate object)
  /-- a new class or module, without methods, constants and included modules -/
  | allocateClass {kind : ClassKind} {superclass : Option Handle} {instances : InstanceKind} :
      (∀ parent, superclass = some parent → machine.GivesSuperclass parent) →
      machine.Admits kind superclass →
      Change machine (machine.allocate
        { classHandle := machine.coreClass (if kind = .module then .module else .classClass)
          content := .classOrModule { kind, superclass, instances } })
  /-- another content, other fields or another frozen flag of an object; a class keeps its
  record and other objects do not become classes -/
  | rewrite {handle : Handle} {change : Object → Object} :
      (∀ object, machine.heap.get? handle = some object →
        (change object).classHandle = object.classHandle ∧
          (change object).class? = object.class?) →
      Change machine (machine.rewrite handle change)
  /-- the search for the singleton class of an object, which attaches the missing ones -/
  | attachSingletons {fuel : Nat} {handle : Handle} :
      Change machine ((VM.singletonOf fuel handle).after machine)
  | setInstances {handle : Handle} {record : ClassRecord} {instances : InstanceKind} :
      machine.class? handle = some record →
      Change machine (machine.setClass handle { record with instances })
  | setConstant {handle : Handle} {record : ClassRecord} {name : Symbol} {value : Value} :
      machine.class? handle = some record →
      Change machine (machine.setClass handle
        { record with constants := record.constants.insert name value })
  | setClassVar {handle : Handle} {record : ClassRecord} {name : Symbol} {value : Value} :
      machine.class? handle = some record →
      Change machine (machine.setClass handle
        { record with classVars := record.classVars.insert name value })
  | nameClass {handle outer : Handle} {record : ClassRecord} {name : String} :
      machine.class? handle = some record → record.name = none →
      Change machine (machine.setClass handle
        { record with
          name := some name
          outer := if outer = handle then record.outer else some outer })
  /-- a new entry of a method table -/
  | defineMethod {handle : Handle} {record : ClassRecord} {name : Symbol} {method : Method} :
      machine.class? handle = some record →
      Change machine ((machine.setClass handle
        { record with methods := record.methods.insert name method }).bump 1 0)
  /-- the removal of an entry that is no method, without an invalidation -/
  | discardMethod {handle : Handle} {record : ClassRecord} {name : Symbol} :
      machine.class? handle = some record →
      (∀ method, record.methods.get? name = some method → method = .undefined) →
      Change machine (machine.setClass handle
        { record with methods := record.methods.erase name })
  | removeMethod {handle : Handle} {record : ClassRecord} {name : Symbol} :
      machine.class? handle = some record →
      Change machine ((machine.setClass handle
        { record with methods := record.methods.erase name }).bump 1 0)
  /-- the inclusion of a module that does not have the class among its ancestors -/
  | include {handle module : Handle} {record : ClassRecord} {list : List Handle} :
      machine.class? handle = some record → machine.kind? module = some .module →
      machine.cachedAncestors? module = some list → handle ∉ list →
      Change machine ((machine.setClass handle
        { record with includes := record.includes.push module }).bump 1 1)
  | invalidate {methods hierarchy : Nat} : Change machine (machine.bump methods hierarchy)
  /-- the computation of an ancestor list, which caches the lists on the way -/
  | cacheAncestors {fuel : Nat} {handle : Handle} :
      Change machine ((VM.ancestorsWithin fuel handle).after machine)
  /-- a method that was found in the cached ancestors of a class -/
  | cacheMethod {handle : Handle} {name : Symbol} {list : List Handle}
      {found : FoundMethod} :
      machine.cachedAncestors? handle = some list →
      Query.lookupMethod name list machine = .ok (some found) →
      Change machine ((VM.cacheMethod handle name found).after machine)
  /-- another core class, but no other class of classes -/
  | setCoreClass {core : CoreClass} {handle : Handle} {record : ClassRecord} :
      machine.class? handle = some record → core ≠ .classClass →
      Change machine { machine with coreClasses := machine.coreClasses.insert core handle }
  | collect : Change machine machine.collect

/-- Any number of changes in a row. -/
abbrev Evolution : Machine → Machine → Prop := Relation.ReflTransGen Change

theorem Change.evolution {machine next : Machine} (change : machine.Change next) :
    Evolution machine next :=
  Relation.ReflTransGen.single change

end Machine

end RiteVm
