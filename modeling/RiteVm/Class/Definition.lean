import RiteVm.Class.Constants
import RiteVm.Class.Methods

/-!
Contract: the creation of classes and modules.

Owns:
- new class objects, and the singleton class of an object;
- opening a class or module under a constant, which creates it unless it exists.

The singleton class of a class inherits from the singleton class of the superclass, so
class methods are inherited. Every opened class has its singleton class from the start.
-/

namespace RiteVm.VM

/-- A new class or module without a name. -/
def allocateClass (kind : ClassKind) (superclass : Option Handle)
    (instances : InstanceKind) : VM Handle := do
  let classHandle ← Query.coreClass (if kind = .module then .module else .classClass)
  allocate { classHandle, content := .classOrModule { kind, superclass, instances } }

/-- A new singleton class of an object above the given class. -/
def attachSingleton (handle superclass : Handle) : VM Handle := do
  let singleton ← allocateClass .singleton (some superclass) .special
  modifyClass singleton fun record => { record with attached := some handle }
  modifyObject handle fun object => { object with classHandle := singleton }
  invalidateHierarchy
  return singleton

/-- The singleton class of an object, created if there is none, by a chain of superclasses
shorter than the fuel. -/
def singletonOf : Nat → Handle → VM Handle
  | 0, _ => breach .endless
  | fuel + 1, handle => do
    let object ← Query.object handle
    let current := object.classHandle
    let isOwn ← do
      if (← Query.object current).isSingletonClass then
        pure ((← Query.classRecord current).attached == some handle)
      else pure false
    if isOwn then return current
    match object.class? with
    | none => attachSingleton handle current
    | some record =>
      if record.kind = .module then attachSingleton handle current
      else
        match record.superclass with
        | some superclass => attachSingleton handle (← singletonOf fuel superclass)
        | none => attachSingleton handle (← Query.coreClass .classClass)

/-- The singleton class of a value. Nil, true and false share the one of their class. -/
def singletonClass (value : Value) : VM Handle := do
  match value with
  | .object handle => singletonOf (← Query.heapBound) handle
  | .nil | .true | .false => Query.classOf value
  | _ => raise .typeError "can't define singleton"

/-- The handle of a value that is an ordinary class. -/
def ordinaryClass? (value : Value) : Query (Option Handle) := do
  match value, ← Query.part? Object.class? value with
  | .object handle, some record => return if record.kind = .ordinary then some handle else none
  | _, _ => return none

/-- The class under a constant. It is created if the constant is missing; otherwise its
superclass has to be the given one, if there is one. -/
def openClass (outer : Handle) (name : Symbol) (superclass? : Option Handle) : VM Handle := do
  match (← Query.classRecord outer).constants.get? name with
  | some existing =>
    match ← ordinaryClass? existing with
    | none => raise .typeError s!"{← Query.symbolText name} is not a class"
    | some handle =>
      if superclass?.isSome ∧ (← Query.classRecord handle).superclass ≠ superclass? then
        raise .typeError s!"superclass mismatch for class {← Query.symbolText name}"
      return handle
  | none =>
    let superclass := superclass?.getD (← Query.coreClass .object)
    let record ← Query.classRecord superclass
    if record.kind ≠ .ordinary then raise .typeError "superclass must be a Class"
    let handle ← allocateClass .ordinary (some superclass) record.instances
    let _ ← singletonClass (.object handle)
    nameClass outer handle name
    setConst outer name (.object handle)
    return handle

/-- The module under a constant, created if the constant is missing. -/
def openModule (outer : Handle) (name : Symbol) : VM Handle := do
  match (← Query.classRecord outer).constants.get? name with
  | some existing =>
    match existing, ← Query.isModule existing with
    | .object handle, true => return handle
    | _, _ => raise .typeError s!"{← Query.symbolText name} is not a module"
  | none =>
    let handle ← allocateClass .module none .special
    nameClass outer handle name
    setConst outer name (.object handle)
    return handle

/-- Opens a class for a host. -/
def defineClassUnder (outer : Handle) (name : String) (superclass? : Option Handle) :
    VM Handle := do
  checkClass outer
  superclass?.forM checkClass
  openClass outer (← internText name) superclass?

/-- Opens a class under `Object` for a host. -/
def defineClass (name : String) (superclass? : Option Handle) : VM Handle := do
  defineClassUnder (← Query.coreClass .object) name superclass?

/-- Opens a module for a host. -/
def defineModuleUnder (outer : Handle) (name : String) : VM Handle := do
  checkClass outer
  openModule outer (← internText name)

/-- Opens a module under `Object` for a host. -/
def defineModule (name : String) : VM Handle := do
  defineModuleUnder (← Query.coreClass .object) name

/-- Defines a method of a single object. -/
def defineSingletonMethod (value : Value) (name : String) (body : NativeMethod) : VM Unit := do
  defineMethod (← singletonClass value) name body

end RiteVm.VM
