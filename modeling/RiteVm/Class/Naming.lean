import RiteVm.Machine.Failure
import RiteVm.Text.Printable

/-!
Contract: the class of a value and the names of classes.

Owns:
- the class that methods are looked up in, and the first class above it that is no
  singleton class;
- the name of a class, also of one without a constant;
- the name of a value's type in messages.
-/

namespace RiteVm.Query

/-- The class in which methods of a value are looked up. -/
def classOf (value : Value) : Query Handle :=
  match value with
  | .nil => coreClass .nil
  | .false => coreClass .false
  | .true => coreClass .true
  | .int _ => coreClass .integer
  | .float _ => coreClass .float
  | .symbol _ => coreClass .symbol
  | .object handle => do return (← object handle).classHandle

/-- The first class from a class upward that is no singleton class. -/
def nominalClass : Nat → Handle → Query Handle
  | 0, _ => breach .endless
  | fuel + 1, handle => do
    let current ← object handle
    if current.isSingletonClass then
      match (← classRecord handle).superclass with
      | some superclass => nominalClass fuel superclass
      | none => breach (.noSuperclass handle)
    else return handle

/-- The class of a value without singleton classes. -/
def realClassOf (value : Value) : Query Handle := do
  nominalClass (← heapBound) (← classOf value)

/-- The number of an object as it stands in texts. -/
def identityText (handle : Handle) : String := s!"0x{Text.hex handle.identity}"

/-- The name of a class; a singleton class is named after its object. -/
def classNameWithin : Nat → Handle → Query String
  | 0, _ => breach .endless
  | fuel + 1, handle => do
    let record ← classRecord handle
    match record.name with
    | some name => return name
    | none =>
      match record.kind, record.attached with
      | .singleton, some attached =>
        match (← object attached).class? with
        | some _ => return s!"#<Class:{← classNameWithin fuel attached}>"
        | none =>
          let nominal ← realClassOf (.object attached)
          return s!"#<Class:#<{← classNameWithin fuel nominal}>>"
      | .module, _ => return s!"#<Module:{identityText handle}>"
      | _, _ => return s!"#<Class:{identityText handle}>"

/-- The name of a class. -/
def className (handle : Handle) : Query String := do
  classNameWithin (← heapBound) handle

/-- The name of a value's type in messages. -/
def typeName (value : Value) : Query String :=
  match value with
  | .nil => return "nil"
  | .true => return "true"
  | .false => return "false"
  | _ => do className (← realClassOf value)

/-- Whether a value is a class or module. -/
def isClassOrModule (value : Value) : Query Bool := do
  return (← part? Object.class? value).isSome

/-- Whether a value is a module. -/
def isModule (value : Value) : Query Bool := do
  return ((← object? value).map Object.isModule).getD false

/-- The kind of a value as a host sees it. -/
def kindOf (value : Value) : Query ValueKind :=
  match value with
  | .nil => return .nil
  | .false => return .false
  | .true => return .true
  | .int _ => return .integer
  | .float _ => return .float
  | .symbol _ => return .symbol
  | .object handle => do return (← object handle).kind

end RiteVm.Query
