import RiteVm.Class.Ancestors

/-!
Contract: the methods of classes.

Owns:
- the search for a method in the ancestors of a class, and for the next one behind a
  class, as `super` needs it;
- the cache of found methods;
- definition, removal, undefinition and renaming of methods.

A method is searched in ancestor order. An undefined entry ends the search without a
result.
-/

namespace RiteVm

/-- A method with the class in which it was found. -/
structure FoundMethod where
  method : Method
  owner : Handle
deriving DecidableEq, Repr

namespace Query

/-- The first entry for a name in a list of classes, unless it is undefined. -/
def lookupMethod (name : Symbol) : List Handle → Query (Option FoundMethod)
  | [] => return none
  | owner :: rest => do
    match (← classRecord owner).methods.get? name with
    | some .undefined => return none
    | some method => return some { method, owner }
    | none => lookupMethod name rest

/-- The cached method, if no table changed since it was found. -/
def cachedMethod? (handle : Handle) (name : Symbol) : Query (Option FoundMethod) :=
  fun machine =>
    .ok <|
      match machine.methodCache.entries[(handle, name)]? with
      | some entry =>
        if entry.generation = machine.methodCache.generation then
          some { method := entry.method, owner := entry.owner }
        else none
      | none => none

end Query

namespace VM

/-- Keeps a found method in the cache. -/
def cacheMethod (handle : Handle) (name : Symbol) (found : FoundMethod) : VM Unit :=
  modify fun machine =>
    { machine with
      methodCache.entries :=
        machine.methodCache.entries.insert (handle, name)
          { generation := machine.methodCache.generation, method := found.method,
            owner := found.owner } }

/-- The method that instances of a class have under a name. -/
def findMethod (handle : Handle) (name : Symbol) : VM (Option FoundMethod) := do
  match ← Query.cachedMethod? handle name with
  | some found => return some found
  | none =>
    match ← Query.lookupMethod name (← ancestors handle) with
    | some found =>
      cacheMethod handle name found
      return some found
    | none => return none

/-- What `super` finds. -/
inductive SuperMethod where
  | found (method : FoundMethod)
  /-- no class behind the owner has the method -/
  | missing
  /-- the owner is no ancestor of the class -/
  | unrelated
deriving DecidableEq, Repr

/-- The method of a name behind a class in the ancestors of another class. -/
def findSuperMethod (handle owner : Handle) (name : Symbol) : VM SuperMethod := do
  match (← ancestors handle).dropWhile (· != owner) with
  | [] => return .unrelated
  | _ :: rest =>
    match ← Query.lookupMethod name rest with
    | some found => return .found found
    | none => return .missing

/-- Enters a method without any check. -/
def addMethod (handle : Handle) (name : Symbol) (method : Method) : VM Unit := do
  modifyClass handle fun record => { record with methods := record.methods.insert name method }
  invalidateMethods

/-- Defines a method. -/
def setMethod (handle : Handle) (name : Symbol) (method : Method) : VM Unit := do
  checkFrozenClass handle
  addMethod handle name method

/-- Defines a method that is no bytecode under a name given as text. -/
def defineMethod (handle : Handle) (name : String) (body : NativeMethod) : VM Unit := do
  setMethod handle (← internText name) (.native body)

/-- Raises for a method that a class does not have. -/
def raiseUndefinedMethod {α : Type} (handle : Handle) (name : Symbol) : VM α := do
  let method ← Query.symbolText name
  raiseNameError s!"undefined method '{method}' for class '{← Query.className handle}'" name

/-- Removes a method from the table of a class. An undefined entry is removed as well, but
reported as no method. -/
def removeMethod (handle : Handle) (name : Symbol) : VM Unit := do
  checkFrozenClass handle
  let entry := (← Query.classRecord handle).methods.get? name
  modifyClass handle fun record => { record with methods := record.methods.erase name }
  match entry with
  | none | some .undefined =>
    let method ← Query.symbolText name
    raiseNameError s!"method '{method}' not defined in {← Query.className handle}" name
  | some _ => invalidateMethods

/-- Ends the search for a name at a class. -/
def undefMethod (handle : Handle) (name : Symbol) : VM Unit := do
  checkClass handle
  match ← findMethod handle name with
  | some _ => setMethod handle name .undefined
  | none => raiseUndefinedMethod handle name

/-- Gives a method a second name. -/
def aliasMethod (handle : Handle) (new old : Symbol) : VM Unit := do
  checkClass handle
  match ← findMethod handle old with
  | some found => setMethod handle new found.method
  | none => raiseUndefinedMethod handle old

/-- Whether a value has a method. -/
def respondsTo (value : Value) (name : Symbol) : VM Bool := do
  return (← findMethod (← Query.classOf value) name).isSome

end VM

end RiteVm
