import RiteVm.Machine.Raise

/-!
Contract: the order in which classes and modules are searched.

Owns:
- the ancestor list of a class: the class itself, the ancestors of its included modules,
  those of the last inclusion first, and the ancestors of its superclass, each one once;
- the cached copy of the list, which holds while no superclass or include list changes;
- whether a value is an instance of a class or module;
- inclusion of a module, refused where it would close a cycle.

The walk along superclasses and includes is bounded by the size of the heap, which no
path without a repetition exceeds.
-/

namespace RiteVm

/-- The members of a second list behind those of a first one, without repeating any. -/
def appendNew (list more : List Handle) : List Handle :=
  more.foldl (fun merged handle => if handle ∈ merged then merged else merged ++ [handle]) list

/-- The classes that a class takes over from directly, in the order of the search. -/
def ClassRecord.parents (record : ClassRecord) : List Handle :=
  record.includes.toList.reverse ++ record.superclass.toList

/-- The cached ancestors, if they were computed in a generation of the hierarchy. -/
def ClassRecord.cachedAncestors? (record : ClassRecord) (generation : Nat) :
    Option (List Handle) :=
  match record.ancestors with
  | some cached => if cached.generation = generation then some cached.list else none
  | none => none

namespace VM

/-- Changes a class or module. -/
def modifyClass (handle : Handle) (change : ClassRecord → ClassRecord) : VM Unit := do
  let record ← Query.classRecord handle
  setContent handle (.classOrModule (change record))

/-- Declares every cached method invalid. -/
def invalidateMethods : VM Unit :=
  modify fun machine =>
    { machine with
      methodCache.generation := machine.methodCache.generation + 1 }

/-- Declares every cached method and ancestor list invalid. -/
def invalidateHierarchy : VM Unit := do
  invalidateMethods
  modify fun machine =>
    { machine with
      methodCache.hierarchy := machine.methodCache.hierarchy + 1 }

/-- The ancestors of a class, by paths that are shorter than the fuel. -/
def ancestorsWithin : Nat → Handle → VM (List Handle)
  | 0, _ => breach .endless
  | fuel + 1, handle => do
    let generation := (← get).methodCache.hierarchy
    let record ← Query.classRecord handle
    match record.cachedAncestors? generation with
    | some list => return list
    | none =>
      let list ← record.parents.foldlM
        (fun list parent => do return appendNew list (← ancestorsWithin fuel parent)) [handle]
      modifyClass handle ({ · with ancestors := some { generation, list } })
      return list

/-- The ancestors of a class or module, itself first. -/
def ancestors (handle : Handle) : VM (List Handle) := do
  ancestorsWithin (← Query.heapBound) handle

/-- Whether a value is an instance of a class or module. -/
def isKindOf (value : Value) (handle : Handle) : VM Bool := do
  return (← ancestors (← Query.classOf value)).contains handle

/-- Raises unless an object is a class or module. -/
def checkClass (handle : Handle) : VM Unit := do
  if (← Query.object handle).class?.isNone then
    raise .typeError s!"{← Query.inspect (.object handle)} is not a class/module"

/-- Raises unless an object is a class or module that can be changed. -/
def checkFrozenClass (handle : Handle) : VM Unit := do
  checkClass handle
  if (← Query.object handle).frozen then
    raise .frozenError s!"can't modify frozen {← Query.className handle}"

/-- Includes a module in a class or module. A module that is an ancestor already is not
included again. -/
def includeModule (handle module : Handle) : VM Unit := do
  if ← (! ·) <$> Query.isModule (.object module) then
    let given ← Query.className (← Query.classOf (.object module))
    raise .typeError s!"wrong argument type {given} (expected Module)"
  checkFrozenClass handle
  if (← ancestors handle).contains module then return
  if (← ancestors module).contains handle then
    raise .argumentError "cyclic include detected"
  modifyClass handle fun record => { record with includes := record.includes.push module }
  invalidateHierarchy

end VM

end RiteVm
