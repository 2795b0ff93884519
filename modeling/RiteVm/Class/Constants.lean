import RiteVm.Class.Ancestors

/-!
Contract: constants and class variables.

Owns:
- the constants of classes, and naming a class after the constant it is first stored in;
- the look-up of a constant from inside a class: the enclosing classes outward, then the
  ancestors, then `Object`;
- class variables, which are shared along the ancestors.

The walk along enclosing classes is bounded by the size of the heap.
-/

namespace RiteVm

namespace Query

/-- The first class of a list in which a table has an entry for a name, with the value of
the entry. -/
def firstEntry? (table : ClassRecord → Table Symbol Value) (name : Symbol) :
    List Handle → Query (Option (Handle × Value))
  | [] => return none
  | handle :: rest => do
    match (table (← classRecord handle)).get? name with
    | some value => return some (handle, value)
    | none => firstEntry? table name rest

/-- The constant of the first enclosing class that has it, by fewer steps than the fuel. -/
def constInScopes (name : Symbol) : Nat → Handle → Query (Option Value)
  | 0, _ => breach .endless
  | fuel + 1, handle => do
    let record ← classRecord handle
    match record.constants.get? name, record.outer with
    | some value, _ => return some value
    | none, some outer => constInScopes name fuel outer
    | none, none => return none

end Query

namespace VM

/-- Names a class after a constant of another class, unless it has a name. The class of
the constant then encloses it. -/
def nameClass (outer handle : Handle) (name : Symbol) : VM Unit := do
  if (← Query.classRecord handle).name.isNone then
    let text ← Query.symbolText name
    let isTopLevel := outer = (← Query.coreClass .object)
    let full ←
      if isTopLevel then pure text
      else do
        let outerName ← Query.className outer
        pure s!"{outerName}::{text}"
    modifyClass handle fun record =>
      { record with
        name := some full
        outer := if outer = handle then record.outer else some outer }

/-- Sets a constant. -/
def setConst (handle : Handle) (name : Symbol) (value : Value) : VM Unit := do
  checkFrozenClass handle
  match value with
  | .object stored =>
    if (← Query.object stored).class?.isSome then nameClass handle stored name
  | _ => pure ()
  modifyClass handle fun record =>
    { record with constants := record.constants.insert name value }

/-- Sets a constant with a name given as text. -/
def defineConst (handle : Handle) (name : String) (value : Value) : VM Unit := do
  setConst handle (← internText name) value

/-- The constant that a class, an ancestor or `Object` has. -/
def constInAncestors (handle : Handle) (name : Symbol) : VM (Option Value) := do
  let list ← ancestors handle
  let object ← Query.coreClass .object
  return (← Query.firstEntry? (·.constants) name (list ++ [object])).map (·.2)

/-- The constant that a host finds under a name. -/
def getConst? (handle : Handle) (name : String) : VM (Option Value) := do
  if (← Query.object handle).class?.isNone then return none
  match (← get).symbols.lookup? (Text.utf8 name) with
  | some symbol => constInAncestors handle symbol
  | none => return none

/-- The constant that code inside a class sees under a name. -/
def lexicalConst (scope : Handle) (name : Symbol) : VM Value := do
  match ← Query.constInScopes name (← Query.heapBound) scope with
  | some value => return value
  | none =>
    match ← constInAncestors scope name with
    | some value => return value
    | none => raiseNameError s!"uninitialized constant {← Query.symbolText name}" name

/-- The class variable that a class or an ancestor has. -/
def getClassVar (handle : Handle) (name : Symbol) : VM Value := do
  match ← Query.firstEntry? (·.classVars) name (← ancestors handle) with
  | some (_, value) => return value
  | none =>
    let text ← Query.symbolText name
    raiseNameError
      s!"uninitialized class variable {text} in {← Query.className handle}" name

/-- Sets the class variable of the first ancestor that has it, or else of the class. -/
def setClassVar (handle : Handle) (name : Symbol) (value : Value) : VM Unit := do
  let owner? ← Query.firstEntry? (·.classVars) name (← ancestors handle)
  modifyClass ((owner?.map (·.1)).getD handle) fun record =>
    { record with classVars := record.classVars.insert name value }

end VM

end RiteVm
