import RiteVm.Core.Objects

/-!
Contract: the methods of modules and classes.

Owns: what each of `ModuleMethod` does, creation of instances and of classes without a
name, and accessors of instance variables.
-/

namespace RiteVm

namespace Query

/-- The first superclass of a class that is no singleton class, by fewer steps than the
fuel. -/
def nominalSuperclass : Nat → Handle → Query Value
  | 0, _ => breach .endless
  | fuel + 1, handle => do
    match (← classRecord handle).superclass with
    | none => return .nil
    | some superclass =>
      if (← classRecord superclass).kind = .singleton then nominalSuperclass fuel superclass
      else return .object superclass

end Query

namespace VM

/-- A new instance of a class that was not initialized. -/
def allocateInstance (handle : Handle) : VM Value := do
  let record ← Query.classRecord handle
  match record.kind with
  | .singleton => raise .typeError "can't create instance of singleton class"
  | .module =>
    let name ← Query.className handle
    raiseNoMethod s!"undefined method 'new' for module {name}" (.object handle) .new
  | .ordinary =>
    let content ←
      match record.instances with
      | .plain => pure Content.plain
      | .string => pure (.string #[])
      | .array => pure (.array #[])
      | .hash => pure (.hash .empty)
      | .exception => pure (.exception {})
      | .special => raise .typeError s!"allocator undefined for {← Query.className handle}"
    return .object (← allocate { classHandle := handle, content })

/-- A new class without a name, whose body may be a block. -/
def newClass (engine : Engine) (args : Args) : VM Value := do
  checkArity args 0 (some 1)
  let superclass ←
    if (args.get 0).isNil then Query.coreClass .object else expectModule (args.get 0)
  let record ← Query.classRecord superclass
  if record.kind ≠ .ordinary then raise .typeError "superclass must be a Class"
  let handle ← allocateClass .ordinary (some superclass) record.instances
  let _ ← singletonClass (.object handle)
  match args.block? with
  | some block =>
    let body ← expectProc block
    modifyHeap (·.protect (.object handle))
    let _ ← callProc engine (.object body) [.object handle]
  | none => pure ()
  return .object handle

/-- A new instance of a class, which is told to initialize itself. -/
def newInstance (engine : Engine) (self : Value) (args : Args) : VM Value := do
  let handle ← expectModule self
  if handle = (← Query.coreClass .classClass) then newClass engine args
  else
    let object ← allocateInstance handle
    modifyHeap (·.protect object)
    let _ ← callWithArgs engine object .initMethod args
    return object

/-- The symbols that the positional arguments name. -/
def symbolArgs (args : Args) : VM (List Symbol) := args.positional.mapM symbolOf

/-- Includes modules so that the first one comes first in the ancestors. -/
def includeAll (handle : Handle) (modules : List Value) : VM Unit :=
  modules.reverse.forM fun module => do includeModule handle (← expectModule module)

/-- Defines the accessors of an attribute and lists their names. -/
def defineAttribute (handle : Handle) (reader writer : Bool) (name : Symbol) :
    VM (List Value) := do
  let text ← Query.symbolText name
  let instanceVar ← internText s!"@{text}"
  let readers ←
    if reader then do
      defineMethod handle text (.module (.readAttribute instanceVar))
      pure [.symbol name]
    else pure []
  let writers ←
    if writer then do
      let setter := text ++ "="
      defineMethod handle setter (.module (.writeAttribute instanceVar))
      pure [.symbol (← internText setter)]
    else pure []
  return readers ++ writers

/-- The proc that becomes the body of a defined method. -/
def methodBody (args : Args) : VM Handle := do
  match args.get 1, args.block? with
  | .nil, some block => expectProc block
  | .nil, none => raise .argumentError "tried to create Proc object without a block"
  | body, _ => expectProc body

/-- Runs a method of modules and classes. -/
def runModuleMethod (engine : Engine) (self : Value) (args : Args) :
    ModuleMethod → VM Value
  | .include => do
    checkArity args 1 none
    includeAll (← expectModule self) args.positional
    return self
  | .includes => do
    let handle ← expectModule self
    let module ← expectModule (args.get 0)
    if module = handle then return .false
    if ← Query.isModule (.object module) then
      return .ofBool ((← ancestors handle).contains module)
    else return .false
  | .ancestors => do
    let list ← ancestors (← expectModule self)
    let nominal ← list.filterM fun handle => do
      return (← Query.classRecord handle).kind != .singleton
    newArray (nominal.map .object).toArray
  | .name => do
    match (← Query.classRecord (← expectModule self)).name with
    | some name => newText name
    | none => return .nil
  | .toS => do newText (← Query.className (← expectModule self))
  | .caseEqual => do
    let handle ← expectModule self
    return .ofBool (← isKindOf (args.get 0) handle)
  | .removeMethod => do
    let handle ← expectModule self
    (← symbolArgs args).forM (removeMethod handle)
    return self
  | .undefMethod => do
    let handle ← expectModule self
    (← symbolArgs args).forM (undefMethod handle)
    return self
  | .aliasMethod => do
    checkArity args 2 (some 2)
    let handle ← expectModule self
    let new ← symbolArg args 0
    let old ← symbolArg args 1
    aliasMethod handle new old
    return .symbol new
  | .defineMethod => do
    checkArity args 1 (some 2)
    let handle ← expectModule self
    let name ← symbolArg args 0
    let body ← strictCopy (← methodBody args)
    setMethod handle name (.proc body)
    return .symbol name
  | .constGet => do
    let handle ← expectModule self
    let name ← symbolArg args 0
    match ← constInAncestors handle name with
    | some value => return value
    | none => raiseNameError s!"uninitialized constant {← Query.symbolText name}" name
  | .constSet => do
    let handle ← expectModule self
    let name ← symbolArg args 0
    setConst handle name (args.get 1)
    return args.get 1
  | .attributes reader writer => do
    let handle ← expectModule self
    let defined ← (← symbolArgs args).mapM (defineAttribute handle reader writer)
    newArray defined.flatten.toArray
  | .readAttribute name => Query.instanceVar self name
  | .writeAttribute name => do
    checkArity args 1 (some 1)
    setInstanceVar self name (args.get 0)
    return args.get 0
  | .new => newInstance engine self args
  | .allocate => do allocateInstance (← expectModule self)
  | .superclass => do
    let handle ← expectModule self
    Query.nominalSuperclass (← Query.heapBound) handle

end VM

end RiteVm
