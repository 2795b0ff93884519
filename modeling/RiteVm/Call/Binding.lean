import RiteVm.Bytecode.Operands
import RiteVm.Call.Frame

/-!
Contract: binding the arguments of a call to parameters.

Owns:
- the distribution of positional arguments over required, optional, rest and post
  parameters;
- the keyword dictionary of a frame, from which declared keywords are taken;
- the instructions that bind arguments and take keywords.

A strict proc counts its arguments. A lenient one drops what is too much, fills up with
nil, and spreads a single array over more than one parameter.
-/

namespace RiteVm

open RiteVm.Bytecode

/-- Positional arguments distributed over parameters. -/
structure BoundArgs where
  /-- required parameters, then optional ones -/
  leading : List Value
  /-- the items of the rest parameter, if there is one -/
  rest : Option (List Value)
  post : List Value
  /-- number of optional parameters that have an argument -/
  optionalCount : Nat
deriving DecidableEq, Repr

/-- The arguments of a frame, before they are bound to its parameters. -/
structure PassedArgs where
  strict : Bool
  args : List Value
  keywords? : Option Value
  block : Value

/-- A list filled up with nil to a length. -/
def padNil (values : List Value) (length : Nat) : List Value :=
  values ++ List.replicate (length - values.length) .nil

namespace Bytecode.ArgSpec

/-- Number of required parameters. -/
def mandatory (spec : ArgSpec) : Nat := spec.required + spec.post

/-- Number of parameters for single arguments. -/
def capacity (spec : ArgSpec) : Nat := spec.required + spec.optional + spec.post

/-- Number of registers for positional parameters. -/
def parameterCount (spec : ArgSpec) : Nat :=
  spec.required + spec.optional + (if spec.rest then 1 else 0) + spec.post

/-- Whether a strict proc accepts a number of arguments. -/
def accepts (spec : ArgSpec) (count : Nat) : Bool :=
  spec.mandatory ≤ count && (spec.rest || count ≤ spec.capacity)

/-- How many arguments are expected, as it stands in messages. -/
def arityText (spec : ArgSpec) : String :=
  if spec.rest then RiteVm.arityText spec.mandatory none
  else RiteVm.arityText spec.mandatory (some spec.capacity)

/-- The effective positional arguments, given the items of a single argument that is an
array. A lenient proc spreads these over its parameters if it has more than one. -/
def spread (spec : ArgSpec) (strict : Bool) (args : List Value)
    (items? : Option (Array Value)) : List Value :=
  match args, items? with
  | [_], some items => if !strict && 1 < spec.parameterCount then items.toList else args
  | _, _ => args

/-- Distributes positional arguments. If there are too few for the required parameters,
these are filled from the left. -/
def bind (spec : ArgSpec) (args : List Value) : BoundArgs :=
  let args := if spec.rest then args else args.take spec.capacity
  let leadingCount := spec.required + spec.optional
  if spec.mandatory ≤ args.length then
    let optionalCount := min (args.length - spec.mandatory) spec.optional
    let taken := spec.required + optionalCount
    let postStart := args.length - spec.post
    { leading := padNil (args.take taken) leadingCount
      rest := if spec.rest then some ((args.take postStart).drop taken) else none
      post := args.drop postStart
      optionalCount }
  else
    { leading := padNil (args.take spec.required) leadingCount
      rest := if spec.rest then some [] else none
      post := padNil (args.drop spec.required) spec.post
      optionalCount := 0 }

end Bytecode.ArgSpec

namespace Query

/-- Reads the arguments that a frame was called with. Without keyword parameters, keywords
are one more positional argument. -/
def passedArgs (base : Nat) (frame : Frame) (spec : ArgSpec) : Query PassedArgs := do
  let site : CallSite :=
    { receiverAt := base, argCount := frame.argCount, hasKeywords := frame.hasKeywords }
  let strict ←
    match frame.proc with
    | some proc => isStrict proc
    | none => pure true
  let positional ← positionalAt site
  let keywords? ←
    if frame.hasKeywords then some <$> slot site.keywordsAt else pure none
  let block ← slot site.blockAt
  let extra ←
    match keywords? with
    | some keywords => do
      let isEmpty ← hasNoEntries keywords
      pure (if spec.takesKeywords || isEmpty then [] else [keywords])
    | none => pure []
  let given := positional ++ extra
  let items? ←
    match given with
    | [single] => array? single
    | _ => pure none
  return { strict, args := spec.spread strict given items?, keywords?, block }

end Query

namespace VM

/-- The keyword dictionary of a frame: a copy of the keyword hash that was passed. -/
def newDictionary (keywords? : Option Value) : VM Value := do
  let dictionary ← newHash
  keywords?.forM (hashMerge dictionary)
  return dictionary

/-- Writes bound arguments to the registers of the running frame. The address moves past
the default of each optional parameter that has an argument. -/
def placeArgs (base : Nat) (frame : Frame) (spec : ArgSpec) (bound : BoundArgs)
    (keywords? : Option Value) (block : Value) : VM Unit := do
  let rest ← bound.rest.mapM fun items => newArray items.toArray
  let parameters := bound.leading ++ rest.toList ++ bound.post
  setSlots (base + 1) parameters
  let next := base + 1 + parameters.length
  let next ←
    if spec.takesKeywords then do
      setSlot next (← newDictionary keywords?)
      modifyFrame ({ · with keywordRegister := some (1 + parameters.length) })
      pure (next + 1)
    else pure next
  setSlot next block
  let localCount := (frame.unit.map (·.localCount.toNat)).getD 0
  setSlots (next + 1) (List.replicate (base + localCount - (next + 1)) .nil)
  modifyFrame fun frame =>
    { frame with
      top := max frame.top (next + 1)
      pc := frame.pc + bound.optionalCount * 3 }

/-- Binds the arguments of the running frame to its parameters. -/
def enter (base : Nat) (spec : ArgSpec) : VM Unit := do
  let frame ← Query.frame
  let passed ← Query.passedArgs base frame spec
  if passed.strict && !spec.accepts passed.args.length then
    raiseArity passed.args.length spec.arityText
  placeArgs base frame spec (spec.bind passed.args) passed.keywords? passed.block

/-- The keyword dictionary of the running frame. -/
def dictionary? (base : Nat) : Query (Option Value) := do
  (← Query.frame).keywordRegister.mapM fun register => Query.register base register

/-- Takes a keyword out of the dictionary; raises if it is missing. -/
def takeKeyword (base : Nat) (name : Symbol) : VM Value := do
  let digest ← Query.digest
  let found ←
    match ← dictionary? base with
    | some (.object handle) => withHash handle (·.remove digest (.symbol name))
    | _ => pure none
  match found with
  | some value => return value
  | none => raise .argumentError s!"missing keyword: {← Query.symbolText name}"

/-- Whether a keyword is in the dictionary. -/
def hasKeyword (base : Nat) (name : Symbol) : Query Bool := do
  match ← dictionary? base with
  | some dictionary => return (← Query.hashGet? dictionary (.symbol name)).isSome
  | none => return false

/-- Raises if a keyword is left in the dictionary. -/
def checkKeywords (base : Nat) : VM Unit := do
  match ← dictionary? base with
  | some dictionary =>
    if let (key, _) :: _ := (← Query.hashPairs? dictionary).getD [] then
      raise .argumentError s!"unknown keyword: {← Query.inspect key}"
  | none => return

end VM

end RiteVm
