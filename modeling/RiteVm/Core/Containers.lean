import RiteVm.Call.Args
import RiteVm.Call.Dispatch

/-!
Contract: the methods of strings, symbols, arrays, hashes and ranges.

Owns: what each of `TextMethod`, `ArrayMethod`, `HashMethod` and `RangeMethod` does.

A string is a sequence of bytes; its length counts characters, where each malformed sequence counts
as one. A block that is called for the items of an array sees the array change: the next item is
looked up when its turn comes. The pairs of a hash are fixed when the walk begins.
-/

namespace RiteVm.VM

/-- The bytes of a string, none for another value. -/
def bytesOrEmpty (value : Value) : Query Bytes := do return (← Query.string? value).getD #[]

/-- Runs a method of strings and symbols. -/
def runTextMethod (self : Value) (args : Args) : TextMethod → VM Value
  | .concat => do
    checkArity args 1 (some 1)
    let bytes ← bytesOrEmpty self
    match ← Query.string? (args.get 0) with
    | some more => newString (bytes ++ more)
    | none =>
      let given ← Query.typeName (args.get 0)
      raise .typeError s!"no implicit conversion of {given} into String"
  | .equal => do
    match ← Query.string? self, ← Query.string? (args.get 0) with
    | some left, some right => return .ofBool (left == right)
    | _, _ => return .false
  | .length => do
    let text := (← Query.text? self).getD ""
    return .int (.ofNat text.length)
  | .intern => return .symbol (← intern (← bytesOrEmpty self))
  | .inspect => do newText (← Query.inspect self)
  | .symbolToS => do
    match self with
    | .symbol name => newString (← Query.symbolBytes name)
    | _ => newString #[]
  | .self => return self

end RiteVm.VM

namespace RiteVm

/-- The items from a start for a count; nothing for a start outside the array. -/
def sliceOf? (items : Array Value) (start count : Int) : Option (Array Value) :=
  let position := positionIn items.size start
  if position < 0 ∨ items.size < position ∨ count < 0 then none
  else some (items.extract position.toNat (position + count).toNat)

namespace VM

/-- Calls a block with each value of a list. -/
def callEach (engine : Engine) (block : Value) : List Value → VM Unit
  | [] => return
  | value :: rest => do
    let _ ← callProc engine block [value]
    callEach engine block rest

/-- Calls a block with each item of an array from an index on, for as long as there are
items. -/
def callItems (engine : Engine) (block array : Value) : Nat → Nat → VM Unit
  | 0, _ => throw .outOfFuel
  | rounds + 1, index => do
    match ← Query.arrayItem? array index with
    | none => return
    | some item =>
      let _ ← callProc engine block [item]
      callItems engine block array rounds (index + 1)

/-- Calls a block with an array of each key and value. -/
def callPairs (engine : Engine) (block : Value) : List (Value × Value) → VM Unit
  | [] => return
  | (key, value) :: rest => do
    let pair ← newArray #[key, value]
    let _ ← callProc engine block [pair]
    callPairs engine block rest

/-- Whether two values are equal. Objects other than strings are asked. -/
def areEqual (engine : Engine) (left right : Value) : VM Bool := do
  match Value.quickEqual? left right with
  | some result => return result
  | none =>
    if left.equal right then return true
    match ← Query.string? left, ← Query.string? right with
    | some left, some right => return left == right
    | _, _ => return (← callWith engine left .opEq [right]).isTruthy

/-- Whether the values of two lists are equal in pairs. -/
def areAllEqual (engine : Engine) : List (Value × Value) → VM Bool
  | [] => return true
  | (left, right) :: rest => do
    if ← areEqual engine left right then areAllEqual engine rest else return false

/-- Removes the last item of an array. -/
def popItem (array : Value) : VM Value := do
  checkFrozen array
  match array, (← Query.array? array).map Array.back? with
  | .object handle, some last? =>
    modifyItems handle (·.pop)
    return last?.getD .nil
  | _, _ => return .nil

/-- Runs a method of arrays. -/
def runArrayMethod (engine : Engine) (self : Value) (args : Args) : ArrayMethod → VM Value
  | .get => do
    checkArity args 1 (some 2)
    let start ← intArg args 0
    if args.size = 1 then return (← Query.arrayItem? self start.toInt).getD .nil
    let count ← intArg args 1
    match sliceOf? ((← Query.array? self).getD #[]) start.toInt count.toInt with
    | some slice => newArray slice
    | none => return .nil
  | .set => do
    checkArity args 2 (some 2)
    let index ← intArg args 0
    arrayStore self index.toInt (args.get 1)
    return args.get 1
  | .push => do
    args.positional.forM (arrayPush self)
    return self
  | .append => do
    checkArity args 1 (some 1)
    arrayPush self (args.get 0)
    return self
  | .pop => popItem self
  | .length => return .int (.ofNat (((← Query.array? self).map Array.size).getD 0))
  | .first => return (← Query.arrayItem? self 0).getD .nil
  | .last => return (← Query.arrayItem? self (-1)).getD .nil
  | .each => do
    let block ← blockToYield args
    callItems engine block self engine.rounds 0
    return self
  | .equal => do
    match ← Query.array? self, ← Query.array? (args.get 0) with
    | some left, some right =>
      if left.size ≠ right.size then return .false
      return .ofBool (← areAllEqual engine (left.toList.zip right.toList))
    | _, _ => return .false

/-- Runs a method of hashes. -/
def runHashMethod (engine : Engine) (self : Value) (args : Args) : HashMethod → VM Value
  | .get => do
    checkArity args 1 (some 1)
    return (← Query.hashGet? self (args.get 0)).getD .nil
  | .set => do
    checkArity args 2 (some 2)
    hashSet self (args.get 0) (args.get 1)
    return args.get 1
  | .length => return .int (.ofNat (((← Query.hash? self).map (·.size)).getD 0))
  | .hasKey => do
    checkArity args 1 (some 1)
    return .ofBool (← Query.hashGet? self (args.get 0)).isSome
  | .delete => do
    checkArity args 1 (some 1)
    return (← hashDelete self (args.get 0)).getD .nil
  | .each => do
    let block ← blockToYield args
    callPairs engine block ((← Query.hashPairs? self).getD [])
    return self
  | .keys => do newArray (((← Query.hashPairs? self).getD []).map (·.1)).toArray
  | .values => do newArray (((← Query.hashPairs? self).getD []).map (·.2)).toArray

/-- Runs a method of ranges. -/
def runRangeMethod (engine : Engine) (self : Value) (args : Args) : RangeMethod → VM Value
  | .first => return ((← Query.range? self).map (·.first)).getD .nil
  | .last => return ((← Query.range? self).map (·.last)).getD .nil
  | .excludesEnd => return .ofBool (((← Query.range? self).map (·.exclusive)).getD false)
  | .each => do
    let block ← blockToYield args
    callEach engine block (← Query.splat self)
    return self

end VM

end RiteVm
