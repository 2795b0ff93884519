import RiteVm.Machine.Raise

/-!
Contract: reading and changing arrays and hashes.

Owns:
- items of arrays, with indices that count from the end when negative;
- entries of hashes, whose string keys are copied and frozen when they are stored;
- what a value contributes to a splat.

Every change raises for a frozen container before it looks at anything else.
-/

namespace RiteVm

/-- The position that an index stands for in an array of a given size. It is below zero
for an index that counts from the end beyond the first item. -/
def positionIn (size : Nat) (index : Int) : Int := if index < 0 then index + size else index

/-- The item at an index; a negative index counts from the end. -/
def itemAt? (items : Array Value) (index : Int) : Option Value :=
  let position := positionIn items.size index
  if position < 0 then none else items[position.toNat]?

/-- The items with a value at a position, filled up with nil up to it. -/
def storeAt (items : Array Value) (position : Nat) (value : Value) : Array Value :=
  (items ++ Array.replicate (position + 1 - items.size) Value.nil).setIfInBounds position value

/-- The next integer, or the same one if there is none. -/
def saturatingSucc (number : Int64) : Int64 :=
  if number = Int64.maxValue then number else number + 1

/-- The integers from a first one up to, but without, a last one. -/
def integersBelow (first last : Int64) : List Value :=
  (List.range (last.toInt - first.toInt).toNat).map fun (offset : Nat) =>
    .int (.ofInt (first.toInt + offset))

namespace Query

/-- The item of an array at an index. -/
def arrayItem? (array : Value) (index : Int) : Query (Option Value) := do
  return (← array? array).bind (itemAt? · index)

/-- The value that a hash has under a key. -/
def hashGet? (hash key : Value) : Query (Option Value) := do
  let digest ← digest
  return (← hash? hash).bind (·.get? digest key)

/-- The pairs of a hash. -/
def hashPairs? (hash : Value) : Query (Option (List (Value × Value))) := do
  return (← hash? hash).map (·.pairs)

/-- Whether a value has no entries. Values that are no hash have none. -/
def hasNoEntries (hash : Value) : Query Bool := do
  return ((← hash? hash).map (·.isEmpty)).getD true

/-- What a value contributes to a splat: the items of an array, nothing for nil, the
integers of a range of integers, and otherwise the value itself. -/
def splat (value : Value) : Query (List Value) := do
  if value.isNil then return []
  if let some items ← array? value then return items.toList
  match ← range? value with
  | some { first := .int first, last := .int last, exclusive } =>
    return integersBelow first (if exclusive then last else saturatingSucc last)
  | _ => return [value]

end Query

namespace VM

/-- Takes account of bytes that an object acquired. -/
def grow (bytes : Nat) : VM Unit := modifyHeap (·.grow bytes)

/-- Freezes a value. -/
def freeze (value : Value) : VM Unit := do
  match value with
  | .object handle =>
    let _ ← Query.object handle
    modifyObject handle ({ · with frozen := true })
  | _ => return

/-- Raises for a value that is no array. -/
def raiseNoArray {α : Type} (value : Value) : VM α := do
  raise .typeError s!"no implicit conversion of {← Query.typeName value} into Array"

/-- Appends a value to an array. -/
def arrayPush (array item : Value) : VM Unit := do
  checkFrozen array
  match array, (← Query.array? array).isSome with
  | .object handle, true => modifyItems handle (·.push item)
  | _, _ => raise .typeError "expected an Array"
  grow 16

/-- Stores a value at an index of an array, which is filled up with nil. -/
def arrayStore (array : Value) (index : Int) (value : Value) : VM Unit := do
  checkFrozen array
  let size? := (← Query.array? array).map Array.size
  let size := size?.getD 0
  let position := positionIn size index
  if position < 0 then
    raise .indexError s!"index {index} too small for array; minimum: -{size}"
  match array, size? with
  | .object handle, some _ =>
    modifyItems handle (storeAt · position.toNat value)
    grow ((position.toNat + 1 - size) * 16)
  | _, _ => raiseNoArray array

/-- Appends values to an array. -/
def arrayExtend (array : Value) (more : List Value) : VM Unit := do
  checkFrozen array
  match array, (← Query.array? array).isSome with
  | .object handle, true => modifyItems handle (· ++ more)
  | _, _ => raiseNoArray array
  grow (more.length * 16)

/-- Changes the table of a hash and hands over a result. -/
def withHash {α : Type} (handle : Handle) (change : OrderedHash → OrderedHash × α) :
    VM α := do
  match (← Query.object handle).hash? with
  | none => breach (.expectedHash handle)
  | some table =>
    let (changed, result) := change table
    setContent handle (.hash changed)
    grow ((changed.slots.size - table.slots.size) * 48)
    return result

/-- The key to store for a key: a frozen copy of a string that can be changed. -/
def storedKey (key : Value) : VM Value := do
  match ← Query.string? key, ← Query.isFrozen key with
  | some bytes, false =>
    let copy ← newString bytes
    freeze copy
    return copy
  | _, _ => return key

/-- Stores a value under a key of a hash. -/
def hashSet (hash key value : Value) : VM Unit := do
  checkFrozen hash
  let handle ← expectHash hash
  let key ← storedKey key
  let digest ← Query.digest
  withHash handle fun table => (table.insert digest key value, ())

/-- Removes a key of a hash and returns its value. -/
def hashDelete (hash key : Value) : VM (Option Value) := do
  checkFrozen hash
  let handle ← expectHash hash
  let digest ← Query.digest
  withHash handle (·.remove digest key)

/-- Stores every pair of a hash in another one. -/
def hashMerge (into source : Value) : VM Unit := do
  let _ ← expectHash source
  for (key, value) in ((← Query.hashPairs? source).getD []) do
    hashSet into key value

end VM

end RiteVm
