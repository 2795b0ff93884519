import RiteVm.Call.Dispatch

/-!
Contract: instructions that stand in for operator methods.

Owns:
- arithmetic, comparison and equality, which are done at once where the operands allow
  it and are a method call otherwise;
- indexing of arrays and hashes, likewise;
- taking an array apart.
-/

namespace RiteVm.VM

/-- Arithmetic on two numbers; nothing if an operand is no number. -/
def arithmetic (op : ArithOp) (left right : Value) : VM (Option Value) := do
  match left, right with
  | .int left, .int right =>
    match op.onInts left right with
    | .value result => return some result
    | .divisionByZero => raise .zeroDivisionError "divided by 0"
    | .overflow => breach .integerOverflow
  | _, _ =>
    match left.float?, right.float? with
    | some left, some right => return some (.float (op.onFloats left right))
    | _, _ => return none

/-- The arithmetic instruction on two registers. -/
def executeArithmetic (engine : Engine) (base register : Nat) (op : ArithOp)
    (method : Symbol) : VM (Option Exit) := do
  let left ← Query.register base register
  let right ← Query.register base (register + 1)
  match ← arithmetic op left right with
  | some result =>
    setRegister base register result
    return none
  | none => send engine base register method 1 false

/-- The arithmetic instruction on a register and a number in the code. The number enters
the next register only for a method call. -/
def executeImmediate (engine : Engine) (base register number : Nat) (op : ArithOp)
    (method : Symbol) : VM (Option Exit) := do
  let right := Value.int (.ofNat number)
  match ← arithmetic op (← Query.register base register) right with
  | some result =>
    setRegister base register result
    return none
  | none =>
    setRegister base (register + 1) right
    send engine base register method 1 false

/-- The comparison instruction. -/
def executeComparison (engine : Engine) (base register : Nat) (op : CompareOp) :
    VM (Option Exit) := do
  let left ← Query.register base register
  let right ← Query.register base (register + 1)
  match op.onValues? left right with
  | some result =>
    setRegister base register (.ofBool result)
    return none
  | none => send engine base register op.symbol 1 false

/-- The equality instruction. -/
def executeEquality (engine : Engine) (base register : Nat) : VM (Option Exit) := do
  let left ← Query.register base register
  let right ← Query.register base (register + 1)
  match Value.quickEqual? left right with
  | some result =>
    setRegister base register (.ofBool result)
    return none
  | none => send engine base register .opEq 1 false

/-- The instruction that reads an item of an array or an entry of a hash. -/
def executeGetIndex (engine : Engine) (base register : Nat) : VM (Option Exit) := do
  let receiver ← Query.register base register
  let index ← Query.register base (register + 1)
  match ← Query.content? receiver, index with
  | some (.array items), .int index =>
    setRegister base register ((itemAt? items index.toInt).getD .nil)
    return none
  | some (.hash _), _ =>
    setRegister base register ((← Query.hashGet? receiver index).getD .nil)
    return none
  | _, _ => send engine base register .opIndex 1 false

/-- The instruction that stores an item of an array or an entry of a hash. -/
def executeSetIndex (engine : Engine) (base register : Nat) : VM (Option Exit) := do
  let receiver ← Query.register base register
  let index ← Query.register base (register + 1)
  let value ← Query.register base (register + 2)
  match ← Query.content? receiver, index with
  | some (.array _), .int index =>
    arrayStore receiver index.toInt value
    return none
  | some (.hash _), _ =>
    hashSet receiver index value
    return none
  | _, _ => send engine base register .opIndexSet 2 false

/-- The items of an array; any other value is a single item. -/
def itemsOf (value : Value) : Query (List Value) := do
  return ((← Query.array? value).map (·.toList)).getD [value]

/-- The item of a destructured value at an index. -/
def destructuredItem (value : Value) (index : Nat) : Query Value := do
  return (← itemsOf value).getD index .nil

/-- The items behind the first `before` and in front of the last `after` ones, and those
last ones. Where there are too few items, the last ones are filled up with nil. -/
def splitRest (items : List Value) (before after : Nat) : List Value × List Value :=
  if before + after < items.length then
    let restEnd := items.length - after
    ((items.take restEnd).drop before, items.drop restEnd)
  else
    ([], (List.range after).map fun offset => items.getD (before + offset) .nil)

/-- Takes a value apart into an array of the middle items and the last ones behind it. -/
def executeDestructure (base register before after : Nat) : VM Unit := do
  let items ← itemsOf (← Query.register base register)
  let (rest, last) := splitRest items before after
  setRegister base register (← newArray rest.toArray)
  setSlots (base + register + 1) last

end RiteVm.VM
