import RiteVm.Bytecode.Operands
import RiteVm.Bytecode.CodeUnit
import RiteVm.Text.Utf8

/-!
Contract: building code units by hand.

Owns:
- a unit under construction: its items, labels, tables and handlers;
- the checks of each step, as errors;
- the finished unit, with every label replaced by its address.

Jumps stand in the item list with their label until the unit is finished, so the
order of jumps and labels is free.
-/

namespace RiteVm.Bytecode

/-- Why a unit cannot be built. -/
inductive AssemblyError where
  | noSelfRegister
  | fewerRegistersThanLocals
  | operandCount (op : Opcode) (given : Nat)
  | operandRange (op : Opcode) (value : Nat)
  | jumpWithoutLabel (op : Opcode)
  | notAJump (op : Opcode)
  | testedRegister (op : Opcode)
  | boundTwice (label : Nat)
  | neverBound (label : Nat)
  | jumpTooFar (distance : Int)
deriving DecidableEq, Repr

/-- An address that may be known only later. -/
structure Label where
  index : Nat
deriving DecidableEq, Repr, Inhabited

/-- One instruction of a unit under construction. -/
inductive Assembler.Item where
  | plain (op : Opcode) (operands : Operands)
  | jump (op : Opcode) (tested : Nat) (label : Label)
deriving DecidableEq, Repr

/-- A protected region between labels. -/
structure Assembler.Region where
  kind : CatchKind
  first : Label
  last : Label
  target : Label
deriving DecidableEq, Repr

/-- A code unit under construction. -/
structure Assembler where
  localCount : UInt16
  registerCount : UInt16
  items : Array Assembler.Item := #[]
  /-- the address behind the last item -/
  here : Nat := 0
  /-- the address of each label that is bound -/
  labels : Array (Option Nat) := #[]
  regions : Array Assembler.Region := #[]
  pool : Array Literal := #[]
  symbols : Array Bytes := #[]
  children : Array CodeUnit := #[]
deriving Inhabited

/-- Whether two literals share a pool entry: floats are compared as numbers. -/
def Literal.shares : Literal → Literal → Bool
  | .string left, .string right => left == right
  | .int left, .int right => left == right
  | .float left, .float right => Float.ofBits left == Float.ofBits right
  | _, _ => false

namespace Assembler

/-- An empty unit. Register 0 always holds `self`. -/
def new (localCount registerCount : UInt16) : Except AssemblyError Assembler :=
  if localCount = 0 then .error .noSelfRegister
  else if registerCount < localCount then .error .fewerRegistersThanLocals
  else .ok { localCount, registerCount }

/-- The index of a name in the symbol table, entered if it is new. -/
def symbol (assembler : Assembler) (name : String) : Assembler × Nat :=
  let bytes := Text.utf8 name
  match assembler.symbols.findIdx? (· == bytes) with
  | some index => (assembler, index)
  | none =>
    ({ assembler with symbols := assembler.symbols.push bytes }, assembler.symbols.size)

/-- The index of a literal in the pool, entered unless it shares an entry. -/
def literal (assembler : Assembler) (value : Literal) : Assembler × Nat :=
  match assembler.pool.findIdx? (·.shares value) with
  | some index => (assembler, index)
  | none => ({ assembler with pool := assembler.pool.push value }, assembler.pool.size)

/-- Adds a child and returns its index. -/
def child (assembler : Assembler) (unit : CodeUnit) : Assembler × Nat :=
  ({ assembler with children := assembler.children.push unit }, assembler.children.size)

/-- A label that is not bound yet. -/
def label (assembler : Assembler) : Assembler × Label :=
  ({ assembler with labels := assembler.labels.push none }, ⟨assembler.labels.size⟩)

/-- Binds a label to the current address. -/
def bind (assembler : Assembler) (label : Label) : Except AssemblyError Assembler :=
  match assembler.labels[label.index]? with
  | none => .error (.neverBound label.index)
  | some (some _) => .error (.boundTwice label.index)
  | some none =>
    let labels := assembler.labels.setIfInBounds label.index (some assembler.here)
    .ok { assembler with labels }

/-- A new label that is bound to the current address. -/
def mark (assembler : Assembler) : Assembler × Label :=
  let labels := assembler.labels.push (some assembler.here)
  ({ assembler with labels }, ⟨assembler.labels.size⟩)

/-- Adds an item with the given opcode behind the others. -/
def push (assembler : Assembler) (op : Opcode) (item : Item) : Assembler :=
  { assembler with items := assembler.items.push item, here := assembler.here + op.width }

/-- Adds an instruction that is no jump. -/
def emit (assembler : Assembler) (op : Opcode) (values : List Nat) :
    Except AssemblyError Assembler :=
  let { a := limitA, b := limitB, c := limitC } := op.layout.limits
  if values.length ≠ op.layout.arity then .error (.operandCount op values.length)
  else if op.jumpOperand?.isSome then .error (.jumpWithoutLabel op)
  else
    match (values.zip [limitA, limitB, limitC]).find? fun (value, limit) => limit < value with
    | some (value, _) => .error (.operandRange op value)
    | none =>
      let operands : Operands :=
        ⟨values.getD 0 0, values.getD 1 0, values.getD 2 0⟩
      .ok (assembler.push op (.plain op operands))

/-- Adds a jump to a label. A conditional jump tests a register. -/
def jump (assembler : Assembler) (op : Opcode) (tested? : Option Nat) (label : Label) :
    Except AssemblyError Assembler :=
  match op.jumpOperand?, tested? with
  | none, _ => .error (.notAJump op)
  | some .a, none => .ok (assembler.push op (.jump op 0 label))
  | some .b, some tested => .ok (assembler.push op (.jump op tested label))
  | some _, _ => .error (.testedRegister op)

/-- Declares the parameters. -/
def enter (assembler : Assembler) (spec : ArgSpec) : Except AssemblyError Assembler :=
  assembler.emit .enter [spec.word.toNat]

/-- The opcodes that load -1, 0, ..., 7 into a register. -/
def smallIntOpcodes : List Opcode :=
  [.loadMinusOne, .loadZero, .loadOne, .loadTwo, .loadThree, .loadFour, .loadFive, .loadSix,
    .loadSeven]

/-- Loads an integer by the shortest instruction that holds it. -/
def loadInt (assembler : Assembler) (register : Nat) (value : Int64) :
    Except AssemblyError Assembler :=
  let number := value.toInt
  match if -1 ≤ number then smallIntOpcodes[(number + 1).toNat]? else none with
  | some op => assembler.emit op [register]
  | none =>
    if 8 ≤ number ∧ number ≤ 255 then
      assembler.emit .loadByte [register, number.toNat]
    else if -255 ≤ number ∧ number ≤ -2 then
      assembler.emit .loadNegByte [register, (-number).toNat]
    else if -32768 ≤ number ∧ number ≤ 32767 then
      assembler.emit .loadShort [register, (number % 65536).toNat]
    else if -2147483648 ≤ number ∧ number ≤ 2147483647 then
      let word := (number % 4294967296).toNat
      assembler.emit .loadWord [register, word / 65536, word % 65536]
    else
      let (assembler, index) := assembler.literal (.int value)
      assembler.emit .loadLiteral [register, index]

/-- Loads a float from the pool. -/
def loadFloat (assembler : Assembler) (register : Nat) (bits : UInt64) :
    Except AssemblyError Assembler :=
  let (assembler, index) := assembler.literal (.float bits)
  assembler.emit .loadLiteral [register, index]

/-- Loads a symbol. -/
def loadSymbol (assembler : Assembler) (register : Nat) (name : String) :
    Except AssemblyError Assembler :=
  let (assembler, index) := assembler.symbol name
  assembler.emit .loadSymbol [register, index]

/-- Loads a new string. -/
def loadString (assembler : Assembler) (register : Nat) (text : String) :
    Except AssemblyError Assembler :=
  let (assembler, index) := assembler.literal (.string (Text.utf8 text))
  assembler.emit .string [register, index]

/-- Calls a method by name with one of the four sending opcodes. -/
def send (assembler : Assembler) (op : Opcode) (register : Nat) (name : String)
    (count : Nat) : Except AssemblyError Assembler :=
  let (assembler, index) := assembler.symbol name
  assembler.emit op [register, index, count]

/-- Defines a method on the class in a register; the next register is overwritten. -/
def defineMethod (assembler : Assembler) (register : Nat) (name : String)
    (body : CodeUnit) : Except AssemblyError Assembler := do
  let (assembler, bodyIndex) := assembler.child body
  let assembler ← assembler.emit .method [register + 1, bodyIndex]
  let (assembler, nameIndex) := assembler.symbol name
  assembler.emit .defineMethod [register, nameIndex]

/-- Protects the region behind one label up to another. -/
def protect (assembler : Assembler) (kind : CatchKind) (first last target : Label) :
    Assembler :=
  { assembler with regions := assembler.regions.push { kind, first, last, target } }

/-- The address that a label is bound to. -/
def addressOf (assembler : Assembler) (label : Label) : Except AssemblyError Nat :=
  match (assembler.labels[label.index]?).join with
  | some address => .ok address
  | none => .error (.neverBound label.index)

/-- The instruction of an item at an address. -/
def resolveItem (assembler : Assembler) (address : Nat) :
    Item → Except AssemblyError (Opcode × Operands)
  | .plain op operands => .ok (op, operands)
  | .jump op tested label => do
    let target ← assembler.addressOf label
    let distance : Int := target - (address + op.width : Nat)
    if distance < -32768 ∨ 32767 < distance then throw (.jumpTooFar distance)
    let word := (distance % 65536).toNat
    match op.jumpOperand? with
    | some .b => return (op, ⟨tested, word, 0⟩)
    | _ => return (op, ⟨word, 0, 0⟩)

/-- The instructions of a list of items from an address on. -/
def resolveItems (assembler : Assembler) (address : Nat) :
    List Item → Except AssemblyError (List (Opcode × Operands))
  | [] => .ok []
  | item :: rest => do
    let (op, operands) ← assembler.resolveItem address item
    let others ← assembler.resolveItems (address + op.width) rest
    return (op, operands) :: others

/-- The handler of a region. -/
def resolveRegion (assembler : Assembler) (region : Region) :
    Except AssemblyError CatchHandler := do
  let first ← assembler.addressOf region.first
  let last ← assembler.addressOf region.last
  let target ← assembler.addressOf region.target
  return { kind := region.kind, first := .ofNat first, last := .ofNat last,
           target := .ofNat target }

/-- The finished unit. -/
def build (assembler : Assembler) : Except AssemblyError CodeUnit := do
  let instructions ← assembler.resolveItems 0 assembler.items.toList
  let handlers ← assembler.regions.toList.mapM assembler.resolveRegion
  return {
    localCount := assembler.localCount
    registerCount := assembler.registerCount
    code := (Instruction.encodeAll instructions).toArray
    handlers
    pool := assembler.pool
    symbols := assembler.symbols.map some
    children := assembler.children.toList }

end Assembler

end RiteVm.Bytecode
