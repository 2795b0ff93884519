import RiteVm.Bytecode.Opcode

/-!
Contract: instructions inside a sequence of code bytes, and a compiled program as a tree of code
units.

Owns:
- decoding the instruction at an address, and the bytes of an instruction;
- the instructions of a sequence, one after the other from address 0;
- the code unit with its literal pool, its names, its catch handlers and its
  children (blocks, methods and class bodies);
- the search for the handler of an address;
- the number of units in a tree.

`instructionAt?_next` bounds the address of the following instruction, which is
why listing the instructions of a sequence ends.

Does not own: which trees are well formed (`Bytecode.Validation`).
-/

namespace RiteVm.Bytecode

/-- A decoded instruction with its own address and that of the one after it. -/
structure Instruction where
  op : Opcode
  operands : Operands
  address : Nat
  next : Nat
deriving DecidableEq, Repr, Inhabited

namespace Instruction

/-- Where a relative jump goes. The distance counts from the next instruction, so the
target of malformed code may lie below zero. -/
def jumpTarget? (instruction : Instruction) : Option Int :=
  instruction.op.jumpOperand?.map fun operand =>
    match operand with
    | .a => instruction.next + instruction.operands.signedA
    | .b => instruction.next + instruction.operands.signedB

/-- The bytes of one instruction. -/
def encode (op : Opcode) (operands : Operands) : List UInt8 :=
  op.toByte :: op.layout.write operands

/-- The bytes of a list of instructions. -/
def encodeAll (instructions : List (Opcode × Operands)) : List UInt8 :=
  instructions.flatMap fun (op, operands) => encode op operands

@[simp] theorem length_encode (op : Opcode) (operands : Operands) :
    (encode op operands).length = op.width := by
  simp [encode, Opcode.width, Nat.add_comm]

end Instruction

/-- The instruction at an address, unless the opcode is unknown or an operand is
cut off by the end of the code. -/
def instructionAt? (code : Bytes) (address : Nat) : Option Instruction := do
  let byte ← code[address]?
  let op ← Opcode.ofByte? byte
  let next := address + op.width
  let operands ← op.layout.read? (code.extract (address + 1) next).toList
  return { op, operands, address, next }

/-- An instruction lies inside the code and the next one begins behind it. -/
theorem instructionAt?_next {code : Bytes} {address : Nat} {instruction : Instruction}
    (decoded : instructionAt? code address = some instruction) :
    address < code.size ∧ instruction.address = address ∧
      instruction.next = address + instruction.op.width := by
  simp only [instructionAt?, Option.bind_eq_bind, Option.bind_eq_some_iff,
    Option.pure_def, Option.some.injEq] at decoded
  obtain ⟨byte, atAddress, op, _, operands, _, rfl⟩ := decoded
  obtain ⟨inRange, _⟩ := Array.getElem?_eq_some_iff.1 atAddress
  exact ⟨inRange, rfl, rfl⟩

set_option linter.unusedVariables false in
/-- The instructions from an address on, up to the first that cannot be decoded. -/
def instructionsFrom (code : Bytes) (address : Nat) : List Instruction :=
  match decoded : instructionAt? code address with
  | none => []
  | some instruction => instruction :: instructionsFrom code instruction.next
termination_by code.size - address
decreasing_by
  have bounds := instructionAt?_next decoded
  have positive := Opcode.width_pos instruction.op
  omega

/-- The instructions of a sequence, up to the first that cannot be decoded. -/
def instructions (code : Bytes) : List Instruction := instructionsFrom code 0

/-- The address behind the last decodable instruction of a sequence. -/
def decodedEnd (code : Bytes) : Nat :=
  match (instructions code).getLast? with
  | none => 0
  | some instruction => instruction.next

/-- A literal of the pool. A float is kept as its bit pattern. -/
inductive Literal where
  | string (bytes : Bytes)
  | int (value : Int64)
  | float (bits : UInt64)
deriving DecidableEq, Repr, Inhabited

/-- What a catch handler catches: exceptions, or every exit from its region. -/
inductive CatchKind where
  | rescue
  | ensure
deriving DecidableEq, Repr, Inhabited

/-- A protected region with the address that control moves to. -/
structure CatchHandler where
  kind : CatchKind
  first : UInt32
  last : UInt32
  target : UInt32
deriving DecidableEq, Repr, Inhabited

/-- Whether the instruction before the given address lies in the region. -/
def CatchHandler.covers (handler : CatchHandler) (pc : Nat) : Bool :=
  handler.first.toNat < pc && pc ≤ handler.last.toNat

/-- One sequence of code with its tables. -/
structure CodeUnit where
  /-- registers that hold variables, `self` included -/
  localCount : UInt16
  /-- registers that the code uses, variables included -/
  registerCount : UInt16
  code : Bytes
  /-- an inner region stands behind the regions around it -/
  handlers : List CatchHandler
  pool : Array Literal
  /-- names as raw bytes; `none` is a slot without a name -/
  symbols : Array (Option Bytes)
  children : List CodeUnit
deriving Repr, Inhabited

namespace CodeUnit

mutual

/-- Number of units in the tree. -/
def unitCount : CodeUnit → Nat
  | ⟨_, _, _, _, _, _, children⟩ => 1 + unitCountAll children

/-- Number of units in a list of trees. -/
def unitCountAll : List CodeUnit → Nat
  | [] => 0
  | unit :: rest => unit.unitCount + unitCountAll rest

end

/-- The handler of the innermost region around an address, of one kind or of both. -/
def handlerFor? (unit : CodeUnit) (pc : Nat) (kind? : Option CatchKind) :
    Option CatchHandler :=
  unit.handlers.reverse.find? fun handler =>
    kind?.all (· == handler.kind) && handler.covers pc

/-- The name at an index of the symbol table. -/
def symbol? (unit : CodeUnit) (index : Nat) : Option Bytes := (unit.symbols[index]?).join

/-- The string literal at an index of the pool. -/
def stringLiteral? (unit : CodeUnit) (index : Nat) : Option Bytes :=
  match unit.pool[index]? with
  | some (.string bytes) => some bytes
  | _ => none

end CodeUnit

end RiteVm.Bytecode
