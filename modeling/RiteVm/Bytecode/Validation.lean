import RiteVm.Bytecode.CodeUnit

/-!
Contract: which trees of code units can be run.

Owns:
- the faults of an instruction, each with its wording;
- the check of a tree, which reports the first fault in address order.

A tree passes if in every unit the instructions tile the code, use no operand
extension, refer only to entries that exist and jump inside the code, and every
handler lies inside the code.
-/

namespace RiteVm.Bytecode

/-- What is wrong with an instruction. -/
inductive InstructionFault where
  | truncatedOperand
  | unknownOpcode
  | operandExtension
  | poolIndex
  | stringExpected
  | symbolIndex
  | childIndex
  | jumpTarget
deriving DecidableEq, Repr

/-- The wording of a fault. -/
def InstructionFault.message : InstructionFault → String
  | truncatedOperand => "truncated operand"
  | unknownOpcode => "unknown opcode"
  | operandExtension => "operand extension"
  | poolIndex => "pool index out of range"
  | stringExpected => "string literal expected"
  | symbolIndex => "symbol index out of range"
  | childIndex => "child index out of range"
  | jumpTarget => "jump target out of range"

/-- Why a tree is refused. -/
inductive ValidationError where
  | instruction (address : Nat) (fault : InstructionFault)
  | handler (index : Nat)
deriving DecidableEq, Repr

/-- Whether a handler lies inside code of the given size. -/
def CatchHandler.fits (handler : CatchHandler) (size : Nat) : Bool :=
  handler.first ≤ handler.last && handler.last.toNat ≤ size && handler.target.toNat < size

namespace CodeUnit

/-- The fault of the table entries that an instruction refers to. -/
def operandFault? (unit : CodeUnit) (instruction : Instruction) : Option InstructionFault :=
  let operands := instruction.operands
  let needSymbol (index : Nat) : Option InstructionFault :=
    if index < unit.symbols.size then none else some .symbolIndex
  let needString (index : Nat) : Option InstructionFault :=
    if (unit.stringLiteral? index).isSome then none else some .stringExpected
  match instruction.op with
  | .ext1 | .ext2 | .ext3 => some .operandExtension
  | .loadLiteral => if operands.b < unit.pool.size then none else some .poolIndex
  | .string | .symbol => needString operands.b
  | .raiseJumpError => needString operands.a
  | .loadSymbol | .getGlobal | .setGlobal | .getSpecial | .setSpecial
  | .getInstanceVar | .setInstanceVar | .getClassVar | .setClassVar
  | .getConst | .setConst | .getScopedConst | .setScopedConst
  | .sendSelf | .sendSelfBlock | .send | .sendBlock | .keyPresent | .keyArg
  | .defineMethod | .openClass | .openModule => needSymbol operands.b
  | .aliasMethod => needSymbol operands.a <|> needSymbol operands.b
  | .undefMethod => needSymbol operands.a
  | .lambda | .block | .method | .exec =>
    if operands.b < unit.children.length then none else some .childIndex
  | _ => none

/-- The fault of an instruction's jump target: it may be the end of the code. -/
def jumpFault? (unit : CodeUnit) (instruction : Instruction) : Option InstructionFault :=
  match instruction.jumpTarget? with
  | some target =>
    if 0 ≤ target ∧ target ≤ unit.code.size then none else some .jumpTarget
  | none => none

/-- The first fault of a decoded instruction. -/
def instructionFault? (unit : CodeUnit) (instruction : Instruction) :
    Option InstructionFault :=
  unit.operandFault? instruction <|> unit.jumpFault? instruction

/-- The fault that ends decoding before the end of the code. -/
def decodingFault? (unit : CodeUnit) : Option ValidationError :=
  let address := decodedEnd unit.code
  match unit.code[address]? with
  | none => none
  | some byte =>
    match Opcode.ofByte? byte with
    | some _ => some (.instruction address .truncatedOperand)
    | none => some (.instruction address .unknownOpcode)

/-- The first fault of the code of a unit. -/
def codeFault? (unit : CodeUnit) : Option ValidationError :=
  (instructions unit.code).findSome? (fun instruction =>
    (unit.instructionFault? instruction).map (.instruction instruction.address ·))
  <|> unit.decodingFault?

/-- The first handler that does not lie inside the code. -/
def handlerFault? (unit : CodeUnit) : Option ValidationError :=
  (unit.handlers.findIdx? fun handler => !handler.fits unit.code.size).map .handler

mutual

/-- Checks the unit and then its children in order. -/
def validate : CodeUnit → Except ValidationError Unit
  | unit@⟨_, _, _, _, _, _, children⟩ =>
    match unit.codeFault? <|> unit.handlerFault? with
    | some fault => .error fault
    | none => validateAll children

/-- Checks a list of trees in order. -/
def validateAll : List CodeUnit → Except ValidationError Unit
  | [] => .ok ()
  | unit :: rest =>
    match unit.validate with
    | .error fault => .error fault
    | .ok () => validateAll rest

end

end CodeUnit

end RiteVm.Bytecode
