import RiteVm.Bytecode.Operands
import RiteVm.Bytecode.CodeUnit
import RiteVm.Text.Decimal
import RiteVm.Text.Utf8

/-!
Contract: the listing of a program for readers.

Owns: one line for each unit, catch handler and instruction of a tree, with jump
targets as addresses, names as text and the argument spec field by field.

Does not own: decoding (`Bytecode.Instruction`); undecodable code ends the list of a
unit's instructions.
-/

namespace RiteVm.Bytecode

open RiteVm.Text

/-- The name of a kind of handler. -/
def CatchKind.name : CatchKind → String
  | rescue => "Rescue"
  | ensure => "Ensure"

/-- The fields of a spec in order, divided by colons. -/
def ArgSpec.listing (spec : ArgSpec) : String :=
  let flag (value : Bool) : Nat := if value then 1 else 0
  ":".intercalate ([spec.required, spec.optional, flag spec.rest, spec.post, spec.keywords,
    flag spec.dictionary, flag spec.block].map toString)

namespace CodeUnit

/-- The text of the name at an index, or a question mark if there is none. -/
def symbolText (unit : CodeUnit) (index : Nat) : String :=
  match unit.symbol? index with
  | some bytes => lossy bytes
  | none => "?"

/-- The operands of an instruction that is no jump. -/
def operandListing (unit : CodeUnit) (op : Opcode) (operands : Operands) : String :=
  let { a, b, c } := operands
  match op with
  | .loadSymbol | .getGlobal | .setGlobal | .getInstanceVar | .setInstanceVar
  | .getConst | .setConst | .getScopedConst | .setScopedConst | .defineMethod
  | .openClass | .openModule | .keyArg | .keyPresent => s!"R{a} :{unit.symbolText b}"
  | .sendSelf | .sendSelfBlock | .send | .sendBlock =>
    let keywords := if c / 16 > 0 then s!" k{c / 16}" else ""
    s!"R{a} :{unit.symbolText b} {c % 16}{keywords}"
  | .loadShort => s!"R{a} {operands.signedB}"
  | .loadWord => s!"R{a} {Int.bmod (b * 65536 + c) 4294967296}"
  | .enter => (ArgSpec.ofOperand a).listing
  | _ =>
    match op.layout with
    | .none => ""
    | .b => s!"R{a}"
    | .bb | .bs => s!"R{a} {b}"
    | .bbb | .bss => s!"R{a} {b} {c}"
    | .s | .w => toString a

/-- The line of one instruction. -/
def instructionLine (unit : CodeUnit) (instruction : Instruction) : String :=
  let operands :=
    match instruction.jumpTarget? with
    | some target =>
      let tested := if instruction.op.layout = Layout.bs then s!"R{instruction.operands.a} " else ""
      s!"{tested}-> {zeroPadded 3 target}"
    | none => unit.operandListing instruction.op instruction.operands
  let name := leftAligned 10 instruction.op.mnemonic
  trimEnd s!"  {zeroPadded 3 instruction.address} {name}{operands}"

/-- The line of one catch handler. -/
def handlerLine (handler : CatchHandler) : String :=
  let address (word : UInt32) : String := zeroPadded 3 word.toNat
  s!"  catch {handler.kind.name} ({address handler.first}, {address handler.last}] -> "
    ++ address handler.target

mutual

/-- The lines of a tree whose root stands at a path of child indices. -/
def listingLines (path : List Nat) : CodeUnit → List String
  | unit@⟨localCount, registerCount, code, handlers, _, _, children⟩ =>
    let place := String.join (path.map fun index => s!".{index}")
    s!"irep{place} nlocals={localCount} nregs={registerCount} iseq={code.size}"
      :: handlers.map handlerLine
      ++ (instructions code).map unit.instructionLine
      ++ childLines path 0 children

/-- The lines of the children from an index on. -/
def childLines (path : List Nat) (index : Nat) : List CodeUnit → List String
  | [] => []
  | child :: rest =>
    child.listingLines (path ++ [index]) ++ childLines path (index + 1) rest

end

/-- The listing of a tree, each line closed by a line feed. -/
def listing (unit : CodeUnit) : String :=
  String.join ((unit.listingLines []).map fun line => s!"{line}\n")

end CodeUnit

end RiteVm.Bytecode
