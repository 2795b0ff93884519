import RiteVm.Binary.Format
import RiteVm.Bytes

/-!
Contract: writing a tree of code units as a RITE container.

Owns: the bytes of a container, with the record of a unit in front of those of its
children, the high bytes of numbers first and floats with their low bytes first.

Does not own: reading it back (`Binary.Load`).
-/

namespace RiteVm.Binary

open RiteVm.Bytecode

def handlerKindByte : CatchKind → UInt8
  | .rescue => 0
  | .ensure => 1

def dumpHandler (handler : CatchHandler) : List UInt8 :=
  handlerKindByte handler.kind :: bigEndian 4 handler.first.toNat
    ++ bigEndian 4 handler.last.toNat ++ bigEndian 4 handler.target.toNat

/-- The bytes of a literal. An integer takes four bytes if it fits, else eight. -/
def dumpLiteral : Literal → List UInt8
  | .string bytes => stringTag :: bigEndian 2 bytes.size ++ bytes.toList ++ [0]
  | .int value =>
    if -2147483648 ≤ value.toInt ∧ value.toInt < 2147483648 then
      int32Tag :: bigEndian 4 value.toUInt64.toNat
    else
      int64Tag :: bigEndian 8 value.toUInt64.toNat
  | .float bits => floatTag :: littleEndian 8 bits.toNat

def dumpSymbol : Option Bytes → List UInt8
  | some name => bigEndian 2 name.size ++ name.toList ++ [0]
  | none => bigEndian 2 noName

/-- The record of one unit behind its size. -/
def dumpRecordBody (unit : CodeUnit) : List UInt8 :=
  bigEndian 2 unit.localCount.toNat ++ bigEndian 2 unit.registerCount.toNat
    ++ bigEndian 2 unit.children.length ++ bigEndian 2 unit.handlers.length
    ++ bigEndian 4 unit.code.size ++ unit.code.toList
    ++ unit.handlers.flatMap dumpHandler
    ++ bigEndian 2 unit.pool.size ++ unit.pool.toList.flatMap dumpLiteral
    ++ bigEndian 2 unit.symbols.size ++ unit.symbols.toList.flatMap dumpSymbol

/-- The record of one unit, its size in front; the size counts itself. -/
def dumpRecord (unit : CodeUnit) : List UInt8 :=
  let body := dumpRecordBody unit
  bigEndian 4 (4 + body.length) ++ body

mutual

/-- The records of a tree, each unit in front of its children. -/
def dumpTree : CodeUnit → List UInt8
  | unit@⟨_, _, _, _, _, _, children⟩ => dumpRecord unit ++ dumpTrees children

/-- The records of a list of trees. -/
def dumpTrees : List CodeUnit → List UInt8
  | [] => []
  | unit :: rest => dumpTree unit ++ dumpTrees rest

end

/-- The container of a tree. -/
def dump (unit : CodeUnit) : Bytes :=
  let records := dumpTree unit
  let sectionSize := sectionHeaderSize + unitSectionVersion.length + records.length
  let total := headerSize + sectionSize + sectionHeaderSize
  (fileIdent ++ majorVersion ++ minorVersion ++ bigEndian 4 total
    ++ compilerName ++ compilerVersion
    ++ unitSection ++ bigEndian 4 sectionSize ++ unitSectionVersion ++ records
    ++ endSection ++ bigEndian 4 sectionHeaderSize).toArray

end RiteVm.Binary
