import RiteVm.Bytecode.Validation

/-!
Contract: the constants of the RITE container and the errors of loading.

Owns:
- identifiers, versions, tags and sizes of the container;
- why bytes are refused, each cause with its wording.
-/

namespace RiteVm.Binary

open RiteVm.Bytecode

/-- The bytes of an ASCII text. -/
def ascii (text : String) : List UInt8 := text.toList.map fun char => UInt8.ofNat char.toNat

def fileIdent : List UInt8 := ascii "RITE"
def majorVersion : List UInt8 := ascii "03"
def minorVersion : List UInt8 := ascii "00"
def compilerName : List UInt8 := ascii "GRNT"
def compilerVersion : List UInt8 := ascii "0000"
def unitSection : List UInt8 := ascii "IREP"
def unitSectionVersion : List UInt8 := ascii "0300"
def endSection : List UInt8 := ascii "END" ++ [0]

/-- Bytes of the file header. -/
def headerSize : Nat := 20

/-- Bytes of a section's identifier and size. -/
def sectionHeaderSize : Nat := 8

/-- Bytes of one catch handler. -/
def handlerSize : Nat := 13

/-- The length that marks a name that is not there. -/
def noName : Nat := 65535

def stringTag : UInt8 := 0
def int32Tag : UInt8 := 1
def staticStringTag : UInt8 := 2
def int64Tag : UInt8 := 3
def floatTag : UInt8 := 5
def bigIntTag : UInt8 := 7

/-- A part of the container that the input may end in. -/
inductive Part where
  | header
  | sectionHeader
  | sectionBody
  | unitVersion
  | recordSize
  | unitHeader
  | code
  | handlers
  | pool
  | poolString
  | poolInteger
  | poolFloat
  | symbols
  | symbol
deriving DecidableEq, Repr

/-- The name of a part. -/
def Part.name : Part → String
  | header => "header"
  | sectionHeader => "section header"
  | sectionBody => "section"
  | unitVersion => "rite version"
  | recordSize => "irep record size"
  | unitHeader => "irep header"
  | code => "instruction sequence"
  | handlers => "catch handlers"
  | pool => "pool"
  | poolString => "pool string"
  | poolInteger => "pool integer"
  | poolFloat => "pool float"
  | symbols => "symbols"
  | symbol => "symbol"

/-- Why bytes are no program. -/
inductive LoadError where
  | badIdent
  | version (major minor : String)
  | truncated (part : Part)
  | sizeMismatch (declared actual : Nat)
  | missingUnit
  | poolTag (tag : UInt8)
  | bigInt
  | handlerKind (kind : UInt8)
  | invalid (error : ValidationError)
deriving DecidableEq, Repr

end RiteVm.Binary
