import RiteVm.Binary.Format
import RiteVm.Text.Decimal
import RiteVm.Text.Utf8

/-!
Contract: reading a tree of code units from a RITE container.

Owns:
- readers that take fields off the front of the input and say in which part the
  input ended;
- the tree of the last unit section before the end section, checked as a whole;
- the wording of every load error.

Reading a tree takes fuel for the depth of the tree. The length of the input is
enough, because each unit takes bytes of its own.
-/

namespace RiteVm.Binary

open RiteVm.Bytecode

/-- A reader takes what it reads off the front of the input. -/
abbrev Reader := StateT (List UInt8) (Except LoadError)

/-- The number with the given bytes, the high ones first. -/
def ofBigEndian (bytes : List UInt8) : Nat :=
  bytes.foldl (fun value byte => value * 256 + byte.toNat) 0

/-- The number with the given bytes, the low ones first. -/
def ofLittleEndian : List UInt8 → Nat
  | [] => 0
  | byte :: rest => byte.toNat + 256 * ofLittleEndian rest

/-- The first items of a list and the rest, if there are enough. -/
def splitExact? {α : Type} : Nat → List α → Option (List α × List α)
  | 0, items => some ([], items)
  | _ + 1, [] => none
  | count + 1, item :: rest =>
    (splitExact? count rest).map fun (front, back) => (item :: front, back)

theorem splitExact?_append {α : Type} (front back : List α) :
    splitExact? front.length (front ++ back) = some (front, back) := by
  induction front with
  | nil => rfl
  | cons item rest inductionHypothesis =>
      simp [splitExact?, inductionHypothesis]

theorem splitExact?_eq_some {α : Type} {count : Nat} {items front back : List α}
    (split : splitExact? count items = some (front, back)) :
    items = front ++ back ∧ front.length = count := by
  induction count generalizing items front with
  | zero =>
      simp only [splitExact?, Option.some.injEq, Prod.mk.injEq] at split
      obtain ⟨rfl, rfl⟩ := split
      simp
  | succ count inductionHypothesis =>
      cases items with
      | nil => simp [splitExact?] at split
      | cons item rest =>
          simp only [splitExact?, Option.map_eq_some_iff, Prod.mk.injEq] at split
          obtain ⟨⟨tailFront, tailBack⟩, tailSplit, rfl, rfl⟩ := split
          obtain ⟨rfl, rfl⟩ := inductionHypothesis tailSplit
          simp

namespace Reader

/-- Takes a number of bytes. -/
def bytes (count : Nat) (part : Part) : Reader (List UInt8) := fun input =>
  match splitExact? count input with
  | some (front, back) => .ok (front, back)
  | none => .error (.truncated part)

/-- Takes a number of one byte. -/
def byte (part : Part) : Reader UInt8 := fun input =>
  match input with
  | first :: rest => .ok (first, rest)
  | [] => .error (.truncated part)

/-- Takes a number of two bytes. -/
def word16 (part : Part) : Reader Nat := ofBigEndian <$> bytes 2 part

/-- Takes a number of four bytes. -/
def word32 (part : Part) : Reader Nat := ofBigEndian <$> bytes 4 part

/-- Reads as many items as asked for, one after the other. -/
def times {α : Type} (reader : Reader α) : Nat → Reader (List α)
  | 0 => pure []
  | count + 1 => do
    let item ← reader
    let rest ← times reader count
    return item :: rest

end Reader

/-- The handler in thirteen bytes. -/
def readHandler : Reader CatchHandler := do
  let kind ←
    match ← Reader.byte .handlers with
    | 0 => pure CatchKind.rescue
    | 1 => pure CatchKind.ensure
    | kind => throw (.handlerKind kind)
  let first ← Reader.word32 .handlers
  let last ← Reader.word32 .handlers
  let target ← Reader.word32 .handlers
  return { kind, first := .ofNat first, last := .ofNat last, target := .ofNat target }

/-- Reads the handlers of a unit. The whole table has to be there before any of its
entries is looked at. -/
def readHandlers (count : Nat) : Reader (List CatchHandler) := do
  let table ← Reader.bytes (count * handlerSize) .handlers
  let (handlers, _) ← (Reader.times readHandler count).run table
  return handlers

/-- A literal of the pool. -/
def readLiteral : Reader Literal := do
  let tag ← Reader.byte .pool
  if tag = stringTag ∨ tag = staticStringTag then
    let length ← Reader.word16 .poolString
    let bytes ← Reader.bytes length .poolString
    let _ ← Reader.byte .poolString
    return .string bytes.toArray
  else if tag = int32Tag then
    let word ← Reader.word32 .poolInteger
    return .int (Int64.ofInt (Int.bmod word 4294967296))
  else if tag = int64Tag then
    let high ← Reader.word32 .poolInteger
    let low ← Reader.word32 .poolInteger
    return .int (UInt64.ofNat (high * 4294967296 + low)).toInt64
  else if tag = floatTag then
    let bytes ← Reader.bytes 8 .poolFloat
    return .float (UInt64.ofNat (ofLittleEndian bytes))
  else if tag = bigIntTag then throw .bigInt
  else throw (.poolTag tag)

/-- A name, or none where the length says so. -/
def readSymbol : Reader (Option Bytes) := do
  let length ← Reader.word16 .symbol
  if length = noName then return none
  let name ← Reader.bytes length .symbol
  let _ ← Reader.byte .symbol
  return some name.toArray

/-- Reads the record of one unit: the unit without children, and how many follow. -/
def readRecord : Reader (CodeUnit × Nat) := do
  let _ ← Reader.word32 .recordSize
  let localCount ← Reader.word16 .unitHeader
  let registerCount ← Reader.word16 .unitHeader
  let childCount ← Reader.word16 .unitHeader
  let handlerCount ← Reader.word16 .unitHeader
  let codeSize ← Reader.word32 .unitHeader
  let code ← Reader.bytes codeSize .code
  let handlers ← readHandlers handlerCount
  let poolSize ← Reader.word16 .pool
  let pool ← Reader.times readLiteral poolSize
  let symbolCount ← Reader.word16 .symbols
  let symbols ← Reader.times readSymbol symbolCount
  let unit : CodeUnit := {
    localCount := .ofNat localCount
    registerCount := .ofNat registerCount
    code := code.toArray
    handlers
    pool := pool.toArray
    symbols := symbols.toArray
    children := [] }
  return (unit, childCount)

/-- A tree no deeper than the fuel. Without fuel the input is at its end. -/
def readTree : Nat → Reader CodeUnit
  | 0 => throw (.truncated .recordSize)
  | fuel + 1 => do
    let (unit, childCount) ← readRecord
    let children ← Reader.times (readTree fuel) childCount
    return { unit with children }

/-- The tree in the body of a unit section. Bytes behind it are ignored. -/
def treeOfSection (body : List UInt8) : Except LoadError CodeUnit := do
  let (tree, _) ← (do
    let _ ← Reader.bytes 4 .unitVersion
    readTree body.length : Reader CodeUnit).run body
  return tree

/-- A section of the container. -/
structure Section where
  ident : List UInt8
  body : List UInt8
deriving DecidableEq, Repr

def readSection : Reader Section := do
  let ident ← Reader.bytes 4 .sectionHeader
  let size ← Reader.word32 .sectionHeader
  if size < sectionHeaderSize then throw (.truncated .sectionHeader)
  let body ← Reader.bytes (size - sectionHeaderSize) .sectionBody
  return { ident, body }

/-- The last unit section before the end section or the end of the input. The fuel
bounds the number of sections; each takes bytes of its own. -/
def treeOfSections (found? : Option CodeUnit) :
    Nat → List UInt8 → Except LoadError (Option CodeUnit)
  | 0, _ => .ok found?
  | _, [] => .ok found?
  | fuel + 1, input => do
    let (part, rest) ← readSection.run input
    if part.ident = unitSection then
      let tree ← treeOfSection part.body
      treeOfSections (some tree) fuel rest
    else if part.ident = endSection then
      return found?
    else
      treeOfSections found? fuel rest

/-- Reads the header and returns the size that the container declares. -/
def readHeader (actual : Nat) : Reader Nat := do
  let ident ← Reader.bytes 4 .header
  if ident ≠ fileIdent then throw .badIdent
  let major ← Reader.bytes 2 .header
  let minor ← Reader.bytes 2 .header
  if major ≠ majorVersion ∨ minorVersion < minor then
    throw (.version (Text.lossy major.toArray) (Text.lossy minor.toArray))
  let declared ← Reader.word32 .header
  if actual < declared then throw (.sizeMismatch declared actual)
  let _ ← Reader.bytes 8 .header
  return declared

/-- The checked tree of a container. -/
def load (binary : Bytes) : Except LoadError CodeUnit := do
  let (declared, rest) ← (readHeader binary.size).run binary.toList
  let body := rest.take (declared - headerSize)
  match ← treeOfSections none body.length body with
  | none => throw .missingUnit
  | some tree =>
    match tree.validate with
    | .ok () => return tree
    | .error error => throw (.invalid error)

/-- The wording of a load error. -/
def LoadError.message : LoadError → String
  | badIdent => "not a RITE binary"
  | version major minor => s!"unsupported RITE version {major}.{minor}"
  | truncated part => s!"unexpected end of input while reading {part.name}"
  | sizeMismatch declared actual =>
    s!"binary declares {declared} bytes but {actual} were given"
  | missingUnit => "missing IREP section"
  | poolTag tag => s!"unknown literal pool tag {tag.toNat}"
  | bigInt => "bignum literals are not supported"
  | handlerKind kind => s!"unknown catch handler kind {kind.toNat}"
  | invalid (.handler index) =>
    s!"catch handler #{index} lies outside its instruction sequence"
  | invalid (.instruction address fault) =>
    s!"invalid instruction at {Text.zeroPadded 3 address}: {fault.message}"

end RiteVm.Binary
