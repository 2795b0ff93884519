/-!
Contract: raw bytes, the form of code, of string contents and of names.

Owns:
- the low bytes of a number in a fixed width, in either order;
- the FNV-1a hash of bytes, in 64 bits.
-/

namespace RiteVm

/-- Bytes of code, of strings and of names. -/
abbrev Bytes := Array UInt8

end RiteVm

namespace RiteVm.Binary

/-- The low bytes of a number, the high ones first. -/
def bigEndian : Nat → Nat → List UInt8
  | 0, _ => []
  | width + 1, value => UInt8.ofNat (value >>> (8 * width)) :: bigEndian width value

/-- The low bytes of a number, the low ones first. -/
def littleEndian : Nat → Nat → List UInt8
  | 0, _ => []
  | width + 1, value => UInt8.ofNat value :: littleEndian width (value / 256)

@[simp] theorem length_bigEndian (width value : Nat) :
    (bigEndian width value).length = width := by
  induction width with
  | zero => rfl
  | succ width inductionHypothesis => simp [bigEndian, inductionHypothesis]

@[simp] theorem length_littleEndian (width value : Nat) :
    (littleEndian width value).length = width := by
  induction width generalizing value with
  | zero => rfl
  | succ width inductionHypothesis => simp [littleEndian, inductionHypothesis]

end RiteVm.Binary

namespace RiteVm.Numeric

/-- The hash of no bytes. -/
def fnvBasis : UInt64 := 0xcbf29ce484222325

def fnvPrime : UInt64 := 0x100000001b3

/-- Each byte is mixed into the hash before the hash is multiplied. -/
def fnv1a (bytes : List UInt8) : UInt64 :=
  bytes.foldl (fun hash byte => (hash ^^^ byte.toUInt64) * fnvPrime) fnvBasis

-- a published value: the hash of the letters of `foobar`
example : fnv1a [0x66, 0x6f, 0x6f, 0x62, 0x61, 0x72] = 0x85944171f73967e8 := by decide

end RiteVm.Numeric
