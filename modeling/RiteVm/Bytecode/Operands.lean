import RiteVm.Bytes

/-!
Contract: the operands that follow an opcode byte, and the argument spec as one of them.

Owns:
- the eight operand layouts and the number of bytes and operands of each;
- reading operands from bytes and writing them to bytes;
- the argument spec of a method or block, as the operand of `ENTER` holds it: the packing of the
  seven fields into one word, and reading each of them back.

`read?_write` says that reading what was written gives each operand back, cut to
the width of its slot; `write_read?` says that writing what was read gives the
bytes back.
-/

namespace RiteVm.Bytecode

/-- The two bytes of a 16-bit word, high byte first. -/
def be16 (word : Nat) : List UInt8 := [UInt8.ofNat (word / 256), UInt8.ofNat word]

/-- The 16-bit word with the given bytes. -/
def ofBe16 (high low : UInt8) : Nat := high.toNat * 256 + low.toNat

/-- How the operands of an instruction are laid out: `b` is one byte, `s` a 16-bit
word and `w` a 24-bit word, the high bytes first. -/
inductive Layout where
  | none
  | b
  | bb
  | bbb
  | bs
  | bss
  | s
  | w
deriving DecidableEq, Repr

/-- The operands of one instruction. Unused ones are zero. -/
structure Operands where
  a : Nat := 0
  b : Nat := 0
  c : Nat := 0
deriving DecidableEq, Repr, Inhabited

/-- A 16-bit word as a signed number. -/
def signed16 (word : Nat) : Int := Int.bmod word 65536

namespace Operands

/-- Operand `a` as a signed 16-bit number. -/
def signedA (operands : Operands) : Int := signed16 operands.a

/-- Operand `b` as a signed 16-bit number. -/
def signedB (operands : Operands) : Int := signed16 operands.b

end Operands

namespace Layout

/-- The name of the layout, one letter for each operand. -/
def name : Layout → String
  | none => "Z"
  | b => "B"
  | bb => "BB"
  | bbb => "BBB"
  | bs => "BS"
  | bss => "BSS"
  | s => "S"
  | w => "W"

/-- Number of bytes that the operands take. -/
def width : Layout → Nat
  | none => 0
  | b => 1
  | bb => 2
  | bbb => 3
  | bs => 3
  | bss => 5
  | s => 2
  | w => 3

/-- Number of operands. -/
def arity : Layout → Nat
  | none => 0
  | b => 1
  | bb => 2
  | bbb => 3
  | bs => 2
  | bss => 3
  | s => 1
  | w => 1

/-- The largest value of each operand. -/
def limits : Layout → Operands
  | none => ⟨0, 0, 0⟩
  | b => ⟨255, 0, 0⟩
  | bb => ⟨255, 255, 0⟩
  | bbb => ⟨255, 255, 255⟩
  | bs => ⟨255, 65535, 0⟩
  | bss => ⟨255, 65535, 65535⟩
  | s => ⟨65535, 0, 0⟩
  | w => ⟨16777215, 0, 0⟩

/-- Cuts each operand to the width of its slot. -/
def truncate (layout : Layout) (operands : Operands) : Operands :=
  ⟨operands.a % (layout.limits.a + 1), operands.b % (layout.limits.b + 1),
    operands.c % (layout.limits.c + 1)⟩

/-- Reads the operands from exactly the bytes that the layout takes. -/
def read? : Layout → List UInt8 → Option Operands
  | none, [] => some ⟨0, 0, 0⟩
  | b, [x] => some ⟨x.toNat, 0, 0⟩
  | bb, [x, y] => some ⟨x.toNat, y.toNat, 0⟩
  | bbb, [x, y, z] => some ⟨x.toNat, y.toNat, z.toNat⟩
  | bs, [x, y1, y0] => some ⟨x.toNat, ofBe16 y1 y0, 0⟩
  | bss, [x, y1, y0, z1, z0] => some ⟨x.toNat, ofBe16 y1 y0, ofBe16 z1 z0⟩
  | s, [x1, x0] => some ⟨ofBe16 x1 x0, 0, 0⟩
  | w, [x2, x1, x0] => some ⟨x2.toNat * 65536 + ofBe16 x1 x0, 0, 0⟩
  | _, _ => Option.none

/-- The bytes of the operands, each operand cut to the width of its slot. -/
def write (layout : Layout) (operands : Operands) : List UInt8 :=
  match layout with
  | none => []
  | b => [UInt8.ofNat operands.a]
  | bb => [UInt8.ofNat operands.a, UInt8.ofNat operands.b]
  | bbb => [UInt8.ofNat operands.a, UInt8.ofNat operands.b, UInt8.ofNat operands.c]
  | bs => UInt8.ofNat operands.a :: be16 operands.b
  | bss => UInt8.ofNat operands.a :: (be16 operands.b ++ be16 operands.c)
  | s => be16 operands.a
  | w => UInt8.ofNat (operands.a / 65536) :: be16 operands.a

@[simp] theorem length_write (layout : Layout) (operands : Operands) :
    (layout.write operands).length = layout.width := by
  cases layout <;> rfl

private theorem ofBe16_be16 (word : Nat) :
    ofBe16 (UInt8.ofNat (word / 256)) (UInt8.ofNat word) = word % 65536 := by
  simp only [ofBe16, UInt8.toNat_ofNat']
  omega

private theorem be16_ofBe16 (high low : UInt8) : be16 (ofBe16 high low) = [high, low] := by
  have highBound := high.toNat_lt
  have lowBound := low.toNat_lt
  simp only [be16, ofBe16, List.cons.injEq, and_true]
  constructor
  · apply UInt8.toNat.inj
    simp only [UInt8.toNat_ofNat']
    omega
  · apply UInt8.toNat.inj
    simp only [UInt8.toNat_ofNat']
    omega

/-- Reading what was written gives each operand back, cut to its slot. -/
theorem read?_write (layout : Layout) (operands : Operands) :
    layout.read? (layout.write operands) = some (layout.truncate operands) := by
  cases layout <;>
    simp [write, read?, truncate, limits, be16, ofBe16_be16, Nat.mod_one]
  omega

/-- Writing what was read gives the bytes back. -/
theorem write_read? {layout : Layout} {bytes : List UInt8} {operands : Operands}
    (decoded : layout.read? bytes = some operands) : layout.write operands = bytes := by
  unfold read? at decoded
  split at decoded <;> simp only [Option.some.injEq, reduceCtorEq] at decoded <;>
    subst decoded <;> simp [write, be16_ofBe16]
  rename_i a2 a1 a0
  have bound1 := a1.toNat_lt
  have bound0 := a0.toNat_lt
  have bound2 := a2.toNat_lt
  simp only [be16, ofBe16, List.cons.injEq, and_true]
  refine ⟨?_, ?_, ?_⟩ <;>
    · apply UInt8.toNat.inj
      simp only [UInt8.toNat_ofNat']
      omega

end Layout

/-- The parameters of a method or block, packed into one word. -/
structure ArgSpec where
  word : UInt32
deriving DecidableEq, Repr, Inhabited

namespace ArgSpec

/-- The parameters, one field each. -/
structure Fields where
  /-- required parameters before the optional ones -/
  required : UInt32 := 0
  optional : UInt32 := 0
  rest : Bool := false
  /-- required parameters behind the rest parameter -/
  post : UInt32 := 0
  /-- declared keywords -/
  keywords : UInt32 := 0
  /-- whether further keywords are collected in a dictionary -/
  dictionary : Bool := false
  block : Bool := false
deriving DecidableEq, Repr, Inhabited

/-- Packs the fields. Counts keep their low five bits. -/
def ofFields (fields : Fields) : ArgSpec :=
  ⟨(fields.required &&& 31) <<< 18 ||| (fields.optional &&& 31) <<< 13
    ||| fields.rest.toUInt32 <<< 12 ||| (fields.post &&& 31) <<< 7
    ||| (fields.keywords &&& 31) <<< 2 ||| fields.dictionary.toUInt32 <<< 1
    ||| fields.block.toUInt32⟩

/-- The spec with the given word as the operand of `ENTER`. -/
def ofOperand (word : Nat) : ArgSpec := ⟨UInt32.ofNat word⟩

/-- Only required parameters. -/
def requiredOnly (count : UInt32) : ArgSpec := ofFields { required := count }

/-- Number of required parameters before the optional ones. -/
def required (spec : ArgSpec) : Nat := (spec.word >>> 18 &&& 31).toNat

/-- Number of optional parameters. -/
def optional (spec : ArgSpec) : Nat := (spec.word >>> 13 &&& 31).toNat

/-- Whether there is a rest parameter. -/
def rest (spec : ArgSpec) : Bool := spec.word >>> 12 &&& 1 == 1

/-- Number of required parameters behind the rest parameter. -/
def post (spec : ArgSpec) : Nat := (spec.word >>> 7 &&& 31).toNat

/-- Number of declared keywords. -/
def keywords (spec : ArgSpec) : Nat := (spec.word >>> 2 &&& 31).toNat

/-- Whether further keywords are collected in a dictionary. -/
def dictionary (spec : ArgSpec) : Bool := spec.word >>> 1 &&& 1 == 1

/-- Whether there is a block parameter. -/
def block (spec : ArgSpec) : Bool := spec.word &&& 1 == 1

/-- Whether keywords are taken in any form. -/
def takesKeywords (spec : ArgSpec) : Bool := 0 < spec.keywords || spec.dictionary

end ArgSpec

end RiteVm.Bytecode
