/-!
Contract: finite floats as exact numbers.

Owns:
- the sign, mantissa and exponent of a finite float;
- the float with a given sign, mantissa and exponent, where one exists;
- the remainder of two floats, which is always exact;
- the integer part of a float.
-/

namespace RiteVm.Numeric

/-- A finite number `±mantissa · 2 ^ exponent`. -/
structure Binary where
  negative : Bool
  mantissa : Nat
  exponent : Int
deriving DecidableEq, Repr, Inhabited

namespace Binary

/-- The least mantissa of 53 binary digits, which is the leading digit that a bit pattern
leaves out. -/
def leadingDigit : Nat := 1 <<< 52

/-- The number that a finite float stands for. -/
def ofFloat? (float : Float) : Option Binary :=
  let bits := float.toBits.toNat
  let negative := bits >>> 63 == 1
  let biased : Nat := bits >>> 52 % 2048
  let fraction := bits % leadingDigit
  if biased = 2047 then none
  else if biased = 0 then some ⟨negative, fraction, -1074⟩
  else some ⟨negative, leadingDigit + fraction, Int.ofNat biased - 1075⟩

/-- The bit pattern of a magnitude below the largest float whose mantissa fits. -/
def magnitudeBits (mantissa : Nat) (exponent : Int) : Nat :=
  if mantissa = 0 then 0
  else
    let length := mantissa.log2 + 1
    -- the exponent at which the mantissa has 53 binary digits, or the smallest one
    let target := max (exponent + length - 53) (-1074)
    let shift := target - exponent
    let scaled := if 0 ≤ shift then mantissa >>> shift.toNat else mantissa <<< (-shift).toNat
    if scaled < leadingDigit then scaled
    else (target + 1075).toNat <<< 52 + (scaled - leadingDigit)

/-- The float that a number is, if it is one; other digits are cut off. -/
def toFloat (number : Binary) : Float :=
  let sign := if number.negative then 1 <<< 63 else 0
  Float.ofBits (UInt64.ofNat (sign + magnitudeBits number.mantissa number.exponent))

/-- The integer part, rounded toward zero. -/
def integerPart (number : Binary) : Int :=
  let magnitude :=
    if 0 ≤ number.exponent then number.mantissa <<< number.exponent.toNat
    else number.mantissa >>> (-number.exponent).toNat
  if number.negative then -magnitude else magnitude

/-- Whether the number has no digits behind the point. -/
def isIntegral (number : Binary) : Bool :=
  0 ≤ number.exponent || number.mantissa % 1 <<< (-number.exponent).toNat == 0

/-- The remainder of a division rounded toward zero; it has the sign of the dividend. -/
def remainder (dividend divisor : Binary) : Binary :=
  let exponent := min dividend.exponent divisor.exponent
  let aligned (number : Binary) : Nat :=
    number.mantissa <<< (number.exponent - exponent).toNat
  ⟨dividend.negative, aligned dividend % aligned divisor, exponent⟩

end Binary

/-- The remainder of a float division rounded toward zero. It is not a number if the
dividend is infinite or the divisor is zero, and the dividend if the divisor is
infinite. -/
def floatRemainder (dividend divisor : Float) : Float :=
  match Binary.ofFloat? dividend, Binary.ofFloat? divisor with
  | some left, some right =>
    if right.mantissa = 0 then 0.0 / 0.0 else (Binary.remainder left right).toFloat
  | some _, none => if divisor.isNaN then divisor else dividend
  | none, _ => 0.0 / 0.0

end RiteVm.Numeric
