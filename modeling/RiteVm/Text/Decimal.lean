import RiteVm.Numeric.Binary64

/-!
Contract: blank characters, the alignment of text in columns, and floats as decimal text.

Owns:
- the class of blank characters, the Unicode property `White_Space`, and cutting blanks off the end
  of a line;
- numbers padded with zeros and words padded with spaces;
- the shortest decimal that reads back as a given float;
- the printed form of floats.

A decimal reads back as the float if it lies in the interval of numbers that round to
it. The interval is tried with grids of one, two, ... seventeen digits; the first grid
with a point in the interval wins, of two points the nearer one, and of two equally
near ones the upper.
-/

namespace RiteVm.Text

/-- Whether a character has the Unicode property `White_Space`. -/
def isBlank (char : Char) : Bool :=
  let code := char.toNat
  (0x09 ≤ code && code ≤ 0x0d) || code == 0x20 || code == 0x85 || code == 0xa0
    || code == 0x1680 || (0x2000 ≤ code && code ≤ 0x200a) || code == 0x2028
    || code == 0x2029 || code == 0x202f || code == 0x205f || code == 0x3000

theorem isBlank_of_isWhitespace {char : Char} (white : char.isWhitespace = true) :
    isBlank char = true := by
  simp only [Char.isWhitespace, Bool.or_eq_true, decide_eq_true_eq] at white
  rcases white with ((rfl | rfl) | rfl) | rfl <;> decide

/-- The text without the blanks at its end. -/
def trimEnd (text : String) : String :=
  String.ofList (text.toList.reverse.dropWhile isBlank).reverse

/-- The decimal digits of a number, with zeros after its sign up to the given width. -/
def zeroPadded (width : Nat) (value : Int) : String :=
  let sign := if value < 0 then "-" else ""
  let digits := toString value.natAbs
  sign ++ "".pushn '0' (width - sign.length - digits.length) ++ digits

/-- The text followed by spaces up to the given width. -/
def leftAligned (width : Nat) (text : String) : String :=
  text.pushn ' ' (width - text.length)

open RiteVm.Numeric

/-- The number `digits · 10 ^ exponent`. -/
structure Decimal where
  digits : Nat
  exponent : Int
deriving DecidableEq, Repr, Inhabited

namespace Decimal

/-- A positive rational number as a fraction. -/
structure Fraction where
  numerator : Nat
  denominator : Nat
deriving DecidableEq, Repr

/-- The fraction `mantissa · 2 ^ exponent / 10 ^ grid`. -/
def onGrid (mantissa : Nat) (exponent grid : Int) : Fraction :=
  ⟨mantissa <<< exponent.toNat * Nat.pow 10 (-grid).toNat,
    1 <<< (-exponent).toNat * Nat.pow 10 grid.toNat⟩

/-- The numbers that round to a float, in units of a power of two. The ends belong to
the interval exactly if the mantissa is even. -/
structure Interval where
  low : Nat
  value : Nat
  high : Nat
  exponent : Int
  closed : Bool
deriving DecidableEq, Repr

/-- The interval of a positive float. Below a power of two the neighbour is half as far
away, unless the exponent is the smallest. -/
def Interval.ofBinary (number : Binary) : Interval :=
  let { mantissa, exponent, .. } := number
  let boundary := mantissa = Binary.leadingDigit ∧ -1074 < exponent
  ⟨4 * mantissa - (if boundary then 1 else 2), 4 * mantissa, 4 * mantissa + 2,
    exponent - 2, mantissa % 2 = 0⟩

/-- The point of the grid in the interval that is nearest to the value, if there is
one. -/
def Interval.nearest? (interval : Interval) (grid : Int) : Option Nat :=
  let value := onGrid interval.value interval.exponent grid
  let low := (onGrid interval.low interval.exponent grid).numerator
  let high := (onGrid interval.high interval.exponent grid).numerator
  let inside (point : Nat) : Bool :=
    let place := point * value.denominator
    if interval.closed then low ≤ place && place ≤ high else low < place && place < high
  let below := value.numerator / value.denominator
  let distance := value.numerator % value.denominator
  match inside below, inside (below + 1) with
  | true, true => some (if 2 * distance < value.denominator then below else below + 1)
  | true, false => some below
  | false, true => some (below + 1)
  | false, false => none

/-- The largest power of ten that is not above the value, found by counting down. -/
def leadingExponent (interval : Interval) : Nat → Int → Int
  | 0, exponent => exponent
  | fuel + 1, exponent =>
    let value := onGrid interval.value interval.exponent exponent
    if value.denominator ≤ value.numerator then exponent
    else leadingExponent interval fuel (exponent - 1)

/-- The first grid from a given number of digits on that has a point in the interval. -/
def searchGrids (interval : Interval) (leading : Int) : Nat → Int → Decimal
  | 0, grid => ⟨(interval.nearest? grid).getD 0, grid⟩
  | fuel + 1, grid =>
    match interval.nearest? grid with
    | some digits => ⟨digits, grid⟩
    | none => searchGrids interval leading fuel (grid - 1)

/-- The shortest decimal that reads back as the given positive number. -/
def shortest (number : Binary) : Decimal :=
  let interval := Interval.ofBinary number
  let leading := leadingExponent interval 640 309
  searchGrids interval leading 17 leading

/-- The decimal in positional notation, without zeros behind the last digit of a
fraction. -/
def positional (decimal : Decimal) : String :=
  let digits := (toString decimal.digits).toList
  if 0 ≤ decimal.exponent then
    String.ofList (digits ++ List.replicate decimal.exponent.toNat '0')
  else
    let places := (-decimal.exponent).toNat
    let padded := List.replicate (places + 1 - digits.length) '0' ++ digits
    let fraction := (padded.drop (padded.length - places)).reverse.dropWhile (· == '0')
    let whole := padded.take (padded.length - places)
    if fraction.isEmpty then String.ofList whole
    else String.ofList (whole ++ '.' :: fraction.reverse)

end Decimal

/-- The text of a float: whole numbers below 10 ^ 16 with one decimal, all others with
the fewest digits that read back, never with an exponent. -/
def floatText (float : Float) : String :=
  match Binary.ofFloat? float with
  | none =>
    if float.isNaN then "NaN" else if 0.0 < float then "Infinity" else "-Infinity"
  | some number =>
    let sign := if number.negative then "-" else ""
    let magnitude := number.integerPart.natAbs
    if number.isIntegral && magnitude < 10000000000000000 then s!"{sign}{magnitude}.0"
    else sign ++ (Decimal.shortest number).positional

end RiteVm.Text
