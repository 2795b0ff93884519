import RiteVm.Numeric.Binary64
import RiteVm.Value

/-!
Contract: arithmetic and comparison of numbers.

Owns:
- the arithmetic of integers, whose result is a float where it does not fit, with
  division and remainder rounded down;
- the arithmetic of floats;
- comparisons, and the equality of values that needs no method.

Does not own: operands that are no numbers, which are a matter of method calls.
-/

namespace RiteVm

/-- An arithmetic operation. -/
inductive ArithOp where
  | add
  | sub
  | mul
  | div
  | mod
deriving DecidableEq, Repr

/-- A comparison. -/
inductive CompareOp where
  | lt
  | le
  | gt
  | ge
deriving DecidableEq, Repr

namespace ArithOp

/-- The name of the method for the operation. -/
def name : ArithOp → String
  | add => "+"
  | sub => "-"
  | mul => "*"
  | div => "/"
  | mod => "%"

/-- The operation on floats. The remainder has the sign of the divisor. -/
def onFloats (op : ArithOp) (left right : Float) : Float :=
  match op with
  | add => left + right
  | sub => left - right
  | mul => left * right
  | div => left / right
  | mod =>
    let remainder := Numeric.floatRemainder left right
    if remainder != 0.0 && decide (remainder < 0.0) != decide (right < 0.0) then
      remainder + right
    else remainder

/-- Whether an integer fits 64 bits. -/
def fits (number : Int) : Bool :=
  Int64.minValue.toInt ≤ number && number ≤ Int64.maxValue.toInt

/-! ### Integers of 64 bits -/

/-- The sum, unless it overflows. -/
def sum? (left right : Int64) : Option Int64 :=
  if fits (left.toInt + right.toInt) then some (left + right) else none

/-- The difference, unless it overflows. -/
def difference? (left right : Int64) : Option Int64 :=
  if fits (left.toInt - right.toInt) then some (left - right) else none

/-- The product, unless it overflows. -/
def product? (left right : Int64) : Option Int64 :=
  if fits (left.toInt * right.toInt) then some (left * right) else none

/-- Whether a division has a result: the least number divided by -1 is too large. -/
def divides (dividend divisor : Int64) : Bool :=
  divisor != 0 && !(dividend == Int64.minValue && divisor == -1)

/-- The quotient rounded toward zero, unless it overflows. -/
def quotient? (dividend divisor : Int64) : Option Int64 :=
  if divides dividend divisor then some (dividend / divisor) else none

/-- What the quotient rounded toward zero leaves; it has the sign of the dividend. -/
def remainder? (dividend divisor : Int64) : Option Int64 :=
  if divides dividend divisor then some (dividend % divisor) else none

end ArithOp

/-- What an operation on two integers comes to. -/
inductive IntOutcome where
  | value (result : Value)
  | divisionByZero
  /-- a number on the way to the result does not fit 64 bits -/
  | overflow
deriving DecidableEq, Repr

namespace IntOutcome

/-- A result that becomes a float where it overflows. -/
def orFloat (number? : Option Int64) (float : Float) : IntOutcome :=
  match number? with
  | some number => .value (.int number)
  | none => .value (.float float)

/-- A result that has to fit. -/
def expecting (number? : Option Int64) : IntOutcome :=
  match number? with
  | some number => .value (.int number)
  | none => .overflow

end IntOutcome

namespace ArithOp

/-- The operation on integers. Sums, differences, products and quotients that overflow become
floats. Division and remainder are rounded toward zero at first, and corrected where that is not
down. -/
def onInts (op : ArithOp) (left right : Int64) : IntOutcome :=
  let float := op.onFloats left.toFloat right.toFloat
  match op with
  | add => .orFloat (sum? left right) float
  | sub => .orFloat (difference? left right) float
  | mul => .orFloat (product? left right) float
  | div =>
    if right = 0 then .divisionByZero
    else
      match quotient? left right with
      | none => .value (.float float)
      | some quotient =>
        match remainder? left right with
        | none => .overflow
        | some remainder =>
          if remainder != 0 && decide (left < 0) != decide (right < 0) then
            .expecting (difference? quotient 1)
          else .value (.int quotient)
  | mod =>
    if right = 0 then .divisionByZero
    else
      let remainder := (remainder? left right).getD 0
      if remainder != 0 && decide (remainder < 0) != decide (right < 0) then
        .expecting (sum? remainder right)
      else .value (.int remainder)

end ArithOp

namespace CompareOp

/-- The symbol of the method for the comparison. -/
def symbol : CompareOp → Symbol
  | lt => .opLt
  | le => .opLe
  | gt => .opGt
  | ge => .opGe

/-- The name of the method for the comparison. -/
def name : CompareOp → String
  | lt => "<"
  | le => "<="
  | gt => ">"
  | ge => ">="

def onInts (op : CompareOp) (left right : Int64) : Bool :=
  match op with
  | lt => left < right
  | le => left ≤ right
  | gt => right < left
  | ge => right ≤ left

/-- Comparison with what is not a number is false. -/
def onFloats (op : CompareOp) (left right : Float) : Bool :=
  match op with
  | lt => left < right
  | le => left ≤ right
  | gt => right < left
  | ge => right ≤ left

/-- The comparison of two numbers; nothing if an operand is no number. -/
def onValues? (op : CompareOp) (left right : Value) : Option Bool :=
  match left, right with
  | .int left, .int right => some (op.onInts left right)
  | _, _ =>
    match left.float?, right.float? with
    | some left, some right => some (op.onFloats left right)
    | _, _ => none

end CompareOp

namespace Value

/-- The negative of an integer; a float where it does not fit. -/
def negInt (number : Int64) : Value :=
  if ArithOp.fits (-number.toInt) then .int (-number) else .float (-number.toFloat)

/-- Equality where no method decides it; nothing if one of the values is an object. -/
def quickEqual? (left right : Value) : Option Bool :=
  match left, right with
  | .int left, .int right => some (left == right)
  | _, _ =>
    match left.float?, right.float? with
    | some left, some right => some (left == right)
    | _, _ =>
      if left.isImmediate && right.isImmediate then some (left.equal right) else none

end Value

end RiteVm
