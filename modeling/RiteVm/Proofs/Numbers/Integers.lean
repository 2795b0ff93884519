import Mathlib.Data.Int.ModEq
import Mathlib.Data.Rat.Floor
import Mathlib.Tactic.FieldSimp
import Mathlib.Tactic.Linarith
import RiteVm.Core.Numbers
import RiteVm.Proofs.Arguments.CallSites

/-!
Contract: the arithmetic of integers of 64 bits, against that of all integers.

Owns:
- operations on words, which are exact where the result fits;
- division rounded toward zero, and its correction to division rounded down;
- that each operation on two integers gives the exact result, or a float where that does not fit,
  and that only a division by zero is reported;
- the integers of a range, given by its ends alone, and that a splat lists them in increasing order,
  except for the largest integer of 64 bits at the end of a range that includes its last one.

Division and remainder are computed by operations that round toward zero and are corrected behind
them. Nothing makes up for an overflow of the corrections, so it is shown that they stay in range.
The end of a range that includes its last integer is moved on by one, and nothing follows the largest
integer. So that one is left out, and no other.
-/

namespace RiteVm

/-! ### What is owed -/

/-- A result stands for an integer: it is that integer if it fits 64 bits, and a float if not. -/
inductive Value.StandsFor (exact : Int) (float : Float) : Value → Prop where
  | int {number : Int64} (isExact : number.toInt = exact) : StandsFor exact float (.int number)
  | float (tooLarge : ¬ArithOp.fits exact) : StandsFor exact float (.float float)

/-- What is left of a division that is rounded down. -/
structure IsModulo (dividend divisor remainder : Int) : Prop where
  congruent : remainder ≡ dividend [ZMOD divisor]
  sign : remainder = 0 ∨ remainder.sign = divisor.sign
  small : |remainder| < |divisor|

/-- What the arithmetic of two integers owes. -/
structure ArithOp.ExactOn (left right : Int64) : Prop where
  sum : ∃ result, add.onInts left right = .value result ∧
    result.StandsFor (left.toInt + right.toInt) (left.toFloat + right.toFloat)
  difference : ∃ result, sub.onInts left right = .value result ∧
    result.StandsFor (left.toInt - right.toInt) (left.toFloat - right.toFloat)
  product : ∃ result, mul.onInts left right = .value result ∧
    result.StandsFor (left.toInt * right.toInt) (left.toFloat * right.toFloat)
  /-- a division or a remainder by zero is reported, and nothing else is -/
  reported : ∀ op : ArithOp,
    op.onInts left right = .divisionByZero ↔ right = 0 ∧ (op = .div ∨ op = .mod)
  remainder : right ≠ 0 → ∃ remainder : Int64, mod.onInts left right = .value (.int remainder) ∧
    IsModulo left.toInt right.toInt remainder.toInt
  quotient : right ≠ 0 → ¬(left = Int64.minValue ∧ right = -1) →
    ∃ quotient remainder : Int64, div.onInts left right = .value (.int quotient) ∧
      mod.onInts left right = .value (.int remainder) ∧
      quotient.toInt = ⌊(left.toInt : ℚ) / right.toInt⌋ ∧
      quotient.toInt * right.toInt + remainder.toInt = left.toInt
  /-- the one quotient that does not fit -/
  largeQuotient : left = Int64.minValue → right = -1 →
    div.onInts left right = .value (.float (left.toFloat / right.toFloat))
  negative : left ≠ Int64.minValue → ∃ number : Int64, Value.negInt left = .int number ∧
    number.toInt = -left.toInt
  /-- the one negative that does not fit -/
  largeNegative : left = Int64.minValue → Value.negInt left = .float (-left.toFloat)
  inRange : ∀ op : ArithOp, op.onInts left right ≠ .overflow
  /-- the machine raises an exception for what is reported -/
  raised : ∀ op : ArithOp, right = 0 ∧ (op = .div ∨ op = .mod) →
    VM.arithmetic op (.int left) (.int right) = VM.raise .zeroDivisionError "divided by 0"
  /-- the machine goes on with any other result -/
  answered : ∀ op : ArithOp, ¬(right = 0 ∧ (op = .div ∨ op = .mod)) →
    ∃ result, op.onInts left right = .value result ∧
      VM.arithmetic op (.int left) (.int right) = pure (some result)

/-! ### Words -/

namespace ArithOp

variable {left right number : Int64} {exact : Int}

theorem fits_iff : fits exact ↔ -2 ^ 63 ≤ exact ∧ exact < 2 ^ 63 := by
  have least : Int64.minValue.toInt = -2 ^ 63 := rfl
  have largest : Int64.maxValue.toInt = 2 ^ 63 - 1 := rfl
  rw [fits, Bool.and_eq_true, decide_eq_true_iff, decide_eq_true_iff, least, largest]
  omega

/-- A word that wraps around is exact where the exact result fits. -/
theorem toInt_of_fits (wraps : number.toInt = exact.bmod (2 ^ 64)) (fit : fits exact) :
    number.toInt = exact := by
  obtain ⟨low, high⟩ := fits_iff.mp fit
  rw [wraps]
  exact Int.bmod_eq_of_le (by omega) (by omega)

/-- A checked word stands for the exact result, with a float in its place where it overflows. -/
theorem exists_orFloat (wraps : number.toInt = exact.bmod (2 ^ 64)) (float : Float) :
    ∃ result, IntOutcome.orFloat (if fits exact then some number else none) float = .value result ∧
      result.StandsFor exact float := by
  by_cases fit : fits exact
  · rw [if_pos fit]
    exact ⟨_, rfl, .int (toInt_of_fits wraps fit)⟩
  · rw [if_neg fit]
    exact ⟨_, rfl, .float fit⟩

/-- A checked word is there where the exact result fits. -/
theorem exists_expecting (wraps : number.toInt = exact.bmod (2 ^ 64)) (fit : fits exact) :
    ∃ word : Int64, IntOutcome.expecting (if fits exact then some number else none) =
      .value (.int word) ∧ word.toInt = exact := by
  rw [if_pos fit]
  exact ⟨number, rfl, toInt_of_fits wraps fit⟩

theorem toInt_ne_zero (nonzero : right ≠ 0) : right.toInt ≠ 0 := fun isZero =>
  nonzero (Int64.toInt_inj.mp isZero)

/-- Division by another number than zero fails for one pair of operands only. -/
theorem divides_iff (nonzero : right ≠ 0) :
    divides left right ↔ ¬(left = Int64.minValue ∧ right = -1) := by
  simp [divides, nonzero, imp_iff_not_or]

/-- The words of a division rounded toward zero are its exact results. -/
theorem toInt_of_divides (nonzero : right ≠ 0) (divide : divides left right) :
    (left / right).toInt = left.toInt.tdiv right.toInt ∧
      (left % right).toInt = left.toInt.tmod right.toInt := by
  have notLargest := (divides_iff nonzero).mp divide
  refine ⟨?_, Int64.toInt_mod left right⟩
  by_cases isLeast : left = Int64.minValue
  · exact Int64.toInt_div_of_ne_right _ _ fun isNegOne => notLargest ⟨isLeast, isNegOne⟩
  · exact Int64.toInt_div_of_ne_left _ _ isLeast

/-- Where the quotient overflows nothing is left, so that the remainder is zero. -/
theorem toInt_remainder (left : Int64) (nonzero : right ≠ 0) :
    ((remainder? left right).getD 0).toInt = left.toInt.tmod right.toInt := by
  unfold remainder?
  split
  · next divide => exact (toInt_of_divides nonzero divide).2
  · next notDivided =>
      obtain ⟨rfl, rfl⟩ := not_not.mp (mt (divides_iff nonzero).mpr notDivided)
      rfl

/-- The test for a correction, on words and on their numbers. -/
theorem corrects_iff {rest sign : Int64} :
    (rest != 0 && decide (sign < 0) != decide (right < 0)) = true ↔
      rest.toInt ≠ 0 ∧ ¬(sign.toInt < 0 ↔ right.toInt < 0) := by
  simp [Int64.lt_iff_toInt_lt, ← Int64.toInt_inj]

end ArithOp

/-! ### Rounding down -/

section Rounding

variable {dividend divisor : Int}

/-- What a division rounded toward zero leaves is smaller than the divisor, and it has the sign of
the dividend. -/
theorem tmod_bounds (dividend : Int) (nonzero : divisor ≠ 0) :
    (dividend.tmod divisor).natAbs < divisor.natAbs ∧
      (dividend.tmod divisor ≠ 0 → (dividend.tmod divisor < 0 ↔ dividend < 0)) := by
  constructor
  · rw [Int.natAbs_tmod]
    exact Nat.mod_lt _ (Int.natAbs_pos.mpr nonzero)
  · intro isRest
    have sign := Int.sign_tmod dividend divisor
    split at sign
    · exact absurd (Int.sign_eq_zero_iff_zero.mp sign) isRest
    · rw [← Int.sign_eq_neg_one_iff_neg, sign, Int.sign_eq_neg_one_iff_neg]

/-- Quotient and remainder rounded down are those whose remainder lies on the divisor's side. -/
theorem fdiv_fmod_of_range {quotient remainder : Int}
    (isDivision : remainder + divisor * quotient = dividend)
    (range : 0 < divisor ∧ 0 ≤ remainder ∧ remainder < divisor ∨
      divisor < 0 ∧ divisor < remainder ∧ remainder ≤ 0) :
    dividend.fdiv divisor = quotient ∧ dividend.fmod divisor = remainder := by
  rcases range with ⟨positive, range⟩ | ⟨negative, range⟩
  · exact (Int.fdiv_fmod_unique positive).mpr ⟨isDivision, range⟩
  · exact (Int.fdiv_fmod_unique' negative).mpr ⟨isDivision, range⟩

/-- Where something is left and the signs differ, one more of the divisor has to be taken. -/
theorem fdiv_fmod_of_corrects (nonzero : divisor ≠ 0) (isRest : dividend.tmod divisor ≠ 0)
    (apart : ¬(dividend < 0 ↔ divisor < 0)) :
    dividend.fdiv divisor = dividend.tdiv divisor - 1 ∧
      dividend.fmod divisor = dividend.tmod divisor + divisor := by
  obtain ⟨small, sign⟩ := tmod_bounds dividend nonzero
  have isDivision := Int.tmod_add_mul_tdiv dividend divisor
  apply fdiv_fmod_of_range
  · rw [Int.mul_sub, Int.mul_one]
    omega
  · have sameSign := sign isRest
    omega

/-- Everywhere else the division rounded toward zero is rounded down. -/
theorem fdiv_fmod_of_not_corrects (nonzero : divisor ≠ 0)
    (keeps : ¬(dividend.tmod divisor ≠ 0 ∧ ¬(dividend < 0 ↔ divisor < 0))) :
    dividend.fdiv divisor = dividend.tdiv divisor ∧
      dividend.fmod divisor = dividend.tmod divisor := by
  obtain ⟨small, sign⟩ := tmod_bounds dividend nonzero
  apply fdiv_fmod_of_range (Int.tmod_add_mul_tdiv dividend divisor)
  omega

/-- The remainder of the division rounded down. -/
theorem isModulo_fmod (dividend : Int) (nonzero : divisor ≠ 0) :
    IsModulo dividend divisor (dividend.fmod divisor) := by
  have congruent : dividend.fmod divisor ≡ dividend [ZMOD divisor] :=
    Int.modEq_iff_dvd.mpr Int.dvd_self_sub_fmod
  rcases Int.lt_or_gt_of_ne nonzero with negative | positive
  · obtain ⟨-, low, high⟩ := (Int.fdiv_fmod_unique' negative).mp
      ⟨rfl, (rfl : dividend.fmod divisor = _)⟩
    refine ⟨congruent, ?_, by rw [Int.abs_eq_natAbs, Int.abs_eq_natAbs]; omega⟩
    rcases Int.lt_or_eq_of_le high with below | isZero
    · exact .inr (by rw [Int.sign_eq_neg_one_of_neg below, Int.sign_eq_neg_one_of_neg negative])
    · exact .inl isZero
  · have low := Int.fmod_nonneg_of_pos dividend positive
    have high := Int.fmod_lt_of_pos dividend positive
    refine ⟨congruent, ?_, by rw [Int.abs_eq_natAbs, Int.abs_eq_natAbs]; omega⟩
    rcases Int.lt_or_eq_of_le low with above | isZero
    · exact .inr (by rw [Int.sign_eq_one_of_pos above, Int.sign_eq_one_of_pos positive])
    · exact .inl isZero.symm

/-- The ratio of two integers, rounded down. -/
theorem floor_ratio (dividend divisor : Int) :
    ⌊(dividend : ℚ) / divisor⌋ = dividend.fdiv divisor := by
  have ofNat (dividend : Int) (divisor : Nat) :
      ⌊(dividend : ℚ) / (divisor : Int)⌋ = dividend.fdiv divisor := by
    rw [Int.fdiv_eq_ediv_of_nonneg _ (Int.natCast_nonneg divisor), Int.cast_natCast]
    exact Rat.floor_intCast_div_natCast dividend divisor
  obtain ⟨magnitude, rfl | rfl⟩ := Int.eq_nat_or_neg divisor
  · exact ofNat dividend magnitude
  · have turned := ofNat (-dividend) magnitude
    rwa [← neg_div_neg_eq, ← Int.cast_neg, ← Int.cast_neg, neg_neg, ← Int.neg_fdiv_neg, neg_neg]

/-- A corrected quotient fits, since one that is corrected was not the least number. -/
theorem fits_of_corrects (fits : ArithOp.fits dividend) (nonzero : divisor ≠ 0)
    (isRest : dividend.tmod divisor ≠ 0) : ArithOp.fits (dividend.tdiv divisor - 1) := by
  rw [ArithOp.fits_iff] at *
  obtain ⟨small, sign⟩ := tmod_bounds dividend nonzero
  have sameSign := sign isRest
  have isDivision := Int.tmod_add_mul_tdiv dividend divisor
  have smaller := Int.natAbs_tdiv_le_natAbs dividend divisor
  have notLeast : dividend.tdiv divisor ≠ -2 ^ 63 := by
    intro isLeast
    rw [isLeast] at isDivision
    omega
  omega

end Rounding

/-! ### Operations -/

namespace ArithOp

variable {left right : Int64}

theorem fits_toInt (number : Int64) : fits number.toInt :=
  fits_iff.mpr ⟨number.le_toInt, number.toInt_lt⟩

/-- The remainder is that of the division rounded down. -/
theorem mod_onInts (left : Int64) (nonzero : right ≠ 0) :
    ∃ remainder : Int64, mod.onInts left right = .value (.int remainder) ∧
      remainder.toInt = left.toInt.fmod right.toInt := by
  have number := toInt_ne_zero nonzero
  have isRest := toInt_remainder left nonzero
  obtain ⟨small, sign⟩ := tmod_bounds left.toInt number
  unfold onInts
  dsimp only
  rw [if_neg nonzero]
  split
  · next corrects =>
      obtain ⟨isLeft, apart⟩ := corrects_iff.mp corrects
      rw [isRest] at isLeft apart
      rw [sign isLeft] at apart
      have inside : fits (left.toInt.tmod right.toInt + right.toInt) := by
        have fitsDivisor := fits_iff.mp (fits_toInt right)
        have sameSign := sign isLeft
        rw [fits_iff]
        omega
      rw [(fdiv_fmod_of_corrects number isLeft apart).2, ← isRest]
      rw [← isRest] at inside
      exact exists_expecting (Int64.toInt_add _ _) inside
  · next keeps =>
      rw [corrects_iff, isRest] at keeps
      have kept : ¬(left.toInt.tmod right.toInt ≠ 0 ∧ ¬(left.toInt < 0 ↔ right.toInt < 0)) :=
        fun corrects => keeps ⟨corrects.1, by rw [sign corrects.1]; exact corrects.2⟩
      exact ⟨_, rfl, isRest.trans (fdiv_fmod_of_not_corrects number kept).2.symm⟩

/-- The quotient is that of the division rounded down, where it is not too large. -/
theorem div_onInts (nonzero : right ≠ 0) (divide : divides left right) :
    ∃ quotient : Int64, div.onInts left right = .value (.int quotient) ∧
      quotient.toInt = left.toInt.fdiv right.toInt := by
  have number := toInt_ne_zero nonzero
  obtain ⟨isQuotient, isRest⟩ := toInt_of_divides nonzero divide
  simp only [onInts, if_neg nonzero, quotient?, remainder?, if_pos divide]
  split
  · next corrects =>
      obtain ⟨isLeft, apart⟩ := corrects_iff.mp corrects
      rw [isRest] at isLeft
      have inside := fits_of_corrects (fits_toInt left) number isLeft
      rw [(fdiv_fmod_of_corrects number isLeft apart).1, ← isQuotient]
      rw [← isQuotient] at inside
      exact exists_expecting (Int64.toInt_sub _ _) inside
  · next keeps =>
      rw [corrects_iff, isRest] at keeps
      exact ⟨_, rfl, isQuotient.trans (fdiv_fmod_of_not_corrects number keeps).1.symm⟩

/-- A number other than the least has a negative. -/
theorem negInt_of_ne (notLeast : left ≠ Int64.minValue) :
    ∃ number : Int64, Value.negInt left = .int number ∧ number.toInt = -left.toInt := by
  have above : left.toInt ≠ -2 ^ 63 := fun isLeast => notLeast (Int64.toInt_inj.mp isLeast)
  have low := left.le_toInt
  have high := left.toInt_lt
  have fit : fits (-left.toInt) := by
    rw [fits_iff]
    omega
  exact ⟨-left, if_pos fit, toInt_of_fits (Int64.toInt_neg left) fit⟩

/-- The largest quotient is a float. -/
theorem div_onInts_largest (isLeast : left = Int64.minValue) (isNegOne : right = -1) :
    div.onInts left right = .value (.float (left.toFloat / right.toFloat)) := by
  subst isLeast isNegOne
  rfl

theorem onInts_of_byZero {op : ArithOp} (byZero : right = 0 ∧ (op = .div ∨ op = .mod)) :
    op.onInts left right = .divisionByZero := by
  obtain ⟨isZero, rfl | rfl⟩ := byZero
  · exact if_pos isZero
  · exact if_pos isZero

/-- An operation has a result unless it divides by zero. -/
theorem exists_onInts {op : ArithOp} (left : Int64)
    (other : ¬(right = 0 ∧ (op = .div ∨ op = .mod))) :
    ∃ result, op.onInts left right = .value result := by
  cases op with
  | add =>
      obtain ⟨result, performed, -⟩ := exists_orFloat (Int64.toInt_add left right) _
      exact ⟨result, performed⟩
  | sub =>
      obtain ⟨result, performed, -⟩ := exists_orFloat (Int64.toInt_sub left right) _
      exact ⟨result, performed⟩
  | mul =>
      obtain ⟨result, performed, -⟩ := exists_orFloat (Int64.toInt_mul left right) _
      exact ⟨result, performed⟩
  | div =>
      have nonzero : right ≠ 0 := fun isZero => other ⟨isZero, .inl rfl⟩
      by_cases isLargest : left = Int64.minValue ∧ right = -1
      · exact ⟨_, div_onInts_largest isLargest.1 isLargest.2⟩
      · obtain ⟨quotient, divided, -⟩ := div_onInts nonzero ((divides_iff nonzero).mpr isLargest)
        exact ⟨_, divided⟩
  | mod =>
      have nonzero : right ≠ 0 := fun isZero => other ⟨isZero, .inr rfl⟩
      obtain ⟨remainder, performed, -⟩ := mod_onInts left nonzero
      exact ⟨_, performed⟩

/-- The arithmetic of integers is exact. Sums, differences, products, quotients and negatives are
the integers that they should be where these fit 64 bits, and floats elsewhere; division is rounded
down, and the remainder has the sign of the divisor; divisions and remainders by zero are reported,
and nothing else is; and no number on the way to a result overflows. -/
theorem integers_exact (left right : Int64) : ExactOn left right where
  sum := exists_orFloat (Int64.toInt_add left right) _
  difference := exists_orFloat (Int64.toInt_sub left right) _
  product := exists_orFloat (Int64.toInt_mul left right) _
  reported op := by
    refine ⟨fun reports => ?_, onInts_of_byZero⟩
    by_contra other
    obtain ⟨result, performed⟩ := exists_onInts left other
    cases performed.symm.trans reports
  remainder nonzero := by
    obtain ⟨remainder, performed, isRemainder⟩ := mod_onInts left nonzero
    exact ⟨remainder, performed, isRemainder ▸ isModulo_fmod left.toInt (toInt_ne_zero nonzero)⟩
  quotient nonzero notLargest := by
    obtain ⟨quotient, divided, isQuotient⟩ :=
      div_onInts nonzero ((divides_iff nonzero).mpr notLargest)
    obtain ⟨remainder, performed, isRemainder⟩ := mod_onInts left nonzero
    refine ⟨quotient, remainder, divided, performed, ?_, ?_⟩
    · rw [isQuotient, floor_ratio]
    · rw [isQuotient, isRemainder]
      exact Int.fdiv_mul_add_fmod left.toInt right.toInt
  largeQuotient := div_onInts_largest
  negative := negInt_of_ne
  largeNegative := by
    rintro rfl
    rfl
  inRange op overflows := by
    by_cases byZero : right = 0 ∧ (op = .div ∨ op = .mod)
    · cases (onInts_of_byZero byZero).symm.trans overflows
    · obtain ⟨result, performed⟩ := exists_onInts left byZero
      cases performed.symm.trans overflows
  raised op byZero := by
    rw [VM.arithmetic, onInts_of_byZero byZero]
  answered op other := by
    obtain ⟨result, performed⟩ := exists_onInts left other
    refine ⟨result, performed, ?_⟩
    rw [VM.arithmetic, performed]

end ArithOp

end RiteVm

namespace RiteVm

/-- An integer is one of those in a range. -/
def InRange (first last : Int64) (exclusive : Bool) (number : Int64) : Prop :=
  first.toInt ≤ number.toInt ∧
    if exclusive then number.toInt < last.toInt else number.toInt ≤ last.toInt

section Ranges

variable {first last number : Int64} {exclusive : Bool}

/-- A number that comes from an offset between two words is a word. -/
theorem toInt_ofInt_between {exact : Int} (above : first.toInt ≤ exact)
    (below : exact ≤ last.toInt) : (Int64.ofInt exact).toInt = exact :=
  Int64.toInt_ofInt_of_le (first.le_toInt.trans above) (below.trans_lt last.toInt_lt)

/-- The integers from a first one up to a last one, each by its offset. -/
def offsetsBelow (first last : Int64) : List Int64 :=
  (List.range (last.toInt - first.toInt).toNat).map fun (offset : Nat) =>
    Int64.ofInt (first.toInt + offset)

theorem integersBelow_eq (first last : Int64) :
    integersBelow first last = (offsetsBelow first last).map .int := by
  rw [integersBelow, offsetsBelow, List.map_map]
  rfl

theorem toInt_of_offset {offset : Nat} (isOffset : offset < (last.toInt - first.toInt).toNat) :
    (Int64.ofInt (first.toInt + offset)).toInt = first.toInt + offset := by
  have above : first.toInt ≤ first.toInt + offset := by omega
  have below : first.toInt + offset ≤ last.toInt := by omega
  exact toInt_ofInt_between above below

theorem mem_offsetsBelow :
    number ∈ offsetsBelow first last ↔ first.toInt ≤ number.toInt ∧ number.toInt < last.toInt := by
  rw [offsetsBelow, List.mem_map]
  constructor
  · rintro ⟨offset, isOffset, rfl⟩
    rw [List.mem_range] at isOffset
    rw [toInt_of_offset isOffset]
    omega
  · rintro ⟨above, below⟩
    refine ⟨(number.toInt - first.toInt).toNat, List.mem_range.mpr (by omega), ?_⟩
    rw [show first.toInt + ((number.toInt - first.toInt).toNat : Int) = number.toInt by omega,
      Int64.ofInt_toInt]

theorem sorted_offsetsBelow (first last : Int64) :
    (offsetsBelow first last).Pairwise (·.toInt < ·.toInt) := by
  rw [offsetsBelow, List.pairwise_map]
  refine List.pairwise_lt_range.imp_of_mem fun {left right} isLeft isRight less => ?_
  rw [toInt_of_offset (List.mem_range.mp isLeft), toInt_of_offset (List.mem_range.mp isRight)]
  omega

theorem toInt_lt_saturatingSucc :
    number.toInt < (saturatingSucc last).toInt ↔
      number.toInt ≤ last.toInt ∧ number ≠ Int64.maxValue := by
  have largest : Int64.maxValue.toInt = 2 ^ 63 - 1 := rfl
  have isLargest : number = Int64.maxValue ↔ number.toInt = 2 ^ 63 - 1 := by
    rw [← largest, Int64.toInt_inj]
  have bound := number.toInt_lt
  rw [saturatingSucc]
  split
  · next isLast =>
      rw [isLast, largest, ne_eq, isLargest]
      omega
  · next notLast =>
      have notLargest : last.toInt ≠ 2 ^ 63 - 1 := by rwa [← largest, ne_eq, Int64.toInt_inj]
      have lastBound := last.toInt_lt
      have lastLeast := last.le_toInt
      have moved : (last + 1).toInt = last.toInt + 1 := by
        rw [Int64.toInt_add]
        exact Int.bmod_eq_of_le (by simp; omega) (by simp; omega)
      rw [moved, ne_eq, isLargest]
      omega

/-- The end that a splat of a range counts up to. -/
def splatEnd (last : Int64) (exclusive : Bool) : Int64 :=
  if exclusive then last else saturatingSucc last

theorem mem_offsetsBelow_splatEnd :
    number ∈ offsetsBelow first (splatEnd last exclusive) ↔
      InRange first last exclusive number ∧ (exclusive = true ∨ number ≠ Int64.maxValue) := by
  rw [mem_offsetsBelow, InRange, splatEnd]
  cases exclusive with
  | true => simp
  | false => simp [toInt_lt_saturatingSucc, and_assoc]

variable {machine : Machine} {handle : Handle} {object : Object}

theorem Query.splat_of_range (found : machine.heap.get? handle = some object)
    (isRange : object.content = .range ⟨.int first, .int last, exclusive⟩) :
    Query.splat (.object handle) machine =
      .ok ((offsetsBelow first (splatEnd last exclusive)).map .int) := by
  have noItems : Query.array? (.object handle) machine = .ok none := by
    rw [Query.array?, Query.part?_of_found found, Object.array?, isRange]
  have isParts : Query.range? (.object handle) machine =
      .ok (some ⟨.int first, .int last, exclusive⟩) := by
    rw [Query.range?, Query.part?_of_found found, Object.range?, isRange]
  have notNil : ¬(Value.object handle).isNil = true := Bool.false_ne_true
  rw [← integersBelow_eq, Query.splat, if_neg notNil, Query.bind_of_ok noItems]
  dsimp only
  rw [Query.bind_of_ok isParts]
  rfl

/-- A splat of a range of integers lists its integers in increasing order, each once. The largest
integer of 64 bits is left out of a range that includes its last one. -/
theorem Query.splat_lists_range (found : machine.heap.get? handle = some object)
    (isRange : object.content = .range ⟨.int first, .int last, exclusive⟩) :
    ∃ numbers : List Int64, Query.splat (.object handle) machine = .ok (numbers.map .int) ∧
      numbers.Pairwise (·.toInt < ·.toInt) ∧
      ∀ number, number ∈ numbers ↔
        InRange first last exclusive number ∧ (exclusive = true ∨ number ≠ Int64.maxValue) :=
  ⟨_, Query.splat_of_range found isRange, sorted_offsetsBelow _ _,
    fun _ => mem_offsetsBelow_splatEnd⟩

/-- A splat lists all integers of a range exactly if the range does not include the largest one. -/
theorem Query.splat_complete_iff (found : machine.heap.get? handle = some object)
    (isRange : object.content = .range ⟨.int first, .int last, exclusive⟩) :
    (∃ numbers : List Int64, Query.splat (.object handle) machine = .ok (numbers.map .int) ∧
      ∀ number, number ∈ numbers ↔ InRange first last exclusive number) ↔
      (exclusive = true ∨ last ≠ Int64.maxValue) := by
  obtain ⟨numbers, splats, -, isMember⟩ := Query.splat_lists_range found isRange
  constructor
  · rintro ⟨listed, alsoSplats, isComplete⟩
    have same : listed = numbers := by
      have equal := alsoSplats.symm.trans splats
      injection equal with equal
      exact List.map_injective_iff.mpr (fun _ _ same => Value.int.inj same) equal
    by_contra loses
    obtain ⟨inclusive, isLargest⟩ := not_or.mp loses
    obtain rfl := not_not.mp isLargest
    have inRange : InRange first Int64.maxValue exclusive Int64.maxValue := by
      refine ⟨Int.lt_add_one_iff.mp first.toInt_lt, ?_⟩
      rw [if_neg inclusive]
    exact ((isMember _).mp (same ▸ (isComplete _).mpr inRange)).2.elim inclusive (· rfl)
  · intro complete
    refine ⟨numbers, splats, fun number => (isMember number).trans (and_iff_left_of_imp ?_)⟩
    intro inRange
    refine complete.imp_right fun notLargest isLargest => notLargest ?_
    subst isLargest
    have bound := last.toInt_lt
    have largest : Int64.maxValue.toInt = 2 ^ 63 - 1 := rfl
    have atMost : Int64.maxValue.toInt ≤ last.toInt := by
      have isBelow := inRange.2
      split at isBelow <;> omega
    rw [← Int64.toInt_inj]
    omega

end Ranges

end RiteVm
