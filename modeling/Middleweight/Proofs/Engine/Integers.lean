import Mathlib.Algebra.Order.Field.Basic
import Mathlib.Data.Rat.Floor
import Mathlib.Tactic.Linarith
import Middleweight.Engine.Operators

/-!
# Integers are exact up to wrapping

Arithmetic on integers gives the exact result, reduced to 64 bits. Division starts from the quotient
that is rounded to zero, and corrects it where that is not the floor: where the remainder is not
zero and the signs of the operands differ. Then the divisor is neither 1 nor -1, so that the
quotient is far from the least integer and the correction cannot leave the 64 bits; the remainder
and the divisor have different signs, so that their sum lies between them.

* `IsFloored.floor_eq` : a quotient whose remainder has the sign of the divisor is the floor
* `isFloored_floorDiv` : quotients and remainders of integers
* `toInt_shiftRight`, `shiftLeft_eq`, `logicalShiftRight_eq` : shifts
* `integers_exact` : all arithmetic operators
-/

namespace Middleweight

/-! ## Quotients that are rounded to the floor -/

/-- A quotient with its remainder, which is smaller than the divisor and has its sign. -/
structure IsFloored (n d q r : Int) : Prop where
  eq : n = q * d + r
  bounds : 0 ≤ r ∧ r < d ∨ d < r ∧ r ≤ 0

namespace IsFloored

variable {n d q r : Int}

/-- The quotient is the floor of the exact quotient. -/
theorem floor_eq (h : IsFloored n d q r) : ⌊(n : ℚ) / d⌋ = q := by
  have hn : (n : ℚ) = q * d + r := by exact_mod_cast h.eq
  rw [Int.floor_eq_iff]
  rcases h.bounds with ⟨hr, hlt⟩ | ⟨hlt, hr⟩
  · have hd : (0 : ℚ) < d := by exact_mod_cast lt_of_le_of_lt hr hlt
    have hr : (0 : ℚ) ≤ r := by exact_mod_cast hr
    have hlt : (r : ℚ) < d := by exact_mod_cast hlt
    rw [le_div_iff₀ hd, div_lt_iff₀ hd]
    constructor <;> linarith
  · have hd : (d : ℚ) < 0 := by exact_mod_cast lt_of_lt_of_le hlt hr
    have hr : (r : ℚ) ≤ 0 := by exact_mod_cast hr
    have hlt : (d : ℚ) < r := by exact_mod_cast hlt
    rw [le_div_iff_of_neg hd, div_lt_iff_of_neg hd]
    constructor <;> linarith

theorem remainder_eq (h : IsFloored n d q r) : r = n - d * ⌊(n : ℚ) / d⌋ := by
  rw [h.floor_eq, Int.mul_comm, h.eq]
  omega

/-- The remainder is smaller in size than the divisor. -/
theorem natAbs_lt (h : IsFloored n d q r) : r.natAbs < d.natAbs := by
  have := h.bounds
  omega

/-- A remainder other than zero has the sign of the divisor. -/
theorem sign_eq (h : IsFloored n d q r) : r = 0 ∨ r.sign = d.sign := by
  rcases h.bounds with ⟨hr, hlt⟩ | ⟨hlt, hr⟩
  · rcases hr.eq_or_lt with hr | hr
    · exact .inl hr.symm
    · rw [Int.sign_eq_one_of_pos hr, Int.sign_eq_one_of_pos (hr.trans hlt)]
      exact .inr rfl
  · rcases hr.eq_or_lt with hr | hr
    · exact .inl hr
    · rw [Int.sign_eq_neg_one_of_neg hr, Int.sign_eq_neg_one_of_neg (hlt.trans hr)]
      exact .inr rfl

end IsFloored

/-! ## Quotients that are rounded to zero -/

/-- The remainder of a quotient that is rounded to zero has the sign of the dividend. -/
theorem sign_tmod (n d : Int) : (0 ≤ n → 0 ≤ n.tmod d) ∧ (n ≤ 0 → n.tmod d ≤ 0) := by
  refine ⟨fun h => Int.tmod_nonneg d h, fun h => ?_⟩
  have hneg := Int.tmod_nonneg d (Int.neg_nonneg_of_nonpos h)
  rw [Int.neg_tmod] at hneg
  omega

/-- The truncated remainder is smaller in size than the divisor. -/
theorem natAbs_tmod_lt (n : Int) {d : Int} (hd : d ≠ 0) : (n.tmod d).natAbs < d.natAbs := by
  rw [Int.natAbs_tmod]
  exact Nat.mod_lt _ (Int.natAbs_pos.mpr hd)

/-- Where there is a remainder, the quotient is at most half of the dividend. -/
theorem natAbs_tdiv_le {n d : Int} (hd : d ≠ 0) (hr : n.tmod d ≠ 0) :
    (n.tdiv d).natAbs ≤ n.natAbs / 2 := by
  have hone : d.natAbs ≠ 1 := by
    intro h
    rw [← Int.natAbs_ne_zero, Int.natAbs_tmod, h, Nat.mod_one] at hr
    exact hr rfl
  rw [Int.natAbs_tdiv]
  exact Nat.div_le_div_left (by omega) (by decide)

/-- Where the signs differ, the quotient that is rounded to zero is one more than the floor. -/
theorem isFloored_of_signs_differ {n d : Int} (hd : d ≠ 0) (hr : n.tmod d ≠ 0)
    (hsigns : ¬(n < 0 ↔ d < 0)) : IsFloored n d (n.tdiv d - 1) (n.tmod d + d) := by
  have heq := Int.tdiv_mul_add_tmod n d
  have hsign := sign_tmod n d
  have hlt := natAbs_tmod_lt n hd
  refine ⟨?_, by omega⟩
  rw [Int.sub_mul]
  omega

/-- Where there is no remainder or the signs agree, it is the floor. -/
theorem isFloored_of_signs_agree {n d : Int} (hd : d ≠ 0)
    (h : n.tmod d = 0 ∨ (n < 0 ↔ d < 0)) : IsFloored n d (n.tdiv d) (n.tmod d) := by
  have hsign := sign_tmod n d
  have hlt := natAbs_tmod_lt n hd
  exact ⟨(Int.tdiv_mul_add_tmod n d).symm, by omega⟩

/-! ## Integers of 64 bits -/

/-- Whether 64 bits can hold an integer. -/
def IsInt64 (n : Int) : Prop := -2 ^ 63 ≤ n ∧ n < 2 ^ 63

/-- Whether the quotient that is rounded to zero has to be corrected. -/
def RoundsUp (a b : Int64) : Prop := a % b ≠ 0 ∧ decide (a < 0) ≠ decide (b < 0)

instance (a b : Int64) : Decidable (RoundsUp a b) := inferInstanceAs (Decidable (_ ∧ _))

variable {a b : Int64}

/-- What an integer of 64 bits stands for is in range. -/
theorem isInt64_toInt (a : Int64) : IsInt64 a.toInt := ⟨a.le_toInt, a.toInt_lt⟩

theorem IsInt64.toInt_ofInt {n : Int} (h : IsInt64 n) : (Int64.ofInt n).toInt = n :=
  Int64.toInt_ofInt_of_le h.1 h.2

theorem toInt_ne_zero (hb : b ≠ 0) : b.toInt ≠ 0 := fun h => hb (Int64.toInt_inj.mp h)

/-- Division of 64 bits is that of the integers, truncated, and wraps where it leaves the range. -/
theorem div_eq_ofInt (a b : Int64) : a / b = .ofInt (a.toInt.tdiv b.toInt) := by
  rw [eq_comm, Int64.ofInt_eq_iff_bmod_eq_toInt, Int64.toInt_div]

theorem mod_ne_zero_iff : a % b ≠ 0 ↔ a.toInt.tmod b.toInt ≠ 0 := by
  rw [← Int64.toInt_mod, Ne, ← Int64.toInt_inj]
  rfl

/-- Comparing signs of 64 bits is comparing those of the integers. -/
theorem signs_ne_iff (a b : Int64) :
    decide (a < 0) ≠ decide (b < 0) ↔ ¬(a.toInt < 0 ↔ b.toInt < 0) := by
  rw [Ne, decide_eq_decide, Int64.lt_iff_toInt_lt, Int64.lt_iff_toInt_lt]
  rfl

theorem roundsUp_iff : RoundsUp a b ↔
    a.toInt.tmod b.toInt ≠ 0 ∧ ¬(a.toInt < 0 ↔ b.toInt < 0) := by
  rw [RoundsUp, mod_ne_zero_iff, signs_ne_iff]

/-- The sign of the remainder tells as well as that of the dividend whether to correct. -/
theorem roundsUp_iff_remainder (a b : Int64) :
    a % b ≠ 0 ∧ decide (a % b < 0) ≠ decide (b < 0) ↔ RoundsUp a b := by
  rw [roundsUp_iff, mod_ne_zero_iff, signs_ne_iff, Int64.toInt_mod]
  have hsign := sign_tmod a.toInt b.toInt
  constructor <;> rintro ⟨hr, hsigns⟩ <;> exact ⟨hr, by omega⟩

theorem floorDiv_eq (a b : Int64) : floorDiv a b = if RoundsUp a b then a / b - 1 else a / b := rfl

theorem floorRem_eq (a b : Int64) : floorRem a b = if RoundsUp a b then a % b + b else a % b :=
  if_congr (roundsUp_iff_remainder a b) rfl rfl

/-- Correcting a quotient does not leave the 64 bits. -/
theorem RoundsUp.isInt64_quotient (h : RoundsUp a b) (hb : b ≠ 0) :
    IsInt64 ((a / b).toInt - 1) := by
  have ha := isInt64_toInt a
  have hhalf := natAbs_tdiv_le (toInt_ne_zero hb) (roundsUp_iff.mp h).1
  unfold IsInt64 at *
  rw [div_eq_ofInt, Int64.toInt_ofInt_of_le (by omega) (by omega)]
  omega

/-- Correcting a remainder does not leave the 64 bits. -/
theorem RoundsUp.isInt64_remainder (h : RoundsUp a b) : IsInt64 ((a % b).toInt + b.toInt) := by
  have hr := isInt64_toInt (a % b)
  have hd := isInt64_toInt b
  have hsigns := (signs_ne_iff _ _).mp ((roundsUp_iff_remainder a b).mpr h).2
  unfold IsInt64 at *
  omega

/-- The quotient is the floor, up to wrapping, and the remainder is what is left. -/
theorem isFloored_floorDiv (a : Int64) (hb : b ≠ 0) : ∃ q,
    IsFloored a.toInt b.toInt q (floorRem a b).toInt ∧ floorDiv a b = .ofInt q := by
  have hd := toInt_ne_zero hb
  rw [floorDiv_eq, floorRem_eq]
  by_cases h : RoundsUp a b
  · obtain ⟨hr, hsigns⟩ := roundsUp_iff.mp h
    refine ⟨a.toInt.tdiv b.toInt - 1, ?_, ?_⟩
    · rw [if_pos h, Int64.toInt_add, ← Int64.toInt_ofInt, h.isInt64_remainder.toInt_ofInt,
        Int64.toInt_mod]
      exact isFloored_of_signs_differ hd hr hsigns
    · rw [if_pos h, div_eq_ofInt, Int64.ofInt_sub]
      rfl
  · refine ⟨a.toInt.tdiv b.toInt, ?_, ?_⟩
    · rw [if_neg h, Int64.toInt_mod]
      rw [roundsUp_iff, not_and_or, not_not, not_not] at h
      exact isFloored_of_signs_agree hd h
    · rw [if_neg h, div_eq_ofInt]

/-! ## Shifts -/

/-- The word of an integer, read without a sign. -/
theorem toNat_toBitVec (a : Int64) : (a.toBitVec.toNat : Int) = a.toInt % 2 ^ 64 := by
  rw [← Int64.toInt_toBitVec, BitVec.toInt_eq_toNat_cond]
  split <;> omega

/-- The low six bits of an integer are what is left when it is divided by 64. -/
theorem toNat_lowBits (b : Int64) : (b.toBitVec &&& 63).toNat = (b.toInt % 64).toNat := by
  have hand : (b.toBitVec &&& 63).toNat = b.toBitVec.toNat % 64 := by
    rw [BitVec.toNat_and]
    exact Nat.and_two_pow_sub_one_eq_mod _ 6
  have hword := toNat_toBitVec b
  rw [hand]
  omega

theorem toNat_shiftDistance (b : Int64) :
    ((b &&& 63).toBitVec.smod 64).toNat = (b.toInt % 64).toNat := by
  have hmsb : (b.toBitVec &&& 63).msb = false := by
    rw [BitVec.msb_eq_false_iff_two_mul_lt, toNat_lowBits]
    omega
  have hsmod : (b.toBitVec &&& 63).smod 64 = (b.toBitVec &&& 63).umod 64 := by
    rw [BitVec.smod_eq, hmsb]
    rfl
  rw [Int64.toBitVec_and, show (63 : Int64).toBitVec = 63 from rfl, hsmod, BitVec.umod_eq,
    BitVec.toNat_umod, toNat_lowBits]
  show (b.toInt % 64).toNat % 64 = _
  omega

/-- Shifting right is dividing by a power of two and rounding to the floor. -/
theorem floor_div_two_pow (n : Int) (d : Nat) : ⌊(n : ℚ) / 2 ^ d⌋ = n / 2 ^ d := by
  exact_mod_cast Rat.floor_intCast_div_natCast n (2 ^ d)

/-- A shift to the left multiplies by a power of two and wraps. -/
theorem shiftLeft_eq (a b : Int64) :
    a <<< (b &&& 63) = .ofInt (a.toInt * 2 ^ (b.toInt % 64).toNat) := by
  rw [← Int64.toBitVec_inj, Int64.toBitVec_shiftLeft, Int64.toBitVec_ofInt, BitVec.shiftLeft_eq',
    toNat_shiftDistance, BitVec.shiftLeft_eq_mul_twoPow, BitVec.ofInt_mul,
    ← Int64.toInt_toBitVec a, BitVec.ofInt_toInt]
  congr 1
  refine BitVec.eq_of_toNat_eq ?_
  rw [BitVec.toNat_twoPow, BitVec.toNat_ofInt]
  norm_cast

/--
An arithmetic shift to the right is the exact quotient by a power of two, rounded to the floor.
-/
theorem toInt_shiftRight (a b : Int64) :
    (a >>> (b &&& 63)).toInt = ⌊(a.toInt : ℚ) / 2 ^ (b.toInt % 64).toNat⌋ := by
  rw [floor_div_two_pow, ← Int64.toInt_toBitVec, Int64.toBitVec_shiftRight, BitVec.sshiftRight_eq',
    BitVec.toInt_sshiftRight, toNat_shiftDistance, Int.shiftRight_eq_div_pow, Int64.toInt_toBitVec]
  norm_cast

/-- A logical shift to the right reads the bits as an unsigned number first. -/
theorem logicalShiftRight_eq (a b : Int64) : logicalShiftRight a b =
    .ofInt ⌊((a.toInt % 2 ^ 64 : Int) : ℚ) / 2 ^ (b.toInt % 64).toNat⌋ := by
  have hdistance : (b.toBitVec &&& 63) % 64 = b.toBitVec &&& 63 := by
    refine BitVec.eq_of_toNat_eq ?_
    rw [BitVec.toNat_umod, toNat_lowBits]
    show (b.toInt % 64).toNat % 64 = _
    omega
  have hshift : (logicalShiftRight a b).toBitVec = a.toBitVec >>> (b.toInt % 64).toNat := by
    rw [← toNat_lowBits, ← hdistance]
    rfl
  rw [floor_div_two_pow, ← Int64.toBitVec_inj, Int64.toBitVec_ofInt, hshift, ← toNat_toBitVec]
  refine BitVec.eq_of_toNat_eq ?_
  rw [BitVec.toNat_ushiftRight, Nat.shiftRight_eq_div_pow]
  norm_cast
  rw [BitVec.ofInt_natCast, BitVec.toNat_ofNat,
    Nat.mod_eq_of_lt ((Nat.div_le_self _ _).trans_lt a.toBitVec.isLt)]

/-! ## Operators -/

variable {F : Type}

/-- An operator on two integers gives an integer, reduced to 64 bits. -/
def BinaryOp.Wraps (F : Type) (op : BinaryOp) (a b : Int64) (n : Int) : Prop :=
  op.apply (.int a : Value F) (.int b) = .ok (.int (.ofInt n))

namespace BinaryOp

theorem apply_div (a b : Int64) : div.apply (.int a : Value F) (.int b) =
    if b = 0 then .error .divisionByZero else .ok (.int (floorDiv a b)) := rfl

theorem apply_rem (a b : Int64) : rem.apply (.int a : Value F) (.int b) =
    if b = 0 then .error .divisionByZero else .ok (.int (floorRem a b)) := rfl

/-- The remainder of a division, as an operator gives it. -/
theorem exists_rem (F : Type) (a : Int64) (hb : b ≠ 0) :
    ∃ r, rem.apply (.int a : Value F) (.int b) = .ok (.int r) ∧
      r.toInt = a.toInt - b.toInt * ⌊(a.toInt : ℚ) / b.toInt⌋ ∧
      (r.toInt = 0 ∨ r.toInt.sign = b.toInt.sign) ∧ r.toInt.natAbs < b.toInt.natAbs ∧
      a = .ofInt ⌊(a.toInt : ℚ) / b.toInt⌋ * b + r := by
  obtain ⟨q, hq, -⟩ := isFloored_floorDiv a hb
  refine ⟨floorRem a b, ?_, hq.remainder_eq, hq.sign_eq, hq.natAbs_lt, ?_⟩
  · rw [apply_rem, if_neg hb]
  · calc a = .ofInt (q * b.toInt + (floorRem a b).toInt) := by rw [← hq.eq, Int64.ofInt_toInt]
      _ = .ofInt q * b + floorRem a b := by
        rw [Int64.ofInt_add, Int64.ofInt_mul, Int64.ofInt_toInt, Int64.ofInt_toInt]
      _ = _ := by rw [hq.floor_eq]

end BinaryOp

/--
Sums, differences, products and negations are exact, reduced to 64 bits. Nothing is divided by zero.
A quotient is the floor of the exact one, reduced to 64 bits; a remainder is exact, is zero or has
the sign of the divisor, and is smaller than it; the two give the dividend back; and the steps that
correct them stay within 64 bits. A shift by the low six bits of its distance multiplies by a power
of two or divides by it, rounding to the floor; one that fills with zeros reads its operand without
a sign.
-/
theorem integers_exact (F : Type) (a b : Int64) :
    (BinaryOp.add.Wraps F a b (a.toInt + b.toInt) ∧ BinaryOp.sub.Wraps F a b (a.toInt - b.toInt) ∧
      BinaryOp.mul.Wraps F a b (a.toInt * b.toInt) ∧
      UnaryOp.minus.apply (.int a : Value F) = .ok (.int (.ofInt (-a.toInt)))) ∧
    (b = 0 → BinaryOp.div.apply (.int a : Value F) (.int b) = .error .divisionByZero ∧
      BinaryOp.rem.apply (.int a : Value F) (.int b) = .error .divisionByZero) ∧
    (b ≠ 0 → BinaryOp.div.Wraps F a b ⌊(a.toInt : ℚ) / b.toInt⌋ ∧
      (∃ r, BinaryOp.rem.apply (.int a : Value F) (.int b) = .ok (.int r) ∧
        r.toInt = a.toInt - b.toInt * ⌊(a.toInt : ℚ) / b.toInt⌋ ∧
        (r.toInt = 0 ∨ r.toInt.sign = b.toInt.sign) ∧ r.toInt.natAbs < b.toInt.natAbs ∧
        a = .ofInt ⌊(a.toInt : ℚ) / b.toInt⌋ * b + r) ∧
      (a % b ≠ 0 ∧ decide (a < 0) ≠ decide (b < 0) → IsInt64 ((a / b).toInt - 1)) ∧
      (a % b ≠ 0 ∧ decide (a % b < 0) ≠ decide (b < 0) → IsInt64 ((a % b).toInt + b.toInt))) ∧
    ∃ d : Nat, d < 64 ∧ (d : Int) = b.toInt % 64 ∧ BinaryOp.shl.Wraps F a b (a.toInt * 2 ^ d) ∧
      (∃ r, BinaryOp.shr.apply (.int a : Value F) (.int b) = .ok (.int r) ∧
        r.toInt = ⌊(a.toInt : ℚ) / 2 ^ d⌋) ∧
      BinaryOp.ushr.Wraps F a b ⌊((a.toInt % 2 ^ 64 : Int) : ℚ) / 2 ^ d⌋ := by
  refine ⟨⟨?_, ?_, ?_, ?_⟩, fun hb => ⟨?_, ?_⟩, fun hb => ⟨?_, BinaryOp.exists_rem F a hb,
    fun h => RoundsUp.isInt64_quotient h hb,
    fun h => ((roundsUp_iff_remainder a b).mp h).isInt64_remainder⟩,
    (b.toInt % 64).toNat, by omega, by omega, ?_, ⟨_, rfl, toInt_shiftRight a b⟩, ?_⟩
  · rw [BinaryOp.Wraps, Int64.ofInt_add, Int64.ofInt_toInt, Int64.ofInt_toInt]
    rfl
  · rw [BinaryOp.Wraps, Int64.ofInt_sub, Int64.ofInt_toInt, Int64.ofInt_toInt]
    rfl
  · rw [BinaryOp.Wraps, Int64.ofInt_mul, Int64.ofInt_toInt, Int64.ofInt_toInt]
    rfl
  · rw [Int64.ofInt_neg, Int64.ofInt_toInt]
    rfl
  · rw [BinaryOp.apply_div, if_pos hb]
  · rw [BinaryOp.apply_rem, if_pos hb]
  · obtain ⟨q, hq, hdiv⟩ := isFloored_floorDiv a hb
    rw [BinaryOp.Wraps, BinaryOp.apply_div, if_neg hb, hdiv, hq.floor_eq]
  · rw [BinaryOp.Wraps, ← shiftLeft_eq]
    rfl
  · rw [BinaryOp.Wraps, ← logicalShiftRight_eq]
    rfl

/-- The quotient of -7 and 2 is corrected, and that of the least integer and -1 wraps around. -/
theorem integers_exact_corrected :
    (floorDiv (-7) 2 = -4 ∧ floorRem (-7) 2 = 1 ∧
      BinaryOp.div.Wraps Unit (-7) 2 ⌊((-7 : Int64).toInt : ℚ) / (2 : Int64).toInt⌋ ∧
      IsInt64 ((-7 / 2 : Int64).toInt - 1) ∧
      IsInt64 ((-7 % 2 : Int64).toInt + (2 : Int64).toInt)) ∧
    (floorDiv Int64.minValue (-1) = Int64.minValue ∧
      BinaryOp.div.Wraps Unit Int64.minValue (-1)
        ⌊(Int64.minValue.toInt : ℚ) / (-1 : Int64).toInt⌋) ∧
    BinaryOp.rem.apply (.int 5 : Value Unit) (.int 0) = .error .divisionByZero := by
  obtain ⟨hdiv, -, hquotient, hremainder⟩ := (integers_exact Unit (-7) 2).2.2.1 (by decide)
  have hleast := (integers_exact Unit Int64.minValue (-1)).2.2.1 (by decide)
  exact ⟨⟨by decide, by decide, hdiv, hquotient (by decide), hremainder (by decide)⟩,
    ⟨by decide, hleast.1⟩, ((integers_exact Unit 5 0).2.1 rfl).2⟩

end Middleweight
