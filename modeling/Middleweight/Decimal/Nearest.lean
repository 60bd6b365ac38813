/-!
# The double nearest to a decimal

A decimal `m · 10^e` is rounded to the nearest binary64 number in exact natural-number arithmetic; of
two that are equally near, the one with the even last bit is taken. A positive double is `q · 2^e`
with `q < 2^53` and `e ≥ -1074`, and its bits are `(e + 1074) · 2^52 + q`, for normal and subnormal
numbers alike; a `q` that rounds up to `2^53` carries into the exponent by itself.
-/

namespace Middleweight.Decimal

/-- The quotient rounded to the nearest integer, a half to the even neighbour. -/
def roundDiv (num den : Nat) : Nat :=
  let q := num / den
  let r := num % den
  if 2 * r < den then q else if den < 2 * r then q + 1 else q + q % 2

/-- `num / den` in units of `2^e`, as a fraction of natural numbers. -/
def inUnits (num den : Nat) (e : Int) : Nat × Nat :=
  if 0 ≤ e then (num, den * Nat.pow 2 e.toNat) else (num * Nat.pow 2 (-e).toNat, den)

/-- The exponent of the last bit of the double nearest to a positive fraction. -/
def unitExponent (num den : Nat) : Int :=
  let e := max (-1074) ((num.log2 : Int) - den.log2 - 53)
  let (n, d) := inUnits num den e
  if n / d < Nat.pow 2 53 then e else e + 1

/-- The bits of negative zero: the sign, and nothing else. -/
def signBit : Nat := 0x8000000000000000

/-- The bits of positive infinity. -/
def infinityBits : Nat := 0x7FF0000000000000

/-- The bits of the double nearest to a fraction of natural numbers. -/
def nearestBits (num den : Nat) : Nat :=
  if num = 0 then 0
  else
    let e := unitExponent num den
    let (n, d) := inUnits num den e
    min infinityBits ((e + 1074).toNat * Nat.pow 2 52 + roundDiv n d)

/-- The number of decimal digits of a natural number; zero has none. -/
def digitCount (n : Nat) : Nat := if n = 0 then 0 else (Nat.toDigits 10 n).length

/-- The bits of the double nearest to `m · 10^e`. Far out of range the answer needs no arithmetic. -/
def nearestDecimalBits (m : Nat) (e : Int) : Nat :=
  if m = 0 then 0
  else if 400 < e then infinityBits
  else if e + digitCount m < -400 then 0
  else if 0 ≤ e then nearestBits (m * Nat.pow 10 e.toNat) 1
  else nearestBits m (Nat.pow 10 (-e).toNat)

/-- The double nearest to `± m · 10^e`. -/
def toFloat (negative : Bool) (m : Nat) (e : Int) : Float :=
  let bits := nearestDecimalBits m e
  Float.ofBits (UInt64.ofNat (if negative then signBit + bits else bits))

theorem nearestBits_le (num den : Nat) : nearestBits num den ≤ infinityBits := by
  unfold nearestBits
  split
  · exact Nat.zero_le _
  · exact Nat.min_le_left _ _

end Middleweight.Decimal
