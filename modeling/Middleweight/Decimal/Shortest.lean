import Middleweight.Decimal.Nearest

/-!
# The fewest digits that read back

A positive double `m · 2^q` is written with the shortest decimal that rounds to it. The decimals that
round to it form an interval around it, whose ends belong to it exactly when `m` is even. For one,
two, … digits the two neighbours of the value on that decimal grid are tried; the first grid with a
hit wins, of two hits the nearer, and of two equally near the upper one.

Seventeen digits always suffice, so the search counts down from there.
-/

namespace Middleweight.Decimal

/-- A positive decimal `digits · 10^exponent`. -/
structure Digits where
  digits : Nat
  exponent : Int
deriving DecidableEq, Inhabited

/-- The decoded magnitude of a finite double: `significand · 2^exponent`. -/
structure Magnitude where
  significand : Nat
  exponent : Int
deriving DecidableEq, Inhabited

/-- Reads significand and exponent off the bits of a finite double, the sign left out. -/
def Magnitude.ofBits (bits : Nat) : Magnitude :=
  let fraction : Nat := bits % Nat.pow 2 52
  let biased : Nat := bits / Nat.pow 2 52 % Nat.pow 2 11
  if biased = 0 then ⟨fraction, -1074⟩ else ⟨fraction + Nat.pow 2 52, (biased : Int) - 1075⟩

/--
The interval of reals that round to a magnitude, over one denominator: the lower end, the value
itself and the upper end. Below a power of two the neighbours are twice as dense.
-/
structure Interval where
  low : Nat
  value : Nat
  high : Nat
  den : Nat
  closed : Bool

/-- The interval of reals that round to a magnitude. -/
def Magnitude.interval (x : Magnitude) : Interval :=
  let below := if x.significand = Nat.pow 2 52 ∧ -1074 < x.exponent then 1 else 2
  let up := (x.exponent - 2).toNat
  let down := (2 - x.exponent).toNat
  { low := (4 * x.significand - below) * Nat.pow 2 up
    value := 4 * x.significand * Nat.pow 2 up
    high := (4 * x.significand + 2) * Nat.pow 2 up
    den := Nat.pow 2 down
    closed := x.significand % 2 = 0 }

/-- Whether `c · 10^s` lies in the interval. -/
def Interval.contains (i : Interval) (c : Nat) (s : Int) : Bool :=
  let point := c * Nat.pow 10 s.toNat * i.den
  let scale := Nat.pow 10 (-s).toNat
  if i.closed then i.low * scale ≤ point && point ≤ i.high * scale
  else i.low * scale < point && point < i.high * scale

/-- How many zeros follow the point before the first digit of a fraction below one. -/
def leadingZeros (den : Nat) : Nat → Nat → Nat
  | 0, _ => 0
  | fuel + 1, num => if den ≤ num * 10 then 0 else leadingZeros den fuel (num * 10) + 1

/-- The `p` with `10^(p-1) ≤ value < 10^p`. -/
def Interval.scale (i : Interval) : Int :=
  if i.den ≤ i.value then (digitCount (i.value / i.den) : Int)
  else -(leadingZeros i.den 400 i.value : Int)

/-- The point of the grid `10^s` in the interval that is nearest to the value, the upper of two. -/
def Interval.hit? (i : Interval) (s : Int) : Option Nat :=
  let num := i.value * Nat.pow 10 (-s).toNat
  let den := i.den * Nat.pow 10 s.toNat
  let floor := num / den
  match i.contains floor s, i.contains (floor + 1) s with
  | false, false => none
  | true, false => some floor
  | false, true => some (floor + 1)
  | true, true => if 2 * (num % den) < den then some floor else some (floor + 1)

/-- Tries grids from coarse to fine; `fuel` grids remain. -/
def Interval.search (i : Interval) : Nat → Int → Digits
  | 0, s => ⟨i.value * Nat.pow 10 (-s).toNat / (i.den * Nat.pow 10 s.toNat), s⟩
  | fuel + 1, s =>
    match i.hit? s with
    | some c => ⟨c, s⟩
    | none => i.search fuel (s - 1)

/-- Moves the zeros at the end of the digits into the exponent. -/
def Digits.strip : Nat → Digits → Digits
  | 0, d => d
  | fuel + 1, d =>
    if d.digits % 10 = 0 ∧ d.digits ≠ 0 then strip fuel ⟨d.digits / 10, d.exponent + 1⟩ else d

/-- The shortest decimal that rounds to a positive magnitude. -/
def Magnitude.shortest (x : Magnitude) : Digits :=
  let i := x.interval
  (i.search 17 (i.scale - 1)).strip 20

/-- The shortest decimal that rounds to the magnitude of a finite double other than zero. -/
def shortest (x : Float) : Digits := (Magnitude.ofBits x.toBits.toNat).shortest

end Middleweight.Decimal
