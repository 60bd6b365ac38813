import Middleweight.Decimal.Shortest

/-!
# The text of a floating-point number

`floatText` is the text the language gives a float: an integer of magnitude below `10^16` has one
fractional zero, every other finite number has the fewest digits that read back, and no number is
written with an exponent. `scientificText` is the text of a float in a data file, where large and
small magnitudes have an exponent.
-/

namespace Middleweight.Decimal

/-- The sign bit of a double. -/
def isNegative (x : Float) : Bool := x.toBits.toNat / signBit = 1

/-- The sign a number is written with. -/
def signText (x : Float) : String := if isNegative x then "-" else ""

/-- `n` zeros. -/
def zeros (n : Nat) : String := String.ofList (List.replicate n '0')

/-- Digits with a point in front of the last `n` of them, padded with zeros on the left. -/
def pointed (digits : List Char) (n : Nat) : String :=
  let padded := List.replicate (n + 1 - digits.length) '0' ++ digits
  String.ofList (padded.take (padded.length - n)) ++ "." ++
    String.ofList (padded.drop (padded.length - n))

/-- A decimal written out in full, without an exponent. -/
def Digits.positional (d : Digits) : String :=
  if 0 ≤ d.exponent then toString d.digits ++ zeros d.exponent.toNat
  else pointed (Nat.toDigits 10 d.digits) (-d.exponent).toNat

/-- The value of a magnitude when it is an integer. -/
def Magnitude.toNat? (x : Magnitude) : Option Nat :=
  if 0 ≤ x.exponent then some (x.significand * Nat.pow 2 x.exponent.toNat)
  else
    let unit := Nat.pow 2 (-x.exponent).toNat
    if x.significand % unit = 0 then some (x.significand / unit) else none

/-- The text of a finite magnitude in the language. -/
def Magnitude.text (x : Magnitude) : String :=
  match x.toNat? with
  | some n => if n < Nat.pow 10 16 then toString n ++ ".0" else x.shortest.positional
  | none => x.shortest.positional

/-- The text of a float in the language. -/
def floatText (x : Float) : String :=
  if x.isNaN then "NaN"
  else if x.isInf then signText x ++ "inf"
  else signText x ++ (Magnitude.ofBits x.toBits.toNat).text

/--
The text of a positive decimal in a data file: positional while the point stands within the first
sixteen digits or at most five places before them, otherwise with an exponent.
-/
def Digits.scientific (d : Digits) : String :=
  let digits := Nat.toDigits 10 d.digits
  let point := d.exponent + digits.length
  if 0 ≤ d.exponent ∧ point ≤ 16 then toString d.digits ++ zeros d.exponent.toNat ++ ".0"
  else if -5 < point ∧ point ≤ 16 then pointed digits (-d.exponent).toNat
  else
    let tail := if digits.length ≤ 1 then "" else "." ++ String.ofList digits.tail
    String.ofList (digits.take 1) ++ tail ++ "e" ++ toString (point - 1)

/-- The text of a finite float in a data file. -/
def scientificText (x : Float) : String :=
  if x == 0.0 then signText x ++ "0.0" else signText x ++ (shortest x).scientific

end Middleweight.Decimal
