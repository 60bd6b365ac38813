import Middleweight.Decimal.Nearest

/-!
# Numerals

Reading of integers and floating-point numbers. A sign may stand in front of either. A float has
digits on at least one side of its point and an optional exponent, or is one of the words `inf`,
`infinity` and `nan` in any case.
-/

namespace Middleweight.Text

/-- Decimal digits at the front of a text, and what follows them. -/
def spanDigits (cs : List Char) : List Char × List Char :=
  (cs.takeWhile Char.isDigit, cs.dropWhile Char.isDigit)

/-- The number that some decimal digits write. -/
def digitsValue (ds : List Char) : Nat :=
  ds.foldl (fun n c => 10 * n + (c.toNat - '0'.toNat)) 0

/-- Splits off an optional sign; the flag tells a minus. -/
def splitSign : List Char → Bool × List Char
  | '-' :: rest => (true, rest)
  | '+' :: rest => (false, rest)
  | cs => (false, cs)

/-- An integer with an optional sign. -/
def readInteger? (cs : List Char) : Option Int :=
  let (negative, ds) := splitSign cs
  if ds ≠ [] ∧ ds.all Char.isDigit then
    let n : Int := digitsValue ds
    some (if negative then -n else n)
  else none

/-- Whether an integer fits into 64 bits with a sign. -/
def fitsInt64 (n : Int) : Bool := Int64.minValue.toInt ≤ n && n ≤ Int64.maxValue.toInt

/-- A 64-bit integer with an optional sign. -/
def readInt64? (cs : List Char) : Option Int64 :=
  match readInteger? cs with
  | some n => if fitsInt64 n then some (Int64.ofInt n) else none
  | none => none

/-- An optional exponent at the front of a text: its value, and what follows it. -/
def readExponent? : List Char → Option (Int × List Char)
  | [] => some (0, [])
  | c :: rest =>
    if c = 'e' ∨ c = 'E' then
      let (negative, rest) := splitSign rest
      let (ds, rest) := spanDigits rest
      if ds = [] then none
      else
        let n : Int := digitsValue ds
        some (if negative then -n else n, rest)
    else some (0, c :: rest)

/-- An optional fraction at the front of a text: its digits, and what follows it. -/
def splitFraction : List Char → List Char × List Char
  | '.' :: rest => spanDigits rest
  | cs => ([], cs)

/-- The float that an unsigned decimal numeral writes. -/
def readDecimal? (negative : Bool) (cs : List Char) : Option Float :=
  let (whole, rest) := spanDigits cs
  let (fraction, rest) := splitFraction rest
  if whole = [] ∧ fraction = [] then none
  else
    match readExponent? rest with
    | some (e, []) =>
      some (Decimal.toFloat negative (digitsValue (whole ++ fraction)) (e - fraction.length))
    | _ => none

/-- The bits of a number that is not a number. -/
def nanBits : UInt64 := 0x7FF8000000000000

/-- A float with an optional sign. -/
def readFloat? (cs : List Char) : Option Float :=
  let (negative, body) := splitSign cs
  match String.ofList (body.map Char.toLower) with
  | "inf" | "infinity" =>
    some (Float.ofBits (UInt64.ofNat (Decimal.infinityBits + if negative then Decimal.signBit else 0)))
  | "nan" => some (Float.ofBits nanBits)
  | _ => readDecimal? negative body

end Middleweight.Text
