import Middleweight.Json.Basic
import Middleweight.Text.Numeral

/-!
# Reading JSON

`Json.parse?` accepts exactly one JSON value with blanks around it. Arrays and objects may be nested
127 deep. A numeral that no finite double is near to is refused, and so are control characters inside
strings, halves of surrogate pairs and trailing commas.

The readers recurse on a budget: every call reads a character or is followed by one that does, so
twice the length of the text is enough.
-/

namespace Middleweight.Json

open Text

/-! ## Blanks, words and hexadecimal digits -/

def isSpace (c : Char) : Bool := c = ' ' || c = '\n' || c = '\r' || c = '\t'

def skipSpace (cs : List Char) : List Char := cs.dropWhile isSpace

/-- Removes a given word from the front of a text. -/
def dropWord? : List Char → List Char → Option (List Char)
  | [], cs => some cs
  | w :: word, c :: cs => if w = c then dropWord? word cs else none
  | _ :: _, [] => none

def hexValue? (c : Char) : Option Nat :=
  let n := c.toNat
  if 0x30 ≤ n ∧ n ≤ 0x39 then some (n - 0x30)
  else if 0x41 ≤ n ∧ n ≤ 0x46 then some (n - 0x41 + 10)
  else if 0x61 ≤ n ∧ n ≤ 0x66 then some (n - 0x61 + 10)
  else none

/-- The value of four hexadecimal digits. -/
def hexQuad? (a b c d : Char) : Option Nat :=
  match hexValue? a, hexValue? b, hexValue? c, hexValue? d with
  | some a, some b, some c, some d => some (((a * 16 + b) * 16 + c) * 16 + d)
  | _, _, _, _ => none

/-! ## Strings -/

/-- The character that a letter after a backslash stands for. -/
def escaped? (c : Char) : Option Char :=
  if c = '"' || c = '\\' || c = '/' then some c
  else if c = 'b' then some '\x08'
  else if c = 'f' then some '\x0c'
  else if c = 'n' then some '\n'
  else if c = 'r' then some '\r'
  else if c = 't' then some '\t'
  else none

/-- The character of a surrogate pair. -/
def joinSurrogates? (high low : Nat) : Option Char :=
  if 0xDC00 ≤ low ∧ low ≤ 0xDFFF then
    some (Char.ofNat (0x10000 + (high - 0xD800) * 0x400 + (low - 0xDC00)))
  else none

/-- The rest of a string, from behind its opening quote to behind its closing one. -/
def readString : List Char → List Char → Option (String × List Char)
  | [], _ => none
  | '"' :: rest, acc => some (String.ofList acc.reverse, rest)
  | '\\' :: 'u' :: a :: b :: c :: d :: '\\' :: 'u' :: e :: f :: g :: h :: rest, acc =>
    match hexQuad? a b c d with
    | none => none
    | some n =>
      if 0xD800 ≤ n ∧ n ≤ 0xDBFF then
        match (hexQuad? e f g h).bind (joinSurrogates? n) with
        | some ch => readString rest (ch :: acc)
        | none => none
      else if 0xDC00 ≤ n ∧ n ≤ 0xDFFF then none
      else readString ('\\' :: 'u' :: e :: f :: g :: h :: rest) (Char.ofNat n :: acc)
  | '\\' :: 'u' :: a :: b :: c :: d :: rest, acc =>
    match hexQuad? a b c d with
    | none => none
    | some n =>
      if 0xD800 ≤ n ∧ n ≤ 0xDFFF then none else readString rest (Char.ofNat n :: acc)
  | '\\' :: c :: rest, acc =>
    match escaped? c with
    | some ch => readString rest (ch :: acc)
    | none => none
  | c :: rest, acc => if c.toNat < 0x20 ∨ c = '\\' then none else readString rest (c :: acc)

/-! ## Numbers -/

/-- The digits in front of a point: a lone zero, or digits that do not start with one. -/
def readWhole? (cs : List Char) : Option (List Char × List Char) :=
  match spanDigits cs with
  | ([], _) => none
  | ('0' :: _ :: _, _) => none
  | (ds, rest) => some (ds, rest)

/-- An integer numeral, as an integer where it fits and `-0` apart. -/
def integral (negative : Bool) (n : Nat) : Json :=
  let value : Int := if negative then -(n : Int) else n
  if (negative && n == 0) || !isIntegral value then float (Decimal.toFloat negative n 0)
  else int value

/-- Refuses infinities. -/
def finite? (x : Float) : Option Json := if x.isFinite then some (float x) else none

/-- A number at the front of a text. -/
def readNumber (cs : List Char) : Option (Json × List Char) :=
  let (negative, cs) :=
    match cs with
    | '-' :: rest => (true, rest)
    | _ => (false, cs)
  match readWhole? cs with
  | none => none
  | some (whole, rest) =>
    let (fraction, afterFraction) := splitFraction rest
    if fraction = [] ∧ rest.head? = some '.' then none
    else
      match readExponent? afterFraction with
      | none => none
      | some (e, after) =>
        let number? :=
          if after.length = rest.length then
            match integral negative (digitsValue whole) with
            | float x => finite? x
            | j => some j
          else
            finite? (Decimal.toFloat negative (digitsValue (whole ++ fraction))
              (e - fraction.length))
        number?.map fun j => (j, after)

/-! ## Values -/

mutual

/-- A value at the front of a text; `room` arrays and objects may still be opened. -/
def readValue : Nat → Nat → List Char → Option (Json × List Char)
  | 0, _, _ => none
  | fuel + 1, room, cs =>
    match skipSpace cs with
    | [] => none
    | '"' :: rest => (readString rest []).map fun (s, rest) => (string s, rest)
    | '[' :: rest =>
      if room ≤ 1 then none
      else
        match skipSpace rest with
        | ']' :: rest => some (array [], rest)
        | rest => (readItems fuel (room - 1) rest).map fun (items, rest) => (array items, rest)
    | '\x7b' :: rest =>
      if room ≤ 1 then none
      else
        match skipSpace rest with
        | '\x7d' :: rest => some (object [], rest)
        | rest => (readMembers fuel (room - 1) rest).map fun (ms, rest) => (object ms, rest)
    | 'n' :: rest => (dropWord? ['u', 'l', 'l'] rest).map fun rest => (null, rest)
    | 't' :: rest => (dropWord? ['r', 'u', 'e'] rest).map fun rest => (bool true, rest)
    | 'f' :: rest => (dropWord? ['a', 'l', 's', 'e'] rest).map fun rest => (bool false, rest)
    | cs => readNumber cs

/-- The items of an array that is not empty, to behind its closing bracket. -/
def readItems : Nat → Nat → List Char → Option (List Json × List Char)
  | 0, _, _ => none
  | fuel + 1, room, cs =>
    match readValue fuel room cs with
    | none => none
    | some (j, rest) =>
      match skipSpace rest with
      | ',' :: rest => (readItems fuel room rest).map fun (items, rest) => (j :: items, rest)
      | ']' :: rest => some ([j], rest)
      | _ => none

/-- The members of an object that is not empty, to behind its closing brace. -/
def readMembers : Nat → Nat → List Char → Option (List (String × Json) × List Char)
  | 0, _, _ => none
  | fuel + 1, room, cs =>
    match skipSpace cs with
    | '"' :: rest =>
      match readString rest [] with
      | none => none
      | some (name, rest) =>
        match skipSpace rest with
        | ':' :: rest =>
          match readValue fuel room rest with
          | none => none
          | some (j, rest) =>
            match skipSpace rest with
            | ',' :: rest =>
              (readMembers fuel room rest).map fun (ms, rest) => ((name, j) :: ms, rest)
            | '\x7d' :: rest => some ([(name, j)], rest)
            | _ => none
        | _ => none
    | _ => none

end

/-- Reads a text that holds exactly one value, in which less than `room` levels are nested. -/
def parseWithin? (room : Nat) (text : String) : Option Json :=
  let cs := text.toList
  match readValue (2 * cs.length + 2) room cs with
  | some (j, rest) => if skipSpace rest = [] then some j else none
  | none => none

/-- How deep arrays and objects may be nested in a file, plus one. -/
def nestingLimit : Nat := 128

/-- Reads a text that holds exactly one value of bounded depth. -/
def parse? (text : String) : Option Json := parseWithin? nestingLimit text

end Middleweight.Json
