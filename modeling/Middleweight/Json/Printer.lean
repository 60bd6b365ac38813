import Middleweight.Json.Basic
import Middleweight.Decimal.Floating

/-!
# Writing JSON

`Json.compress` writes a value on one line without blanks, `Json.pretty` over several lines with two
blanks per level. A float that is not finite has no numeral and is written `null`.
-/

namespace Middleweight.Json

/-- One character inside a string. -/
def escapedChar (c : Char) : List Char :=
  if c = '"' then ['\\', '"']
  else if c = '\\' then ['\\', '\\']
  else if c = '\n' then ['\\', 'n']
  else if c = '\r' then ['\\', 'r']
  else if c = '\t' then ['\\', 't']
  else if c = '\x08' then ['\\', 'b']
  else if c = '\x0c' then ['\\', 'f']
  else if c.toNat < 0x20 then
    ['\\', 'u', '0', '0', if c.toNat < 0x10 then '0' else '1', Nat.digitChar (c.toNat % 16)]
  else [c]

/-- A string between quotes. -/
def stringText (s : String) : String :=
  String.ofList ('"' :: s.toList.flatMap escapedChar ++ ['"'])

/-- A number, a word or a string. -/
def atomText : Json → String
  | bool b => if b then "true" else "false"
  | int n => toString n
  | float x => if x.isFinite then Decimal.scientificText x else "null"
  | string s => stringText s
  | _ => "null"

mutual

/-- Appends a value, on one line without blanks. -/
def compressTo (acc : String) : Json → String
  | array items => compressItems (acc ++ "[") true items ++ "]"
  | object members => compressMembers (acc ++ "\x7b") true members ++ "\x7d"
  | j => acc ++ atomText j

def compressItems (acc : String) (first : Bool) : List Json → String
  | [] => acc
  | j :: rest => compressItems (compressTo (if first then acc else acc ++ ",") j) false rest

def compressMembers (acc : String) (first : Bool) : List (String × Json) → String
  | [] => acc
  | (name, j) :: rest =>
    let acc := (if first then acc else acc ++ ",") ++ stringText name ++ ":"
    compressMembers (compressTo acc j) false rest

end

/-- A value on one line without blanks. -/
def compress (j : Json) : String := compressTo "" j

/-- A line end and the indentation of a level. -/
def lineBreak (level : Nat) : String := "\n" ++ String.ofList (List.replicate (2 * level) ' ')

mutual

/-- Appends a value over several lines, starting at the current column of a level. -/
def prettyTo (level : Nat) (acc : String) : Json → String
  | array [] => acc ++ "[]"
  | array items => prettyItems (level + 1) (acc ++ "[") true items ++ lineBreak level ++ "]"
  | object [] => acc ++ "\x7b\x7d"
  | object members =>
    prettyMembers (level + 1) (acc ++ "\x7b") true members ++ lineBreak level ++ "\x7d"
  | j => acc ++ atomText j

def prettyItems (level : Nat) (acc : String) (first : Bool) : List Json → String
  | [] => acc
  | j :: rest =>
    let acc := (if first then acc else acc ++ ",") ++ lineBreak level
    prettyItems level (prettyTo level acc j) false rest

def prettyMembers (level : Nat) (acc : String) (first : Bool) : List (String × Json) → String
  | [] => acc
  | (name, j) :: rest =>
    let acc := (if first then acc else acc ++ ",") ++ lineBreak level ++ stringText name ++ ": "
    prettyMembers level (prettyTo level acc j) false rest

end

/-- A value over several lines, two blanks per level. -/
def pretty (j : Json) : String := prettyTo 0 "" j

end Middleweight.Json
