import Middleweight.Decimal.Nearest

/-!
# JSON values

Objects keep their members in the order they were written, repeated names included, so that a reader
can refuse a repeated name. Numbers are integers or floats: a numeral without point and exponent is an
integer while it fits into 64 bits.
-/

namespace Middleweight

/-- A JSON value. -/
inductive Json where
  | null
  | bool (b : Bool)
  | int (n : Int)
  | float (x : Float)
  | string (s : String)
  | array (items : List Json)
  | object (members : List (String × Json))
deriving Inhabited

namespace Json

/-- The integers a numeral can stand for; any other is read as a float. -/
def isIntegral (n : Int) : Bool := Int64.minValue.toInt ≤ n && n < UInt64.size

mutual

/-- How deep arrays and objects are nested; a value without parts has depth one. -/
def depth : Json → Nat
  | array items => depthItems items + 1
  | object members => depthMembers members + 1
  | _ => 1

def depthItems : List Json → Nat
  | [] => 0
  | j :: rest => max j.depth (depthItems rest)

def depthMembers : List (String × Json) → Nat
  | [] => 0
  | (_, j) :: rest => max j.depth (depthMembers rest)

end

/-- The members of an object with a given name. -/
def membersNamed (name : String) (members : List (String × Json)) : List Json :=
  members.filterMap fun m => if m.1 = name then some m.2 else none

/-- The first member with a given name. -/
def get? (name : String) : Json → Option Json
  | object members => members.lookup name
  | _ => none

def str? : Json → Option String
  | string s => some s
  | _ => none

def bool? : Json → Option Bool
  | bool b => some b
  | _ => none

def int? : Json → Option Int
  | int n => some n
  | _ => none

def items? : Json → Option (List Json)
  | array items => some items
  | _ => none

/-- A number read as a float. -/
def float? : Json → Option Float
  | int n => some (Decimal.toFloat (n < 0) n.natAbs 0)
  | float x => some x
  | _ => none

end Json

end Middleweight
