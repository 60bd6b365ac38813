import Middleweight.Json.Basic

/-!
# Records in JSON

A record is written as an object, whose members may come in any order and among others that are
ignored, or as an array of its parts in their declared order. A known name may occur only once. A
choice between records names its alternative in a tag, which is a member of the object or the first
item of the array.
-/

namespace Middleweight.Json

/-- The parts of a record that are present, each with its name. -/
abbrev Parts := List (String × Json)

/-- The parts of a record with the given part names. -/
def record? (names : List String) : Json → Option Parts
  | object members =>
    let known := members.filter fun m => names.contains m.1
    if (known.map Prod.fst).Nodup then some known else none
  | array items => if items.length ≤ names.length then some (names.zip items) else none
  | _ => none

/-- The tag of a record and the record without it. -/
def tagged? (tag : String) : Json → Option (String × Json)
  | object members =>
    match membersNamed tag members with
    | [string t] => some (t, object (members.filter fun m => m.1 ≠ tag))
    | _ => none
  | array (string t :: rest) => some (t, array rest)
  | _ => none

/-- A name out of a fixed list: a string, or an object whose only member has that name. -/
def symbol? : Json → Option String
  | string s => some s
  | object [(s, null)] => some s
  | _ => none

/-- An array of values that are all read alike. -/
def list? {α : Type} (read : Json → Option α) : Json → Option (List α)
  | array items => items.mapM read
  | _ => none

/-- An unsigned number of 32 bits. -/
def uint32? : Json → Option UInt32
  | int n => if 0 ≤ n ∧ n < UInt32.size then some (UInt32.ofNat n.toNat) else none
  | _ => none

/-- A signed number of 64 bits. -/
def int64? : Json → Option Int64
  | int n => if Int64.minValue.toInt ≤ n ∧ n ≤ Int64.maxValue.toInt then some (Int64.ofInt n) else none
  | _ => none

namespace Parts

variable {α : Type}

/-- A part that must be present. -/
def required (r : Parts) (name : String) (read : Json → Option α) : Option α :=
  match r.lookup name with
  | some j => read j
  | none => none

/-- A part that may be left out. -/
def orElse (r : Parts) (name : String) (default : α) (read : Json → Option α) : Option α :=
  match r.lookup name with
  | some j => read j
  | none => some default

/-- A part that may be left out or `null`. -/
def optional (r : Parts) (name : String) (read : Json → Option α) : Option (Option α) :=
  match r.lookup name with
  | none | some null => some none
  | some j => (read j).map some

end Parts

end Middleweight.Json
