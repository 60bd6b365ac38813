import Middleweight.Decimal.Floating
import Middleweight.Json.Basic

/-!
# Canonical JSON

`Json.canonical` gives every object its members in the order of their names, each name once; of
several members of one name the last counts. `Json.floatsAsText` writes floats as text, for readers
whose numbers are less exact.
-/

namespace Middleweight.Json

/-- Puts a member into a list that is sorted by name; one of the same name gives way. -/
def putMember (name : String) (value : Json) : List (String × Json) → List (String × Json)
  | [] => [(name, value)]
  | (key, old) :: rest =>
    if name = key then (name, value) :: rest
    else if name < key then (name, value) :: (key, old) :: rest
    else (key, old) :: putMember name value rest

mutual

/-- Objects with their members sorted, of which the last of a name counts. -/
def canonical : Json → Json
  | array items => array (canonicalItems items)
  | object members => object (canonicalMembers [] members)
  | j => j

def canonicalItems : List Json → List Json
  | [] => []
  | j :: rest => canonical j :: canonicalItems rest

/-- Adds members to a sorted list, in order. -/
def canonicalMembers (sorted : List (String × Json)) : List (String × Json) → List (String × Json)
  | [] => sorted
  | (name, j) :: rest => canonicalMembers (putMember name (canonical j) sorted) rest

end

mutual

/-- Every float as its text. -/
def floatsAsText : Json → Json
  | float x => string (Decimal.floatText x)
  | array items => array (floatItemsAsText items)
  | object members => object (floatMembersAsText members)
  | j => j

def floatItemsAsText : List Json → List Json
  | [] => []
  | j :: rest => floatsAsText j :: floatItemsAsText rest

def floatMembersAsText : List (String × Json) → List (String × Json)
  | [] => []
  | (name, j) :: rest => (name, floatsAsText j) :: floatMembersAsText rest

end

end Middleweight.Json
