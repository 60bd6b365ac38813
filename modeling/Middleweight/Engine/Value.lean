import Middleweight.Decimal.Floating
import Middleweight.Members.RuntimeClass
import Middleweight.Text.Printable

/-!
# Values

What an expression evaluates to. An object is a handle: its place in the heap and its class, which
never changes. A class and a namespace are values too, since they stand in front of dots. A variable
is a value with the class it was declared with.
-/

namespace Middleweight

/-- An object: its place in the heap and its class. -/
structure ObjectRef (F : Type) where
  id : Nat
  cls : RuntimeClass F

/-- A value. -/
inductive Value (F : Type) where
  | null
  | int (n : Int64)
  | float (x : Float)
  | bool (b : Bool)
  | str (s : String)
  | object (o : ObjectRef F)
  | cls (c : RuntimeClass F)
  | «namespace» (path : String)

/-- A value and its declared class. -/
structure Variable (F : Type) where
  cls : RuntimeClass F
  value : Value F

/-- What the host keeps inside an object. -/
inductive HostState (F : Type) where
  | items (xs : List (Variable F))
  | count (n : Int)

/-- The contents of an object: a variable per field, and what the host keeps. -/
structure Instance (F : Type) where
  fields : List (String × Variable F)
  host : Option (HostState F) := none

namespace Value

variable {F : Type}

/-- The value of a variable that has not been given one. -/
def defaultFor (c : RuntimeClass F) : Value F :=
  match c.primitive? with
  | some .int => int 0
  | some .float => float 0.0
  | some .boolean => bool false
  | none => null

def isNull : Value F → Bool
  | null => true
  | _ => false

/-- Equality of values: numbers by number, strings by text, objects and classes by identity. -/
def equals : Value F → Value F → Bool
  | null, null => true
  | int a, int b => a == b
  | float a, float b => a == b
  | int a, float b => a.toFloat == b
  | float a, int b => b.toFloat == a
  | bool a, bool b => a == b
  | str a, str b => a == b
  | object a, object b => a.id == b.id
  | cls a, cls b => a.isSame b
  | .namespace a, .namespace b => a == b
  | _, _ => false

/-- A value as text. The place of an object is not shown. -/
def text : Value F → String
  | null => "null"
  | int n => toString n.toInt
  | float x => Decimal.floatText x
  | bool b => if b then "true" else "false"
  | str s => s
  | object o => o.cls.text ++ "@ADDR"
  | cls c => c.name
  | .namespace path => path

/-- A value in an error message: strings are quoted and classes marked. -/
def shown : Value F → String
  | str s => Text.quoted s
  | cls c => "class " ++ c.name
  | v => v.text

end Value

namespace Variable

variable {F : Type}

/-- The declared type. -/
def ty (v : Variable F) : Ty := v.cls.asTy

/-- The type of the value itself: the class of an object, otherwise the declared type. -/
def runtimeTy (v : Variable F) : Ty :=
  match v.value with
  | .object o => o.cls.asTy
  | _ => v.ty

end Variable

namespace Instance

variable {F : Type}

def field? (i : Instance F) (name : String) : Option (Variable F) := i.fields.lookup name

/-- Gives the first field of a name another value. -/
def setIn (name : String) (value : Value F) :
    List (String × Variable F) → List (String × Variable F)
  | [] => []
  | (key, v) :: rest =>
    if key = name then (key, { v with value }) :: rest else (key, v) :: setIn name value rest

/-- Gives a field another value; its declared class stays. -/
def setField (i : Instance F) (name : String) (value : Value F) : Instance F :=
  { i with fields := setIn name value i.fields }

end Instance

end Middleweight
