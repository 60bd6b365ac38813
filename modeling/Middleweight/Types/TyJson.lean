import Middleweight.Json.Basic
import Middleweight.Types.Binding
import Middleweight.Types.Signature

/-!
# Types as JSON

A class is written with its name and its arguments, a generic parameter with its name and its bound,
which is `null` as long as there is none. Both parts are always written; reading lets arguments and
bound be left out.
-/

namespace Middleweight

mutual

def Ty.encode : Ty → Json
  | .cls name args => .object [("class", .string name), ("args", .array (Ty.encodeAll args))]
  | .unbound name => .object [("generic", .string name), ("bound", .null)]
  | .bound name ty => .object [("generic", .string name), ("bound", ty.encode)]

def Ty.encodeAll : List Ty → List Json
  | [] => []
  | t :: rest => t.encode :: Ty.encodeAll rest

end

/-- A generic parameter with its bound, if it has one. -/
def Ty.generic (name : String) : Option Ty → Ty
  | none => .unbound name
  | some ty => .bound name ty

def Ty.decodeWithin? : Nat → Json → Option Ty
  | 0, _ => none
  | fuel + 1, j =>
    match j.get? "class", j.get? "generic" with
    | some (.string name), _ =>
      match j.get? "args" with
      | none | some .null => some (.cls name [])
      | some args => do return .cls name (← (← args.items?).mapM (Ty.decodeWithin? fuel))
    | _, some (.string name) =>
      match j.get? "bound" with
      | none | some .null => some (Ty.generic name none)
      | some b => do return Ty.generic name (some (← Ty.decodeWithin? fuel b))
    | _, _ => none

/-- The type that a JSON value stands for. -/
def Ty.decode? (j : Json) : Option Ty := Ty.decodeWithin? j.depth j

def Signature.encode (s : Signature) : Json :=
  .object [("text", .string s.text), ("static", .bool s.isStatic),
    ("generics", .array (s.generics.map Json.string)),
    ("params", .array (s.params.map fun p => .array [p.ty.encode, .string p.name])),
    ("returns", (s.returnType.map Ty.encode).getD .null)]

/-- Bindings as an object: each name with the type that counts. -/
def Bindings.encode (b : Bindings) : Json :=
  .object (b.distinct.map fun (name, ty) => (name, ty.encode))

end Middleweight
