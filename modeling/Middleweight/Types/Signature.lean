import Middleweight.Types.Ty

/-!
# Signatures

The typed signature of a method or constructor. It is written `name(Type parameter, …)`.
-/

namespace Middleweight

/-- A typed parameter. -/
structure Param where
  name : String
  ty : Ty
deriving Inhabited

/-- A typed signature. A constructor is named like its class and returns nothing. -/
structure Signature where
  name : String
  isStatic : Bool
  generics : List String
  params : List Param
  returnType : Option Ty
deriving Inhabited

namespace Signature

def paramTypes (s : Signature) : List Ty := s.params.map Param.ty

def text (s : Signature) : String :=
  s.name ++ "(" ++
    String.intercalate ", " (s.params.map fun p => p.ty.text ++ " " ++ p.name) ++ ")"

end Signature

end Middleweight
