import Middleweight.ClassTable.Basic

/-!
# Subtyping

When a value of one type may stand where another type is expected. A class fits its base classes, a
primitive fits its box and a box its primitive, `null` fits all but primitives, an unbound parameter
is an object and nothing more, and everything fits an unbound parameter. The arguments of classes
have to fit pairwise as far as both have them.

The definition recurses on the expected type.
-/

namespace Middleweight.ClassTable

variable {F : Type}

/-- Whether one name is a primitive and the other its box. -/
def boxes (a b : String) : Bool :=
  let boxed (primitive className : String) : Bool :=
    match Primitive.ofName? primitive with
    | some p => p.boxed == className
    | none => false
  boxed a b || boxed b a

/-- Whether two classes of these names are related, their arguments apart. -/
def related (t : ClassTable F) (candidate target : String) : Bool :=
  t.inherits candidate target || boxes candidate target

mutual

/-- Whether a value of the candidate type may stand where the target is expected. -/
def check (t : ClassTable F) (candidate : Ty) (target : Ty) : Bool :=
  match target with
  | .unbound _ => true
  | .bound _ ty => t.check candidate ty
  | .cls name args =>
    match candidate.head with
    | .cls n given =>
      if n == Ty.nullName then (Primitive.ofName? name).isNone
      else t.related n name && t.checkAll given args
    | _ => name == Ty.objectName

/-- Whether candidates fit targets pairwise, as far as there are both. -/
def checkAll (t : ClassTable F) (candidates : List Ty) (targets : List Ty) : Bool :=
  match candidates, targets with
  | c :: cs, u :: us => t.check c u && t.checkAll cs us
  | _, _ => true

end

end Middleweight.ClassTable
