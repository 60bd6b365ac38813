import Middleweight.ClassTable.Basic

/-!
# Runtime classes

A class whose parameters have arguments, together with its base classes; or the static view of a
class, through which static members are reached and whose parameters stay unbound. The base classes
are kept as a list of layers, so that walks along them recurse on that list.
-/

namespace Middleweight

/-- A field with its type. -/
structure FieldSlot where
  name : String
  ty : Ty
deriving Inhabited

/-- One class of a chain of base classes. -/
structure Layer (F : Type) where
  ty : ClassTy
  template : Template F
  params : TypeParams
  fields : List FieldSlot

/-- A class with its base classes, nearest first. -/
structure RuntimeClass (F : Type) where
  isStaticView : Bool
  own : Layer F
  ancestors : List (Layer F)

namespace RuntimeClass

variable {F : Type}

def ty (c : RuntimeClass F) : ClassTy := c.own.ty

def asTy (c : RuntimeClass F) : Ty := c.ty.toTy

def name (c : RuntimeClass F) : String := c.ty.name

def text (c : RuntimeClass F) : String := c.ty.text

/-- The parameters of the class, bound to its arguments unless it is a static view. -/
def params (c : RuntimeClass F) : TypeParams := c.own.params

def base? (c : RuntimeClass F) : Option (RuntimeClass F) :=
  match c.ancestors with
  | [] => none
  | l :: rest => some ⟨c.isStaticView, l, rest⟩

/-- The class and its base classes. -/
def layers (c : RuntimeClass F) : List (Layer F) := c.own :: c.ancestors

/-- The fields of the class and of its base classes, its own first. -/
def allFields (c : RuntimeClass F) : List FieldSlot := c.layers.flatMap Layer.fields

/-- The field of a name, nearest first. -/
def field? (c : RuntimeClass F) (name : String) : Option FieldSlot :=
  c.allFields.find? fun f => f.name == name

def methods (c : RuntimeClass F) : List (Member F) := c.own.template.methods

/-- Static views have no constructors. -/
def constructors (c : RuntimeClass F) : List (Member F) :=
  if c.isStaticView then [] else c.own.template.constructors

def primitive? (c : RuntimeClass F) : Option Primitive := c.own.template.primitive?

/-- Identity of classes: the same kind of view of the same type. -/
def isSame (c d : RuntimeClass F) : Bool := c.isStaticView == d.isStaticView && c.ty == d.ty

/-- The instantiation of a template with a type over its base class. -/
def ofTemplate (t : Template F) (ty : ClassTy) (base? : Option (RuntimeClass F)) :
    RuntimeClass F :=
  let bindings := Bindings.zip t.generics ty.args
  let own : Layer F :=
    { ty, template := t, params := TypeParams.bound t.generics ty.args,
      fields := t.fields.map fun f => ⟨f.name, f.ty.substitute bindings⟩ }
  ⟨false, own, (base?.map layers).getD []⟩

/-- The static view of a template over the static view of its base class. -/
def staticOfTemplate (t : Template F) (base? : Option (RuntimeClass F)) : RuntimeClass F :=
  let own : Layer F :=
    { ty := ⟨t.name, []⟩, template := t, params := TypeParams.unbound t.generics, fields := [] }
  ⟨true, own, (base?.map layers).getD []⟩

end RuntimeClass

end Middleweight
