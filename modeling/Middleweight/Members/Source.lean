import Middleweight.Members.Resolution
import Middleweight.Members.RuntimeClass

/-!
# Two universes of classes

Members can be resolved over class types, whose signatures are lowered from the templates each time,
or over runtime classes, which carry their parameters and base classes with them.
-/

namespace Middleweight

namespace ClassTable

variable {F : Type}

/-- Members with their signatures, in order, up to the first that fails. -/
def signatures (t : ClassTable F) (params : TypeParams) :
    List (Member F) → Except TypeError (List (Member F × Signature))
  | [] => .ok []
  | m :: rest =>
    match t.signature m params with
    | .error e => .error e
    | .ok s =>
      match t.signatures params rest with
      | .error e => .error e
      | .ok ss => .ok ((m, s) :: ss)

/-- The parameters of a template, bound to arguments if there are as many of them. -/
def paramsFor (template : Template F) (args : List Ty) : TypeParams :=
  if template.generics.length = args.length then TypeParams.bound template.generics args
  else TypeParams.unbound template.generics

/-- The base class of a class type, with its arguments put in. -/
def baseOf (t : ClassTable F) (owner : ClassTy) : Except TypeError (Option ClassTy) :=
  (t.template owner.name {}).map fun template =>
    template.base.map (ClassTy.substitute (Bindings.zip template.generics owner.args))

/-- The members of class types. -/
def staticMembers (t : ClassTable F) : MemberSource F ClassTy where
  ownerName := ClassTy.name
  base := t.baseOf
  methods owner name isStatic :=
    match t.template owner.name {} with
    | .error e => .error e
    | .ok template =>
      t.signatures (paramsFor template owner.args) (template.methodsNamed name isStatic)
  constructors owner :=
    match t.template owner.name {} with
    | .error e => .error e
    | .ok template => t.signatures (paramsFor template owner.args) template.constructors
  height _ := t.height

/-- The members of runtime classes. -/
def runtimeMembers (t : ClassTable F) : MemberSource F (RuntimeClass F) where
  ownerName := RuntimeClass.name
  base owner := .ok owner.base?
  methods owner name isStatic :=
    t.signatures owner.params (owner.own.template.methodsNamed name isStatic)
  constructors owner := t.signatures owner.params owner.constructors
  height owner := owner.ancestors.length + 1

end ClassTable

end Middleweight
