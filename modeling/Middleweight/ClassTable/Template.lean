import Middleweight.Native.Class
import Middleweight.Syntax.Basic
import Middleweight.Types.Binding

/-!
# Class templates

What is known of a class before its generic parameters have arguments: its base and field types,
which may name its parameters, and its members with their types as written. A template comes from a
declaration, from a native class, or is one of the primitives.
-/

namespace Middleweight

/-- The primitive types. -/
inductive Primitive where
  | int | float | boolean
deriving DecidableEq, Inhabited

namespace Primitive

def all : List Primitive := [int, float, boolean]

def name : Primitive → String
  | int => Ty.intName
  | float => Ty.floatName
  | boolean => Ty.booleanName

/-- The class whose instances stand for values of the primitive. -/
def boxed : Primitive → String
  | int => "java.lang.Integer"
  | float => "java.lang.Float"
  | boolean => "java.lang.Boolean"

def ofName? (name : String) : Option Primitive := all.find? fun p => p.name = name

theorem ofName?_name (p : Primitive) : ofName? p.name = some p := by
  cases p <;> decide

end Primitive

/-- What a member does: statements, or a function of the host. -/
inductive MemberBody (F : Type) where
  /-- Constructors may start with the arguments of a `super(...)` call. -/
  | declared (body : List Stmt) (superArguments : Option (List Expr))
  | native (function : F)

/-- A method or constructor with its types as written. -/
structure Member (F : Type) where
  /-- The full name of the declaring class. -/
  owner : String
  name : String
  isStatic : Bool
  isConstructor : Bool
  generics : List String
  params : List (String × TypeExpr)
  returnType : Option TypeExpr
  body : MemberBody F
  span : Span

/-- A field, whose type may name the parameters of its class. -/
structure FieldTemplate where
  name : String
  ty : Ty
  span : Span
deriving Inhabited

/-- Where a class comes from. -/
inductive Origin (F : Type) where
  | declared
  | native (c : NativeClass F)
  | primitive (p : Primitive)

/-- A class before its parameters have arguments. Only the root class has no base. -/
structure Template (F : Type) where
  name : String
  generics : List String
  base : Option ClassTy
  fields : List FieldTemplate
  constructors : List (Member F)
  methods : List (Member F)
  origin : Origin F
  span : Span

namespace Template

variable {F : Type}

def primitive? (t : Template F) : Option Primitive :=
  match t.origin with
  | .primitive p => some p
  | _ => none

def native? (t : Template F) : Option (NativeClass F) :=
  match t.origin with
  | .native c => some c
  | _ => none

/-- The methods that the class itself declares with a given name, static ones or others. -/
def methodsNamed (t : Template F) (name : String) (isStatic : Bool) : List (Member F) :=
  t.methods.filter fun m => m.name == name && m.isStatic == isStatic

def field? (t : Template F) (name : String) : Option FieldTemplate :=
  t.fields.find? fun f => f.name == name

/-- The template of a primitive. -/
def ofPrimitive (p : Primitive) : Template F :=
  { name := p.name, generics := [], base := some ⟨Ty.objectName, []⟩, fields := [],
    constructors := [], methods := [], origin := .primitive p, span := {} }

end Template

/-- The member template of a native member; a native member stands nowhere. -/
def Member.ofNative {F : Type} (owner : String) (m : NativeMember F) : Member F :=
  { owner, name := m.name, isStatic := m.isStatic, isConstructor := m.isConstructor,
    generics := [], params := m.params.map fun (ty, name) => (name, ty),
    returnType := m.returnType, body := .native m.function, span := {} }

/-- The parameters of a declaration, name first. -/
def Member.writtenParams (ps : List Parameter) : List (String × TypeExpr) :=
  ps.map fun p => (p.name.name, p.ty)

/-- The member template of a declared constructor, named like its class. -/
def Member.ofConstructor {F : Type} (owner : String) (c : ConstructorDecl) : Member F :=
  { owner, name := owner, isStatic := false, isConstructor := true, generics := [],
    params := Member.writtenParams c.parameters, returnType := none,
    body := .declared c.body c.superArguments, span := c.span }

/-- The member template of a declared method. -/
def Member.ofMethod {F : Type} (owner : String) (m : MethodDecl) : Member F :=
  { owner, name := m.name.name, isStatic := m.isStatic, isConstructor := false,
    generics := m.generics.map Identifier.name, params := Member.writtenParams m.parameters,
    returnType := m.returnType, body := .declared m.body none, span := m.span }

end Middleweight
