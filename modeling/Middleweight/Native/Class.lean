import Middleweight.Syntax.TypeText

/-!
# Native classes

Classes whose members are functions of the host. The functions themselves are named by a type `F` of
the host's choice, so that a class is plain data; the engine is told separately what each name does.
-/

namespace Middleweight

/-- A method or constructor of a native class, with the types of its signature as written. -/
structure NativeMember (F : Type) where
  name : String
  isStatic : Bool := false
  isConstructor : Bool := false
  params : List (TypeExpr × String) := []
  returnType : Option TypeExpr := none
  function : F

/-- A static field of a native class, and the function that gives its value when first read. -/
structure NativeField (F : Type) where
  name : String
  ty : TypeExpr
  init : F

/-- A native class. -/
structure NativeClass (F : Type) where
  «namespace» : String
  name : String
  generics : List String := []
  base : Option TypeExpr := none
  constructors : List (NativeMember F) := []
  methods : List (NativeMember F) := []
  staticFields : List (NativeField F) := []

namespace NativeClass

variable {F G : Type}

/-- The full name: namespace and name with a dot between them. -/
def fullName (c : NativeClass F) : String :=
  if c.namespace = "" then c.name else c.namespace ++ "." ++ c.name

def staticField? (c : NativeClass F) (name : String) : Option (NativeField F) :=
  c.staticFields.find? fun f => f.name == name

/-! ## Building native classes -/

/-- Parameters from pairs of type text and name. -/
def writtenParams (params : List (String × String)) : List (TypeExpr × String) :=
  params.map fun (ty, name) => (TypeExpr.parse ty, name)

/-- A class without members. -/
def ofName («namespace» name : String) : NativeClass F := { «namespace», name }

def withConstructor (c : NativeClass F) (params : List (String × String)) (function : F) :
    NativeClass F :=
  let member :=
    { name := c.name, isConstructor := true, params := writtenParams params, function }
  { c with constructors := c.constructors ++ [member] }

def withMethod (c : NativeClass F) (name : String) (params : List (String × String))
    (returns : Option String) (function : F) (isStatic : Bool := false) : NativeClass F :=
  let member :=
    { name, isStatic, params := writtenParams params,
      returnType := returns.map TypeExpr.parse, function }
  { c with methods := c.methods ++ [member] }

def withStaticMethod (c : NativeClass F) (name : String) (params : List (String × String))
    (returns : Option String) (function : F) : NativeClass F :=
  c.withMethod name params returns function true

def withStaticField (c : NativeClass F) (name ty : String) (init : F) : NativeClass F :=
  { c with staticFields := c.staticFields ++ [{ name, ty := TypeExpr.parse ty, init }] }

/-- The same class with its functions named otherwise. -/
def map (f : F → G) (c : NativeClass F) : NativeClass G :=
  let member (m : NativeMember F) : NativeMember G :=
    { name := m.name, isStatic := m.isStatic, isConstructor := m.isConstructor,
      params := m.params, returnType := m.returnType, function := f m.function }
  { «namespace» := c.namespace, name := c.name, generics := c.generics, base := c.base,
    constructors := c.constructors.map member, methods := c.methods.map member,
    staticFields := c.staticFields.map fun s => { name := s.name, ty := s.ty, init := f s.init } }

end NativeClass

end Middleweight
