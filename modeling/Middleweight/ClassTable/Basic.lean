import Middleweight.ClassTable.Lowering
import Middleweight.ClassTable.Template
import Middleweight.Types.Signature

/-!
# The class table

The templates of all classes that a program can name: primitives, native classes and the classes it
declares. `ClassTable.build` refuses imports that name nothing, repeated class names, `extends`
clauses and field types that do not lower, and declared classes whose base classes lead back to one
of them. Types in members are lowered when they are needed.

A walk along base classes visits every class at most once before it repeats itself, so the number of
classes bounds it.
-/

namespace Middleweight

/-- The templates a program can name, each name once. -/
structure ClassTable (F : Type) where
  classes : List (Template F)
  imports : ImportTable
  natives : NativeRegistry F

namespace ClassTable

variable {F : Type}

/-! ## Look-up -/

def get? (t : ClassTable F) (name : String) : Option (Template F) :=
  t.classes.find? fun c => c.name == name

/-- The template of a class that has to exist. -/
def template (t : ClassTable F) (name : String) (span : Span) : Except TypeError (Template F) :=
  match t.get? name with
  | some c => .ok c
  | none => .error (.unknownType name span)

/-- The number of parameters of a class. -/
def arity? (t : ClassTable F) (name : String) : Option Nat :=
  (t.get? name).map fun c => c.generics.length

def lowering (t : ClassTable F) : LoweringContext := ⟨t.imports, t.arity?⟩

/-- Lowers a written type under the parameters in scope. -/
def lower (t : ClassTable F) (params : TypeParams) (e : TypeExpr) : Except TypeError Ty :=
  t.lowering.lower params e

/-- The name of the base class. -/
def baseName? (t : ClassTable F) (name : String) : Option String :=
  ((t.get? name).bind Template.base).map ClassTy.name

/-- A bound on the number of classes on a walk along bases that does not repeat itself. -/
def height (t : ClassTable F) : Nat := t.classes.length + 1

/-! ## Walks along base classes -/

/-- The classes from a name upwards, until the walk ends or meets one it has seen. -/
def chain (t : ClassTable F) : Nat → List String → String → List String
  | 0, _, _ => []
  | fuel + 1, seen, name =>
    if name ∈ seen then []
    else
      match t.baseName? name with
      | some base => name :: t.chain fuel (name :: seen) base
      | none => [name]

/-- Whether the walk from a name upwards meets a class it has seen. -/
def revisits (t : ClassTable F) : Nat → List String → String → Bool
  | 0, _, _ => false
  | fuel + 1, seen, name =>
    if name ∈ seen then true
    else
      match t.baseName? name with
      | some base => t.revisits fuel (name :: seen) base
      | none => false

/-- A class and its base classes, up to the root. -/
def ancestors (t : ClassTable F) (name : String) : List String := t.chain t.height [] name

/-- Whether a class is another one or extends it, directly or through others. -/
def inherits (t : ClassTable F) (className ancestor : String) : Bool :=
  (t.ancestors className).contains ancestor

/-! ## Signatures -/

/-- Lowers the written parameters of a member, from left to right. -/
def lowerParams (t : ClassTable F) (params : TypeParams) :
    List (String × TypeExpr) → Except TypeError (List Param)
  | [] => .ok []
  | (name, e) :: rest =>
    match t.lower params e with
    | .error err => .error err
    | .ok ty =>
      match t.lowerParams params rest with
      | .error err => .error err
      | .ok ps => .ok (⟨name, ty⟩ :: ps)

/-- The parameters that the types of a member may name; static members do not see those of the class. -/
def memberParams (m : Member F) (classParams : TypeParams) : TypeParams :=
  TypeParams.pushUnbound (if m.isStatic then [] else classParams) m.generics

/-- The typed signature of a member of a class with the given parameters. -/
def signature (t : ClassTable F) (m : Member F) (classParams : TypeParams) :
    Except TypeError Signature :=
  let params := memberParams m classParams
  match t.lowerParams params m.params with
  | .error e => .error e
  | .ok typed =>
    match m.returnType with
    | none => .ok ⟨m.name, m.isStatic, m.generics, typed, none⟩
    | some returns =>
      match t.lower params returns with
      | .error e => .error e
      | .ok ty => .ok ⟨m.name, m.isStatic, m.generics, typed, some ty⟩

/-! ## Building the table -/

/-- Adds a template; one of the same name gives way. -/
def put (c : Template F) (classes : List (Template F)) : List (Template F) :=
  c :: classes.filter fun d => d.name ≠ c.name

/-- Numbers of parameters by class name, the latest first. -/
abbrev Arities := List (String × Nat)

/-- The numbers of parameters of primitives and native classes. -/
def knownArities (natives : NativeRegistry F) : Arities :=
  (natives.classes.map fun c => (c.fullName, c.generics.length)).reverse ++
    Primitive.all.map fun p => (p.name, 0)

/-- Adds the numbers of parameters of declared classes, whose names have to be new. -/
def declaredArities : Arities → List ClassDecl → Except TypeError Arities
  | known, [] => .ok known
  | known, d :: rest =>
    if (known.lookup d.name.name).isSome then .error (.duplicateClass d.name.name d.name.span)
    else declaredArities ((d.name.name, d.generics.length) :: known) rest

def nativeTemplate (ctx : LoweringContext) (c : NativeClass F) : Except TypeError (Template F) :=
  match ctx.lowerBase c.fullName (TypeParams.unbound c.generics) c.base with
  | .error e => .error e
  | .ok base =>
    .ok { name := c.fullName, generics := c.generics, base, fields := [],
          constructors := c.constructors.map (Member.ofNative c.fullName),
          methods := c.methods.map (Member.ofNative c.fullName), origin := .native c, span := {} }

/-- Lowers the types of declared fields, from left to right. -/
def lowerFields (ctx : LoweringContext) (params : TypeParams) :
    List FieldDecl → Except TypeError (List FieldTemplate)
  | [] => .ok []
  | f :: rest =>
    match ctx.lower params f.ty with
    | .error e => .error e
    | .ok ty =>
      match lowerFields ctx params rest with
      | .error e => .error e
      | .ok fs => .ok (⟨f.name.name, ty, f.span⟩ :: fs)

def declaredTemplate (ctx : LoweringContext) (d : ClassDecl) : Except TypeError (Template F) :=
  let name := d.name.name
  let generics := d.generics.map Identifier.name
  let params := TypeParams.unbound generics
  match ctx.lowerBase name params d.base with
  | .error e => .error e
  | .ok base =>
    match lowerFields ctx params d.fields with
    | .error e => .error e
    | .ok fields =>
      .ok { name, generics, base, fields, constructors := d.constructors.map (Member.ofConstructor name),
            methods := d.methods.map (Member.ofMethod name), origin := .declared, span := d.span }

/-- Adds the templates of some classes in order, up to the first that fails. -/
def putAll {α : Type} (make : α → Except TypeError (Template F)) :
    List (Template F) → List α → Except TypeError (List (Template F))
  | classes, [] => .ok classes
  | classes, a :: rest =>
    match make a with
    | .error e => .error e
    | .ok c => putAll make (put c classes) rest

/-- Refuses the first declared class whose base classes lead back to one of them. -/
def checkAcyclic (t : ClassTable F) : List ClassDecl → Except TypeError Unit
  | [] => .ok ()
  | d :: rest =>
    if t.revisits (t.height + 1) [] d.name.name then
      .error (.inheritanceCycle d.name.name d.name.span)
    else t.checkAcyclic rest

/-- The class table of a program over some native classes. -/
def build (program : Program) (natives : NativeRegistry F) : Except TypeError (ClassTable F) := do
  let imports ← ImportTable.build program natives
  let arities ← declaredArities (knownArities natives) program.classes
  let ctx : LoweringContext := ⟨imports, fun name => arities.lookup name⟩
  let primitives := Primitive.all.foldl (fun cs p => put (Template.ofPrimitive p) cs) []
  let withNatives ← putAll (nativeTemplate ctx) primitives natives.classes
  let classes ← putAll (declaredTemplate ctx) withNatives program.classes
  let table : ClassTable F := ⟨classes, imports, natives⟩
  table.checkAcyclic program.classes
  return table

end ClassTable

end Middleweight
