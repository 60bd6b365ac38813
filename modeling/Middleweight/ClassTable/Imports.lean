import Middleweight.Native.Namespace
import Middleweight.Syntax.Basic
import Middleweight.Types.Error
import Middleweight.Types.Ty

/-!
# Imports

Which full name a written name stands for. The names come from five places, of which a later one
overrides an earlier one: the names of primitives, the classes of `java.lang`, the imports in their
order, the classes of the program, and the full names of native classes.
-/

namespace Middleweight

/-- Full names by written name, the latest first. -/
structure ImportTable where
  names : List (String × String) := []
deriving Inhabited

namespace ImportTable

variable {F : Type}

/-- The names under which primitives are written. -/
def primitiveAliases : List (String × String) :=
  [(Ty.intName, Ty.intName), ("byte", Ty.intName), ("short", Ty.intName), ("long", Ty.intName),
   (Ty.floatName, Ty.floatName), ("double", Ty.floatName), (Ty.booleanName, Ty.booleanName)]

/-- The namespace whose classes need no import. -/
def implicitNamespace : String := "java.lang"

def add (t : ImportTable) (entries : List (String × String)) : ImportTable :=
  ⟨entries.reverse ++ t.names⟩

/-- The names that classes have by themselves, without their namespace. -/
def simpleNames (classes : List (NativeClass F)) : List (String × String) :=
  classes.map fun c => (c.name, c.fullName)

/-- The names that one import brings: those of a namespace, or that of a class. -/
def importedNames (natives : NativeRegistry F) (i : Import) :
    Except TypeError (List (String × String)) :=
  match natives.lookup i.dotted, i.wildcard with
  | some (.namespace n), true => .ok (simpleNames n.ownClasses)
  | some (.cls c), false => .ok (simpleNames [c])
  | _, _ => .error (.unknownType i.dotted i.span)

def addImports (natives : NativeRegistry F) : ImportTable → List Import →
    Except TypeError ImportTable
  | t, [] => .ok t
  | t, i :: rest =>
    match importedNames natives i with
    | .ok names => addImports natives (t.add names) rest
    | .error e => .error e

/-- The names known before any import: primitives and the classes of `java.lang`. -/
def implicit (natives : NativeRegistry F) : ImportTable :=
  let t := (⟨[]⟩ : ImportTable).add primitiveAliases
  match natives.namespace? implicitNamespace with
  | some n => t.add (simpleNames n.ownClasses)
  | none => t

def build (program : Program) (natives : NativeRegistry F) : Except TypeError ImportTable :=
  match addImports natives (implicit natives) program.imports with
  | .error e => .error e
  | .ok t =>
    .ok ((t.add (program.classes.map fun c => (c.name.name, c.name.name))).add
      (natives.classes.map fun c => (c.fullName, c.fullName)))

/-- The full name that a written name stands for. -/
def resolve? (t : ImportTable) (name : String) : Option String := t.names.lookup name

end ImportTable

end Middleweight
