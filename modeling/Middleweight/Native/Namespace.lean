import Middleweight.Native.Class
import Middleweight.Text.Segments

/-!
# Namespaces of native classes

Native classes live in a tree of namespaces. A class is registered under the segments of its
namespace, empty ones left out; one of the same name in the same place is replaced. Classes and
namespaces are kept in the order of their names. A namespace hides a class of the same path.

Registration and look-up recurse on segments, the listing on the tree.
-/

namespace Middleweight

/-! ## Maps sorted by name -/

namespace SortedMap

variable {α : Type}

/-- Changes the entry of a name, or makes one in its place. -/
def upsert (name : String) (f : Option α → α) : List (String × α) → List (String × α)
  | [] => [(name, f none)]
  | (key, a) :: rest =>
    if name = key then (key, f (some a)) :: rest
    else if name < key then (name, f none) :: (key, a) :: rest
    else (key, a) :: upsert name f rest

end SortedMap

/-- A namespace: its classes by simple name, and the namespaces inside it. -/
inductive Namespace (F : Type) where
  | node (classes : List (String × NativeClass F)) (children : List (String × Namespace F))

/-- What a path of a namespace tree leads to. -/
inductive NamespaceEntry (F : Type) where
  | «namespace» (n : Namespace F)
  | cls (c : NativeClass F)

namespace Namespace

variable {F G : Type}

def empty : Namespace F := node [] []

instance : Inhabited (Namespace F) := ⟨empty⟩

/-- The classes of this namespace itself. -/
def ownClasses : Namespace F → List (NativeClass F)
  | node classes _ => classes.map Prod.snd

/-- The namespace or else the class of a name. -/
def item? (name : String) : Namespace F → Option (NamespaceEntry F)
  | node classes children =>
    match children.lookup name with
    | some child => some (.namespace child)
    | none => (classes.lookup name).map .cls

/-- Puts a class into the namespace that some segments lead to. -/
def insert (c : NativeClass F) : List String → Namespace F → Namespace F
  | [], node classes children => node (SortedMap.upsert c.name (fun _ => c) classes) children
  | s :: rest, node classes children =>
    node classes (SortedMap.upsert s (fun child? => insert c rest (child?.getD empty)) children)

/-- What some segments lead to, the first of them given apart. -/
def find? : String → List String → Namespace F → Option (NamespaceEntry F)
  | s, [], n => n.item? s
  | s, t :: rest, n =>
    match n.item? s with
    | some (.namespace child) => find? t rest child
    | _ => none

mutual

/-- All classes: those of this namespace, then those of the namespaces inside it. -/
def classes : Namespace F → List (NativeClass F)
  | node own children => own.map Prod.snd ++ classesIn children

def classesIn : List (String × Namespace F) → List (NativeClass F)
  | [] => []
  | (_, n) :: rest => n.classes ++ classesIn rest

end

end Namespace

/-- The native classes that an engine knows. -/
structure NativeRegistry (F : Type) where
  root : Namespace F := .empty

namespace NativeRegistry

variable {F G : Type}

instance : Inhabited (NativeRegistry F) := ⟨{}⟩

def register (r : NativeRegistry F) (c : NativeClass F) : NativeRegistry F :=
  ⟨r.root.insert c ((Text.segments c.namespace).filter (· ≠ ""))⟩

def ofClasses (classes : List (NativeClass F)) : NativeRegistry F :=
  classes.foldl register {}

/-- What a dotted path leads to. -/
def lookup (r : NativeRegistry F) (path : String) : Option (NamespaceEntry F) :=
  match Text.segments path with
  | [] => none
  | s :: rest => r.root.find? s rest

def namespace? (r : NativeRegistry F) (path : String) : Option (Namespace F) :=
  match r.lookup path with
  | some (.namespace n) => some n
  | _ => none

def class? (r : NativeRegistry F) (path : String) : Option (NativeClass F) :=
  match r.lookup path with
  | some (.cls c) => some c
  | _ => none

/-- All classes, in the order of the tree. -/
def classes (r : NativeRegistry F) : List (NativeClass F) := r.root.classes

end NativeRegistry

end Middleweight
