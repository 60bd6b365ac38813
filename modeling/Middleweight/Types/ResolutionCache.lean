import Middleweight.Text.Segments
import Middleweight.Types.Ty

/-!
# The resolution cache

A map from a dotted name and a key to a value. The key asks for the static view of a class or for its
instantiation with some arguments. Names share their leading segments in a tree.

Reading and writing recurse on the segments of the name.
-/

namespace Middleweight

/-- What is cached under a name: the static view, or an instantiation. -/
inductive CacheKey where
  | static
  | args (types : List Ty)
deriving Inhabited

/-- A node of the cache: values under the name that leads here, and nodes for longer names. -/
inductive CacheNode (α : Type) where
  | node (static : Option α) (instances : List (List Ty × α))
      (children : List (String × CacheNode α))

namespace CacheNode

variable {α : Type}

def empty : CacheNode α := node none [] []

def children : CacheNode α → List (String × CacheNode α)
  | node _ _ cs => cs

/-- The value under the name that leads here. -/
def value? : CacheKey → CacheNode α → Option α
  | .static, node s _ _ => s
  | .args ts, node _ is _ => (is.find? fun e => Ty.sameAll e.1 ts).map Prod.snd

/-- Puts a value under the name that leads here. -/
def setValue (value : α) : CacheKey → CacheNode α → CacheNode α
  | .static, node _ is cs => node (some value) is cs
  | .args ts, node s is cs => node s ((ts, value) :: is.filter fun e => !Ty.sameAll e.1 ts) cs

def get? (key : CacheKey) : List String → CacheNode α → Option α
  | [], n => n.value? key
  | s :: rest, n =>
    match n.children.lookup s with
    | some child => get? key rest child
    | none => none

def insert (key : CacheKey) (value : α) : List String → CacheNode α → CacheNode α
  | [], n => n.setValue value key
  | s :: rest, node st is cs =>
    let child := insert key value rest ((cs.lookup s).getD empty)
    node st is ((s, child) :: cs.filter fun c => c.1 ≠ s)

end CacheNode

/-- A cache of values by dotted name and key. -/
structure ResolutionCache (α : Type) where
  root : CacheNode α := .empty

namespace ResolutionCache

variable {α : Type}

instance : Inhabited (ResolutionCache α) := ⟨{}⟩

def get? (c : ResolutionCache α) (name : String) (key : CacheKey) : Option α :=
  c.root.get? key (Text.segments name)

def insert (c : ResolutionCache α) (name : String) (key : CacheKey) (value : α) :
    ResolutionCache α :=
  ⟨c.root.insert key value (Text.segments name)⟩

end ResolutionCache

end Middleweight
