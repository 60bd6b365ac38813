import Middleweight.Engine.Value
import Middleweight.Types.ResolutionCache

/-!
# Scopes

The variables that a body sees, in nested levels, together with what the body belongs to. Each level
also has the generic parameters that the invocation bound and a cache of the classes that written
names turned out to mean.
-/

namespace Middleweight

/-- What a body belongs to: nothing, a class, or an instance and the class that declares the body. -/
inductive Context (F : Type) where
  | global
  | static (c : RuntimeClass F)
  | «instance» (this : ObjectRef F) (c : RuntimeClass F)

namespace Context

variable {F : Type}

/-- The class that the body belongs to. -/
def class? : Context F → Option (RuntimeClass F)
  | global => none
  | static c | .instance _ c => some c

/-- The running instance. -/
def instance? : Context F → Option (ObjectRef F)
  | .instance o _ => some o
  | _ => none

/-- The variable `this`. -/
def this? (c : Context F) : Option (Variable F) := c.instance?.map fun o => ⟨o.cls, .object o⟩

/-- The generic parameters of the class; static bodies do not see them. -/
def typeParams : Context F → TypeParams
  | .instance _ c => c.params
  | _ => []

end Context

/-- One level of a scope. -/
structure Level (F : Type) where
  locals : List (String × Variable F) := []
  generics : TypeParams := []
  cache : ResolutionCache (RuntimeClass F) := {}

namespace Level

variable {F : Type}

/-- Declares a variable; one of the same name gives way. -/
def define (l : Level F) (name : String) (v : Variable F) : Level F :=
  { l with locals := (name, v) :: l.locals.filter fun e => e.1 ≠ name }

end Level

/-- Levels of variables around a body, the current one apart and the others from the inside out. -/
structure Scope (F : Type) where
  context : Context F
  current : Level F := {}
  outer : List (Level F) := []

namespace Scope

variable {F : Type}

instance : Inhabited (Scope F) := ⟨{ context := .global }⟩

/-- The scope of nothing in particular. -/
def global : Scope F := { context := .global }

/-- The scope at the start of an invocation. -/
def invocation (context : Context F) (generics : TypeParams) : Scope F :=
  { context, current := { generics } }

/-- All levels, the innermost first. -/
def levels (s : Scope F) : List (Level F) := s.current :: s.outer

/-- Opens a level. -/
def push (s : Scope F) : Scope F := { s with current := {}, outer := s.current :: s.outer }

/-- Closes a level; the outermost one stays. -/
def pop (s : Scope F) : Scope F :=
  match s.outer with
  | [] => s
  | l :: rest => { s with current := l, outer := rest }

/-- Declares a variable at the current level. -/
def define (s : Scope F) (name : String) (v : Variable F) : Scope F :=
  { s with current := s.current.define name v }

/-- The variable of a name at the innermost of some levels that has it. -/
def lookupIn (name : String) : List (Level F) → Option (Variable F)
  | [] => none
  | l :: rest =>
    match l.locals.lookup name with
    | some v => some v
    | none => lookupIn name rest

def lookup (s : Scope F) (name : String) : Option (Variable F) := lookupIn name s.levels

/-- Gives the variable of a name another value, at the innermost of some levels that has it. -/
def assignIn (name : String) (value : Value F) : List (Level F) → Option (List (Level F))
  | [] => none
  | l :: rest =>
    match l.locals.lookup name with
    | some _ => some ({ l with locals := Instance.setIn name value l.locals } :: rest)
    | none => (assignIn name value rest).map (l :: ·)

/-- Gives a variable another value; its declared class stays. -/
def assign (s : Scope F) (name : String) (value : Value F) : Option (Scope F) :=
  match assignIn name value s.levels with
  | some (current :: outer) => some { s with current, outer }
  | _ => none

/-- The generic parameters in scope, the innermost first. -/
def typeParams (s : Scope F) : TypeParams :=
  s.levels.flatMap Level.generics ++ s.context.typeParams

/-- The class cached under a name, at the innermost of some levels that has it. -/
def cachedIn (name : String) (key : CacheKey) : List (Level F) → Option (RuntimeClass F)
  | [] => none
  | l :: rest =>
    match l.cache.get? name key with
    | some c => some c
    | none => cachedIn name key rest

def cached (s : Scope F) (name : String) (key : CacheKey) : Option (RuntimeClass F) :=
  cachedIn name key s.levels

/-- Caches a class at the current level. -/
def remember (s : Scope F) (name : String) (key : CacheKey) (c : RuntimeClass F) : Scope F :=
  { s with current := { s.current with cache := s.current.cache.insert name key c } }

@[simp] theorem pop_push (s : Scope F) : s.push.pop = s := rfl

end Scope

end Middleweight
