import Middleweight.Engine.Error
import Middleweight.Engine.Scope
import Middleweight.Members.Registry
import Middleweight.Members.Source

/-!
# The machine

What a run reads (`Engine`: the class table, the name of the source, the sink of the output) and what
it changes (`Machine`: classes made, objects, static fields, open calls, output, events, scope). A
computation on the machine ends with a value or stops, with an error or because its budget is used up;
either way the machine as it was left remains.

Frames and scopes are put on and taken off by `withFrame`, `withScope` and `nested`, on both ways out.
-/

namespace Middleweight

/-- Where output goes: what writing and flushing fail with, if they do. -/
structure Sink where
  writeError : Option String := none
  flushError : Option String := none
deriving DecidableEq, Inhabited

/--
What an observer of a run is told. Of a statement that is about to be executed, which is handed to the
observer as a whole, only its place is kept, and how many calls are open.
-/
inductive Event where
  | statement (span : Span) (depth : Nat)
  | enter (frame : Frame)
  | exit (frame : Frame)
deriving DecidableEq, Inhabited

/-- How deep calls may be nested, and how often a loop may go round, unless a host says otherwise. -/
def callBudget : Nat := 1000000000

/-- What a run reads. -/
structure Engine (F : Type) where
  table : ClassTable F
  /-- The name of the source in the places of errors. -/
  source : String
  /-- The first class with a static method `main` without parameters. -/
  entry : Option String
  observed : Bool := false
  sink : Sink := {}
  /-- How deep calls may be nested, and how often a loop may go round. -/
  budget : Nat := callBudget

/-- What a run changes. -/
structure Machine (F : Type) where
  registry : Registry F := {}
  heap : Array (Instance F) := #[]
  /-- Static fields read so far, by class and field. -/
  statics : List ((String × String) × Variable F) := []
  /-- Open calls, the innermost first. -/
  stack : List Frame := []
  output : String := ""
  /-- Events so far, the latest first; kept only for an observed run. -/
  events : List Event := []
  scope : Scope F := .global

instance {F : Type} : Inhabited (Machine F) := ⟨{}⟩

/-- Why a computation stopped. -/
inductive Stop (F : Type) where
  | error (e : RuntimeError F)
  /-- The budget for nested calls or for rounds of a loop is used up. -/
  | exhausted

/-- Computations on the machine. -/
abbrev EvalM (F : Type) := EStateM (Stop F) (Machine F)

variable {F : Type} {α : Type}

namespace Engine

def location (eng : Engine F) (span : Span) : Location := ⟨eng.source, span⟩

/-- Stops with a fault at a place. -/
def raise (eng : Engine F) (fault : Fault F) (span : Span) : EvalM F α := fun m =>
  .error (.error ⟨fault, eng.location span, m.stack.reverse⟩) m

/-- Stops with an operation that a value does not allow. -/
def invalid (eng : Engine F) (op : InvalidOperation F) (span : Span) : EvalM F α :=
  eng.raise (.invalid op) span

/-- Takes an error of types for a fault at the place of the type. -/
def types (eng : Engine F) : Except TypeError α → EvalM F α
  | .ok a => pure a
  | .error e => eng.raise (.type e) e.span

/-- Takes an error of operators for a fault. -/
def operators (eng : Engine F) (span : Span) : Except (OperatorError F) α → EvalM F α
  | .ok a => pure a
  | .error e => eng.invalid (.operator e) span

/-! ## Classes -/

/-- Makes a class in the registry, or finds the one made before. -/
def register (eng : Engine F)
    (make : Registry F → Except TypeError (RuntimeClass F × Registry F)) :
    EvalM F (RuntimeClass F) := do
  let m ← get
  let (c, registry) ← eng.types (make m.registry)
  modify fun m => { m with registry }
  return c

/-- The runtime class of a type. -/
def classOf (eng : Engine F) (ty : Ty) (span : Span) : EvalM F (RuntimeClass F) :=
  eng.register fun r => r.classOf eng.table ty span

/-- The static view of a class. -/
def staticView (eng : Engine F) (name : String) (span : Span) : EvalM F (RuntimeClass F) :=
  eng.register fun r => r.staticView eng.table name span

/-! ## Events, frames and scopes -/

/-- Tells the observer, if there is one. -/
def tell (eng : Engine F) (event : Event) (m : Machine F) : Machine F :=
  if eng.observed then { m with events := event :: m.events } else m

/-- Opens a call. -/
def pushFrame (eng : Engine F) (frame : Frame) (m : Machine F) : Machine F :=
  let m := eng.tell (.enter frame) m
  { m with stack := frame :: m.stack }

/-- Closes the innermost call. -/
def popFrame (eng : Engine F) (m : Machine F) : Machine F :=
  match m.stack with
  | [] => m
  | frame :: rest => eng.tell (.exit frame) { m with stack := rest }

/-- Runs a computation inside a call. -/
def withFrame (eng : Engine F) (frame : Frame) (x : EvalM F α) : EvalM F α := fun m =>
  match x (eng.pushFrame frame m) with
  | .ok a m => .ok a (eng.popFrame m)
  | .error e m => .error e (eng.popFrame m)

/-- Tells the observer of a statement that is about to run. -/
def tellStatement (eng : Engine F) (span : Span) : EvalM F Unit :=
  if eng.observed then modify fun m => eng.tell (.statement span m.stack.length) m
  else return ()

end Engine

namespace EvalM

/-- Stops because a budget is used up. -/
def exhausted : EvalM F α := fun m => .error .exhausted m

/-- Runs a computation in a scope of its own. -/
def withScope (scope : Scope F) (x : EvalM F α) : EvalM F α := fun m =>
  let saved := m.scope
  match x { m with scope } with
  | .ok a m => .ok a { m with scope := saved }
  | .error e m => .error e { m with scope := saved }

/-- Runs a computation at a level of its own. -/
def nested (x : EvalM F α) : EvalM F α := fun m =>
  match x { m with scope := m.scope.push } with
  | .ok a m => .ok a { m with scope := m.scope.pop }
  | .error e m => .error e { m with scope := m.scope.pop }

def scope : EvalM F (Scope F) := do return (← get).scope

def modifyScope (f : Scope F → Scope F) : EvalM F Unit :=
  modify fun m => { m with scope := f m.scope }

def depth : EvalM F Nat := do return (← get).stack.length

/-! ## The heap -/

/-- The contents of an object. -/
def contents (o : ObjectRef F) : EvalM F (Option (Instance F)) := do return (← get).heap[o.id]?

/-- The variable in a field of an object. -/
def field? (o : ObjectRef F) (name : String) : EvalM F (Option (Variable F)) := do
  return (← contents o).bind (·.field? name)

/-- Changes the contents of an object. -/
def modifyContents (o : ObjectRef F) (f : Instance F → Instance F) : EvalM F Unit :=
  modify fun m => { m with heap := m.heap.modify o.id f }

/-- Gives a field another value; tells whether there is such a field. -/
def setField (o : ObjectRef F) (name : String) (value : Value F) : EvalM F Bool := do
  match ← field? o name with
  | some _ => modifyContents o (·.setField name value); return true
  | none => return false

/-- Puts a new object into the heap. -/
def newObject (c : RuntimeClass F) (fields : List (String × Variable F)) :
    EvalM F (ObjectRef F) := do
  let id := (← get).heap.size
  modify fun m => { m with heap := m.heap.push { fields } }
  return ⟨id, c⟩

end EvalM

namespace Engine

/-- The variables of the fields of a new object; of several fields of a name the first counts. -/
def newFields (eng : Engine F) (span : Span) : List FieldSlot → List (String × Variable F) →
    EvalM F (List (String × Variable F))
  | [], made => pure made.reverse
  | slot :: rest, made =>
    match made.lookup slot.name with
    | some _ => eng.newFields span rest made
    | none => do
      let c ← eng.classOf slot.ty span
      eng.newFields span rest ((slot.name, ⟨c, Value.defaultFor c⟩) :: made)

/-- A new object of a class, its fields at their defaults. -/
def allocate (eng : Engine F) (c : RuntimeClass F) (span : Span) : EvalM F (ObjectRef F) := do
  let fields ← eng.newFields span c.allFields []
  EvalM.newObject c fields

/-- Writes output. -/
def write (eng : Engine F) (text : String) : EvalM F (Option String) :=
  match eng.sink.writeError with
  | some e => return some e
  | none => do
    modify fun m => { m with output := m.output ++ text }
    return none

end Engine

end Middleweight
