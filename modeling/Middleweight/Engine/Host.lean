import Middleweight.Engine.Value

/-!
# Programs of the host

A native function is a program over a few requests to the engine: to write, to make classes and
objects, to keep something inside an object. Such a program is data, and the engine carries it out;
nothing else of the engine is within its reach.
-/

namespace Middleweight

/-- Why a native function fails. -/
inductive HostFault where
  | message (text : String)
  | nullDereference (member : String)
deriving DecidableEq, Inhabited

/-- A program of the host: a result, a failure, or a request and what follows its answer. -/
inductive HostProgram (F α : Type) where
  | done (a : α)
  | fail (fault : HostFault)
  | write (text : String) (next : HostProgram F α)
  | classOf (ty : Ty) (next : RuntimeClass F → HostProgram F α)
  | allocate (c : RuntimeClass F) (next : ObjectRef F → HostProgram F α)
  | construct (c : RuntimeClass F) (args : List (Variable F))
      (next : ObjectRef F → HostProgram F α)
  | getState (o : ObjectRef F) (next : Option (HostState F) → HostProgram F α)
  | setState (o : ObjectRef F) (state : HostState F) (next : HostProgram F α)
  | depth (next : Nat → HostProgram F α)

namespace HostProgram

variable {F α β : Type}

/-- One program after another. -/
protected def bind : HostProgram F α → (α → HostProgram F β) → HostProgram F β
  | done a, f => f a
  | fail e, _ => fail e
  | write text next, f => write text (next.bind f)
  | classOf ty next, f => classOf ty fun c => (next c).bind f
  | allocate c next, f => allocate c fun o => (next o).bind f
  | construct c args next, f => construct c args fun o => (next o).bind f
  | getState o next, f => getState o fun s => (next s).bind f
  | setState o state next, f => setState o state (next.bind f)
  | depth next, f => depth fun n => (next n).bind f

instance : Monad (HostProgram F) where
  pure := done
  bind := HostProgram.bind

/-- Fails with a message. -/
def failWith (text : String) : HostProgram F α := fail (.message text)

end HostProgram

/-- What a native function is given: the class it belongs to, the receiver, the arguments, the place. -/
structure HostCall (F : Type) where
  cls : RuntimeClass F
  this : Value F
  args : List (Variable F)
  span : Span

namespace HostCall

open HostProgram

variable {F : Type}

def arg (call : HostCall F) (i : Nat) : HostProgram F (Variable F) :=
  match call.args[i]? with
  | some v => done v
  | none => failWith ("missing argument " ++ toString i)

def intArg (call : HostCall F) (i : Nat) : HostProgram F Int64 := do
  match (← call.arg i).value with
  | .int n => done n
  | other => failWith ("expected an int argument, got " ++ other.text)

def floatArg (call : HostCall F) (i : Nat) : HostProgram F Float := do
  match (← call.arg i).value with
  | .float x => done x
  | other => failWith ("expected a float argument, got " ++ other.text)

def boolArg (call : HostCall F) (i : Nat) : HostProgram F Bool := do
  match (← call.arg i).value with
  | .bool b => done b
  | other => failWith ("expected a boolean argument, got " ++ other.text)

def strArg (call : HostCall F) (i : Nat) : HostProgram F String := do
  match (← call.arg i).value with
  | .str s => done s
  | .null => fail (.nullDereference "string argument")
  | other => failWith ("expected a string argument, got " ++ other.text)

/-- The receiver, which has to be a string. -/
def thisStr (call : HostCall F) : HostProgram F String :=
  match call.this with
  | .str s => done s
  | other => failWith ("expected a string receiver, got " ++ other.text)

/-- The receiver, which has to be an object. -/
def receiver (call : HostCall F) : HostProgram F (ObjectRef F) :=
  match call.this with
  | .object o => done o
  | other => failWith ("expected an object receiver, got " ++ other.text)

/-- Keeps something inside the receiver. -/
def initState (call : HostCall F) (state : HostState F) : HostProgram F Unit := do
  let o ← call.receiver
  setState o state (done ())

/-- The failure of a receiver that does not keep what it should. -/
def uninitialized {α : Type} (o : ObjectRef F) : HostProgram F α :=
  failWith (o.cls.text ++ " instance was not initialized by its constructor")

/-- The receiver and the items it keeps. -/
def items (call : HostCall F) : HostProgram F (ObjectRef F × List (Variable F)) := do
  let o ← call.receiver
  getState o fun
    | some (.items xs) => done (o, xs)
    | _ => uninitialized o

/-- The receiver and the count it keeps. -/
def count (call : HostCall F) : HostProgram F (ObjectRef F × Int) := do
  let o ← call.receiver
  getState o fun
    | some (.count n) => done (o, n)
    | _ => uninitialized o

end HostCall

/-- What the names of native functions do. -/
class HostFunctions (F : Type) where
  perform : F → HostCall F → HostProgram F (Value F)

end Middleweight
