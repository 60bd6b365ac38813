import Middleweight.Engine.Operators
import Middleweight.Members.Resolution

/-!
# Errors of a run

Why a run stopped, where, and which calls were open at that moment. The traceback lists the open
calls from the outermost to the innermost one, then the place and the reason.
-/

namespace Middleweight

/-- An open call: what is called, and where the call stands. -/
structure Frame where
  description : String
  location : Location
deriving DecidableEq, Inhabited

/-- An operation that a value does not allow. -/
inductive InvalidOperation (F : Type) where
  | operator (e : OperatorError F)
  | condition (v : Value F)
  /-- A target of `++` or `--` that is no variable and no field; the target itself is not kept. -/
  | stepTarget (op : StepOp)
  | assignmentToThis
  | staticFieldReadOnly (owner field : String)
  | namespaceAsValue (path : String)
  /-- A failure that a function of the host reports. -/
  | host (message : String)
  | flush (message : String)

/--
What is reported of such an operation. For a target that cannot be stepped `<expression>` stands in
the place of its syntax tree, with all places and types in it as they are written.
-/
def InvalidOperation.message {F : Type} : InvalidOperation F → String
  | operator e => e.message
  | condition v => "Condition must be a boolean, got " ++ v.shown
  | stepTarget op => "Can't apply '" ++ op.symbol ++ "' to <expression>"
  | assignmentToThis => "Can't assign to 'this'"
  | staticFieldReadOnly owner field =>
    "Static field '" ++ owner ++ "." ++ field ++ "' is read-only"
  | namespaceAsValue path => "'" ++ path ++ "' is a namespace, not a value"
  | host message => message
  | flush message => "failed to flush output: " ++ message

/-- Why a run stopped. -/
inductive Fault (F : Type) where
  | ambiguousMember (a : Ambiguity)
  | noSuchMember (m : Missing)
  | nullDereference (member : String)
  | type (e : TypeError)
  | undefinedVariable (name : String)
  | invalid (op : InvalidOperation F)

namespace Fault

variable {F : Type}

def message : Fault F → String
  | ambiguousMember a => a.message
  | noSuchMember m => m.message
  | nullDereference member => "Null dereference accessing '" ++ member ++ "'"
  | type e => e.message
  | undefinedVariable name => "Undefined variable '" ++ name ++ "'"
  | invalid op => op.message

/-- The code under which a fault is reported. -/
def code : Fault F → String
  | ambiguousMember _ => "mwj::runtime::ambiguous_member"
  | noSuchMember _ => "mwj::runtime::no_such_member"
  | nullDereference _ => "mwj::runtime::null_dereference"
  | type e => e.code
  | undefinedVariable _ => "mwj::runtime::undefined_variable"
  | invalid _ => "mwj::runtime::invalid_operation"

end Fault

/-- A fault with its place and the calls that were open, the outermost first. -/
structure RuntimeError (F : Type) where
  fault : Fault F
  location : Location
  stack : List Frame

namespace RuntimeError

variable {F : Type}

def message (e : RuntimeError F) : String := e.fault.message

def code (e : RuntimeError F) : String := e.fault.code

def traceback (e : RuntimeError F) : String :=
  let lines := e.stack.map fun f => "  " ++ f.location.text ++ ", in " ++ f.description ++ "\n"
  "Traceback (most recent call last):\n" ++ String.join lines ++ e.location.text ++ ": " ++
    e.message

end RuntimeError

end Middleweight
