import Middleweight.Members.Resolution
import Middleweight.Types.OperatorRule

/-!
# Findings of analysis

What analysis can object to, and how it is reported. A `Finding` is an objection and its place; at
the end it becomes an `AnalysisError`, which also names the source.
-/

namespace Middleweight

/-- What analysis objects to. -/
inductive Issue where
  | type (e : TypeError)
  | genericArguments (name : String)
  | noMain
  | severalMains
  | fieldRedeclared (field className : String)
  | localRedeclared (name : String)
  | localUndeclared (name : String)
  | assignmentToThis
  /-- Types are given as text, since one side can be `void`. -/
  | typeMismatch (expected actual : String)
  | notStatement
  | classAsValue (name : String)
  | namespaceAsValue (path : String)
  | noField (field owner : String)
  | staticFieldReadOnly (owner field : String)
  | newOfParameter (name : String)
  | noValue (method : String)
  | noVariable (name : String)
  | stepTarget (op : StepOp)
  | ternaryMismatch (thenType elseType : Ty)
  | binaryOperands (symbol : String) (rule : OperatorRule) (lhs rhs : Ty)
  | unaryOperand (symbol : String) (rule : OperatorRule) (operand : Ty)
  | noReturn (returnType : Ty)
  | ambiguous (a : Ambiguity)
  | missing (m : Missing)
deriving Inhabited

namespace Issue

def message : Issue → String
  | type e => e.message
  | genericArguments name => "Generic parameter '" ++ name ++ "' can't take generic arguments"
  | noMain => "No `static void main()` method found."
  | severalMains => "Multiple main() methods defined."
  | fieldRedeclared field className =>
    "Field '" ++ field ++ "' already declared in '" ++ className ++ "'."
  | localRedeclared name => "Local variable '" ++ name ++ "' already declared."
  | localUndeclared name => "Local variable '" ++ name ++ "' not declared."
  | assignmentToThis => "Can't assign to 'this'."
  | typeMismatch expected actual =>
    "'" ++ expected ++ "' type expected, got '" ++ actual ++ "'."
  | notStatement => "Not a statement."
  | classAsValue name => "'" ++ name ++ "' is a class, not a value."
  | namespaceAsValue path => "'" ++ path ++ "' is a namespace, not a value."
  | noField field owner => "No field '" ++ field ++ "' on '" ++ owner ++ "'."
  | staticFieldReadOnly owner field =>
    "Static field '" ++ owner ++ "." ++ field ++ "' is read-only."
  | newOfParameter name => "Can't instantiate generic parameter '" ++ name ++ "'."
  | noValue method => "'" ++ method ++ "' does not return a value."
  | noVariable name => "No such variable '" ++ name ++ "'."
  | stepTarget op => "'" ++ op.symbol ++ "' needs a variable or a field."
  | ternaryMismatch thenType elseType =>
    "Both possibilities in a ternary operator should match. Got '" ++ thenType.text ++
      "' and '" ++ elseType.text ++ "'."
  | binaryOperands symbol rule lhs rhs =>
    "'" ++ symbol ++ "' is only valid on " ++ rule.describe ++
      " (both operands must be the same), not " ++ lhs.text ++ " and " ++ rhs.text ++ "."
  | unaryOperand symbol rule operand =>
    "'" ++ symbol ++ "' is only valid on " ++ rule.describe ++ ", not " ++ operand.text ++ "."
  | noReturn returnType =>
    "Method has no return statement and non-void return type '" ++ returnType.text ++ "'."
  | ambiguous a => a.message
  | missing m => m.message

/-- Whether the objection is that a type is unknown; all others count as insane programs. -/
def isUnknownType : Issue → Bool
  | type (.unknownType _ _) => true
  | _ => false

/-- The code under which an objection is reported. -/
def code (i : Issue) : String :=
  if i.isUnknownType then "mwj::analysis::unknown_type" else "mwj::analysis::sanity"

end Issue

/-- An objection and its place. -/
structure Finding where
  issue : Issue
  span : Span
deriving Inhabited

namespace Finding

/-- The finding that a type is wrong, at the place of the type. -/
def ofType (e : TypeError) : Finding := ⟨.type e, e.span⟩

end Finding

/-- Results of analysis. -/
abbrev Checked (α : Type) := Except Finding α

/-- Objects at a place. -/
def objection {α : Type} (span : Span) (issue : Issue) : Checked α := .error ⟨issue, span⟩

/-- Takes an error of types for a finding. -/
def typed {α : Type} : Except TypeError α → Checked α
  | .ok a => .ok a
  | .error e => .error (.ofType e)

/-- The first objection to a program, with the place in its source. -/
structure AnalysisError where
  issue : Issue
  location : Location
deriving Inhabited

namespace AnalysisError

def message (e : AnalysisError) : String := e.issue.message

def code (e : AnalysisError) : String := e.issue.code

end AnalysisError

end Middleweight
