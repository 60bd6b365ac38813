import Middleweight.Source.Span

/-!
# Errors of types

What can be wrong with a written type or a class, where, and how it is reported.
-/

namespace Middleweight

/-- What is wrong with a type or a class. -/
inductive TypeError where
  | unknownType (name : String) (span : Span)
  | genericArity (name : String) (expected given : Nat) (span : Span)
  | duplicateClass (name : String) (span : Span)
  | inheritanceCycle (name : String) (span : Span)
  | genericBase (className base : String) (span : Span)
  | unboundGeneric (name : String) (span : Span)
  /-- The base classes of a class lead back to one of them. -/
  | endlessBases (name : String) (span : Span)
deriving DecidableEq, Inhabited

namespace TypeError

def span : TypeError → Span
  | unknownType _ s | genericArity _ _ _ s | duplicateClass _ s | inheritanceCycle _ s
  | genericBase _ _ s | unboundGeneric _ s | endlessBases _ s => s

def message : TypeError → String
  | unknownType name _ => "Unknown type '" ++ name ++ "'"
  | genericArity name expected given _ =>
    "Type '" ++ name ++ "' expects " ++ toString expected ++ " generic argument(s), got " ++
      toString given
  | duplicateClass name _ => "Class '" ++ name ++ "' is defined more than once"
  | inheritanceCycle name _ => "Inheritance cycle through class '" ++ name ++ "'"
  | genericBase className base _ =>
    "Class '" ++ className ++ "' can't extend generic parameter '" ++ base ++ "'"
  | unboundGeneric name _ => "Generic parameter '" ++ name ++ "' is not bound to a type"
  | endlessBases name _ => "The base classes of '" ++ name ++ "' never end"

/-- The code under which an error is reported. -/
def code : TypeError → String
  | unknownType .. => "mwj::types::unknown_type"
  | genericArity .. => "mwj::types::generic_arity"
  | duplicateClass .. => "mwj::types::duplicate_class"
  | inheritanceCycle .. => "mwj::types::inheritance_cycle"
  | genericBase .. => "mwj::types::generic_base"
  | unboundGeneric .. => "mwj::types::unbound_generic"
  | endlessBases .. => "mwj::types::endless_bases"

end TypeError

end Middleweight
