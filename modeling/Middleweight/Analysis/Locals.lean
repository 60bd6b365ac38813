import Middleweight.Types.Ty

/-!
# Local names

The names that are declared at a point of a body, in nested levels, with their types. A name may be
declared once per level, and an inner one hides those further out.
-/

namespace Middleweight

/-- Levels of local names, the innermost first. -/
abbrev Locals := List (List (String × Ty))

namespace Locals

/-- The type of a name, at the innermost level that has it. -/
def lookup (name : String) : Locals → Option Ty
  | [] => none
  | level :: outer =>
    match level.lookup name with
    | some ty => some ty
    | none => lookup name outer

/-- Declares a name at the innermost level; `none` if that level has it already. -/
def define? (name : String) (ty : Ty) : Locals → Option Locals
  | [] => some [[(name, ty)]]
  | level :: outer =>
    if (level.lookup name).isSome then none else some (((name, ty) :: level) :: outer)

/-- Opens a level. -/
def push (l : Locals) : Locals := [] :: l

end Locals

end Middleweight
