import Middleweight.Types.Ty

/-!
# Binding generic parameters

`TypeParams` are the parameters that a written type may name, innermost first. `Bindings` are the
types that a call gives to parameters: `Bindings.infer` reads them off formal and actual types side by
side, and `Ty.substitute` puts them in. Of two bindings of one name the later inferred one counts.
-/

namespace Middleweight

/-- Types for the names of parameters, the latest first. -/
abbrev Bindings := List (String × Ty)

namespace Bindings

mutual

/--
The types that the unbound parameters of a formal type take in an actual type, from left to right. A
null argument says nothing about a parameter. The formal type is the one that is walked.
-/
def fill (formal actual : Ty) : List (String × Ty) :=
  match formal with
  | .unbound name => if actual.isNull then [] else [(name, actual.resolved)]
  | .bound _ _ => []
  | .cls _ formals =>
    match actual.resolved with
    | .cls _ actuals => fillAll formals actuals
    | _ => []

def fillAll (formals actuals : List Ty) : List (String × Ty) :=
  match formals, actuals with
  | formal :: formals, actual :: actuals => fill formal actual ++ fillAll formals actuals
  | _, _ => []

end

/-- The bindings under which formal types become actual ones. -/
def infer (formals actuals : List Ty) : Bindings := (fillAll formals actuals).reverse

/-- Binds names to types in pairs; a repeated name takes the last of its types. -/
def zip (names : List String) (types : List Ty) : Bindings := (names.zip types).reverse

/-- Each name once, with the type that counts. -/
def distinct : Bindings → Bindings
  | [] => []
  | (name, ty) :: rest => (name, ty) :: (distinct rest).filter fun b => b.1 ≠ name

end Bindings

namespace Ty

mutual

/-- Puts bindings in for unbound parameters; a bound parameter gives way to its bound. -/
def substitute (bindings : Bindings) : Ty → Ty
  | cls n args => cls n (substituteAll bindings args)
  | bound _ t => substitute bindings t
  | unbound n => (bindings.lookup n).getD (unbound n)

def substituteAll (bindings : Bindings) : List Ty → List Ty
  | [] => []
  | t :: rest => substitute bindings t :: substituteAll bindings rest

end

theorem substituteAll_eq_map (b : Bindings) (ts : List Ty) :
    substituteAll b ts = ts.map (substitute b) := by
  induction ts with
  | nil => simp [substituteAll]
  | cons t rest ih => simp [substituteAll, ih]

end Ty

/-- Puts bindings into the arguments of a class type. -/
def ClassTy.substitute (bindings : Bindings) (c : ClassTy) : ClassTy :=
  ⟨c.name, Ty.substituteAll bindings c.args⟩

/-- The generic parameters that a written type may name, the innermost first. -/
abbrev TypeParams := List (String × Ty)

namespace TypeParams

/-- Puts names in scope as unbound parameters. -/
def pushUnbound (params : TypeParams) (names : List String) : TypeParams :=
  names.foldl (fun ps n => (n, Ty.unbound n) :: ps) params

/-- Names as unbound parameters. -/
def unbound (names : List String) : TypeParams := pushUnbound [] names

/-- Names as parameters bound to types, in pairs. -/
def bound (names : List String) (types : List Ty) : TypeParams :=
  ((names.zip types).map fun (n, t) => (n, Ty.bound n t)).reverse

/-- The type a name stands for. -/
def get? (params : TypeParams) (name : String) : Option Ty := params.lookup name

end TypeParams

end Middleweight
