/-!
# Types

A type is a class with type arguments or a generic parameter, which is unbound or bound to a type. A
bound parameter stands for its bound everywhere: `Ty.resolved` replaces it, and the text of a type
shows the bound.

Two parameters of one name count as the same type whatever their bounds, so sameness of types
(`Ty.same`, also `==`) is coarser than equality.
-/

namespace Middleweight

/-- A type. -/
inductive Ty where
  | cls (name : String) (args : List Ty)
  | unbound (name : String)
  | bound (name : String) (ty : Ty)
deriving Inhabited

/-- A class with type arguments. -/
structure ClassTy where
  name : String
  args : List Ty := []
deriving Inhabited

namespace Ty

/-! ## The types the language itself knows -/

def objectName : String := "java.lang.Object"
def stringName : String := "java.lang.String"
def intName : String := "int"
def floatName : String := "float"
def booleanName : String := "boolean"
def nullName : String := "null"

/-- A class type without arguments. -/
def named (name : String) : Ty := cls name []

def object : Ty := named objectName
def string : Ty := named stringName
def int : Ty := named intName
def float : Ty := named floatName
def boolean : Ty := named booleanName

/-- The type of the literal `null`. -/
def null : Ty := named nullName

/-! ## Observations -/

/-- The name of the class or of the parameter. -/
def name : Ty → String
  | cls n _ | unbound n | bound n _ => n

/-- Whether a type is the class of a given name, whatever its arguments. -/
def isClass (n : String) : Ty → Bool
  | cls m _ => m == n
  | _ => false

def isNull (t : Ty) : Bool := t.isClass nullName

def isUnbound : Ty → Bool
  | unbound _ => true
  | _ => false

/-- A type without the bound parameters around it. -/
def head : Ty → Ty
  | bound _ t => t.head
  | t => t

mutual

/-- Replaces every bound parameter by its bound. -/
def resolved : Ty → Ty
  | cls n args => cls n (resolvedAll args)
  | unbound n => unbound n
  | bound _ t => t.resolved

def resolvedAll : List Ty → List Ty
  | [] => []
  | t :: rest => t.resolved :: resolvedAll rest

end

mutual

/-- The first unbound parameter in a type. -/
def firstUnbound? : Ty → Option String
  | cls _ args => firstUnboundIn? args
  | unbound n => some n
  | bound _ t => t.firstUnbound?

def firstUnboundIn? : List Ty → Option String
  | [] => none
  | t :: rest => t.firstUnbound? <|> firstUnboundIn? rest

end

/-- Whether no unbound parameter occurs in a type. -/
def isConcrete (t : Ty) : Bool := t.firstUnbound?.isNone

mutual

/-- A type as text; a bound parameter shows its bound. -/
def text : Ty → String
  | cls n args =>
    match texts args with
    | [] => n
    | ts => n ++ "<" ++ String.intercalate ", " ts ++ ">"
  | unbound n => n
  | bound _ t => t.text

def texts : List Ty → List String
  | [] => []
  | t :: rest => t.text :: texts rest

end

mutual

/-- Sameness of types; parameters are the same when their names are. -/
def same : Ty → Ty → Bool
  | cls n args, cls m brgs => n == m && sameAll args brgs
  | unbound n, unbound m => n == m
  | unbound n, bound m _ => n == m
  | bound n _, unbound m => n == m
  | bound n _, bound m _ => n == m
  | _, _ => false

def sameAll : List Ty → List Ty → Bool
  | [], [] => true
  | t :: ts, u :: us => t.same u && sameAll ts us
  | _, _ => false

end

instance : BEq Ty := ⟨same⟩

/-- Types as a list between semicolons. -/
def listText (ts : List Ty) : String := String.intercalate "; " (texts ts)

/-! ## Small laws -/

mutual

theorem resolved_resolved : ∀ t : Ty, t.resolved.resolved = t.resolved
  | cls n args => by simp [resolved, resolvedAll_resolvedAll args]
  | unbound n => by simp [resolved]
  | bound _ t => by simp [resolved, resolved_resolved t]

theorem resolvedAll_resolvedAll : ∀ ts : List Ty, resolvedAll (resolvedAll ts) = resolvedAll ts
  | [] => by simp [resolvedAll]
  | t :: rest => by
    simp [resolvedAll, resolved_resolved t, resolvedAll_resolvedAll rest]

end

theorem resolvedAll_eq_map (ts : List Ty) : resolvedAll ts = ts.map resolved := by
  induction ts with
  | nil => simp [resolvedAll]
  | cons t rest ih => simp [resolvedAll, ih]

mutual

theorem firstUnbound?_resolved : ∀ t : Ty, t.resolved.firstUnbound? = t.firstUnbound?
  | cls n args => by simp [resolved, firstUnbound?, firstUnboundIn?_resolvedAll args]
  | unbound n => by simp [resolved]
  | bound _ t => by simp [resolved, firstUnbound?, firstUnbound?_resolved t]

theorem firstUnboundIn?_resolvedAll :
    ∀ ts : List Ty, firstUnboundIn? (resolvedAll ts) = firstUnboundIn? ts
  | [] => by simp [resolvedAll]
  | t :: rest => by
    simp [resolvedAll, firstUnboundIn?, firstUnbound?_resolved t,
      firstUnboundIn?_resolvedAll rest]

end

end Ty

namespace ClassTy

def toTy (c : ClassTy) : Ty := .cls c.name c.args

def text (c : ClassTy) : String := c.toTy.text

/-- Sameness of class types. -/
def same (a b : ClassTy) : Bool := a.name == b.name && Ty.sameAll a.args b.args

instance : BEq ClassTy := ⟨same⟩

end ClassTy

end Middleweight
