import Middleweight.ClassTable.Imports
import Middleweight.Types.Binding

/-!
# Lowering written types

A written type becomes a type: the name of a parameter in scope becomes that parameter, any other
name is looked up among the imports and takes as many arguments as its class has parameters.
-/

namespace Middleweight

/-- What lowering has to know of classes: full names, and numbers of parameters. -/
structure LoweringContext where
  imports : ImportTable
  arity : String → Option Nat

namespace LoweringContext

/-- The full name of the class that a written type names, if it has as many arguments as it should. -/
def className (ctx : LoweringContext) (t : TypeExpr) : Except TypeError String :=
  match ctx.imports.resolve? t.name with
  | none => .error (.unknownType t.name t.span)
  | some name =>
    match ctx.arity name with
    | none => .error (.unknownType t.name t.span)
    | some expected =>
      if expected = t.generics.length then .ok name
      else .error (.genericArity name expected t.generics.length t.span)

mutual

/-- Lowers a written type under the parameters in scope. -/
def lower (ctx : LoweringContext) (params : TypeParams) : TypeExpr → Except TypeError Ty
  | ⟨written, generics, span⟩ =>
    match params.get? written with
    | some ty =>
      if generics.isEmpty then .ok ty
      else .error (.genericArity written 0 generics.length span)
    | none =>
      match ctx.className ⟨written, generics, span⟩ with
      | .error e => .error e
      | .ok name =>
        match lowerAll ctx params generics with
        | .error e => .error e
        | .ok args => .ok (.cls name args)

/-- Lowers written types from left to right, up to the first that fails. -/
def lowerAll (ctx : LoweringContext) (params : TypeParams) :
    List TypeExpr → Except TypeError (List Ty)
  | [] => .ok []
  | t :: rest =>
    match lower ctx params t with
    | .error e => .error e
    | .ok ty =>
      match lowerAll ctx params rest with
      | .error e => .error e
      | .ok tys => .ok (ty :: tys)

end

/-- Lowers a written type that is known not to name a parameter. -/
def lowerClass (ctx : LoweringContext) (params : TypeParams) (t : TypeExpr) :
    Except TypeError ClassTy :=
  match ctx.className t with
  | .error e => .error e
  | .ok name =>
    match ctx.lowerAll params t.generics with
    | .error e => .error e
    | .ok args => .ok ⟨name, args⟩

/-- A class without an `extends` clause extends the root class, which itself extends nothing. -/
def lowerBase (ctx : LoweringContext) (className : String) (params : TypeParams) :
    Option TypeExpr → Except TypeError (Option ClassTy)
  | none => .ok (if className = Ty.objectName then none else some ⟨Ty.objectName, []⟩)
  | some base =>
    match params.get? base.name with
    | some _ => .error (.genericBase className base.name base.span)
    | none => (ctx.lowerClass params base).map some

/-- Outside the scope of parameters a written type lowers to a class. -/
theorem lower_eq_lowerClass (ctx : LoweringContext) {params : TypeParams} {t : TypeExpr}
    (h : params.get? t.name = none) :
    ctx.lower params t = (ctx.lowerClass params t).map ClassTy.toTy := by
  obtain ⟨written, generics, span⟩ := t
  simp only [lower, lowerClass, h]
  split
  · rfl
  · split <;> rfl

end LoweringContext

end Middleweight
