import Middleweight.Proofs.ClassTable.Subtype
import Middleweight.Proofs.Registry.Memo
import Middleweight.Proofs.Registry.Sessions

/-!
# Bound parameters are transparent

The checker sees types in which parameters are bound, and a run sees the same types resolved.
Nothing that is asked of a type tells the two apart: not what it fits, not what becomes of it when
types are put in, and not the class that it has.

* `Registry.classOf_eq_of_resolved_eq` : types that are the same when resolved have one class
* `bounds_transparent` : all that is asked of types
-/

namespace Middleweight

variable {F : Type} {t : ClassTable F}

namespace ClassTable

/-- The class of a type is that of the resolved type. -/
theorem classFor_resolved (t : ClassTable F) (ty : Ty) (span : Span) :
    t.classFor ty.resolved span = t.classFor ty span := by
  rw [classFor, classFor, Ty.resolved_resolved]

end ClassTable

namespace Registry

/-- A registry answers alike for a type and the resolved one, and it remembers the same of both. -/
theorem classOf_resolved (r : Registry F) (ty : Ty) (span : Span) :
    r.classOf t ty.resolved span = r.classOf t ty span := by
  rw [classOf, classOf, Ty.resolved_resolved]

/--
Registries of one table, with whatever memos, give the same class for types that are the same once
they are resolved.
-/
theorem classOf_eq_of_resolved_eq {r r' : Registry F} (hr : r.Valid t) (hr' : r'.Valid t)
    {a b : Ty} (h : a.resolved = b.resolved) (span : Span) :
    given (r.classOf t a span) = given (r'.classOf t b span) :=
  calc given (r.classOf t a span)
      = t.classFor a.resolved span := by rw [classOf_eq hr, t.classFor_resolved]
    _ = t.classFor b.resolved span := by rw [h]
    _ = given (r'.classOf t b span) := by rw [classOf_eq hr', t.classFor_resolved]

end Registry

/--
Bound parameters may stand anywhere in a type, in arguments and in other bounds. Resolving them away
changes neither what the type fits and is fit by, nor what it becomes when types are put in, nor the
class it has: a registry answers alike for both types and is left alike, and the answers are the
same also after different requests. And every type fits itself.
-/
theorem bounds_transparent (t : ClassTable F) (candidate ty : Ty) :
    t.check candidate ty = t.check candidate.resolved ty.resolved ∧
      (∀ b : Bindings, ty.substitute b = ty.resolved.substitute b) ∧
      (∀ (r : Registry F) (span : Span), r.classOf t ty span = r.classOf t ty.resolved span) ∧
      (∀ (calls calls' : List Request) (span : Span),
        ((Registry.after t {} calls).classOf t ty span).map Prod.fst =
          ((Registry.after t {} calls').classOf t ty.resolved span).map Prod.fst) ∧
      t.check ty ty = true := by
  have hresolved := ty.resolved_resolved
  refine ⟨?_, fun b => (ty.substitute_resolved b).symm,
    fun r span => (r.classOf_resolved ty span).symm, fun calls calls' span => ?_, t.check_self ty⟩
  · exact ClassTable.check_eq_of_resolved_eq candidate.resolved_resolved.symm hresolved.symm
  · have hr : (Registry.after t {} calls).Valid t := (Registry.Reachable.empty.after).valid
    have hr' : (Registry.after t {} calls').Valid t := (Registry.Reachable.empty.after).valid
    exact Registry.classOf_eq_of_resolved_eq hr hr' hresolved.symm span

end Middleweight
