import Middleweight.Members.Source

/-!
# Why written types do not lower

A written type that does not lower names nothing, or it has another number of arguments than what it
names has parameters. Signatures fail for no other reason.

* `LoweringContext.lower_error` : written types
* `ClassTable.signatures_error` : the signatures of members
-/

namespace Middleweight

/-- Whether an error is about a name that stands for nothing, or for something of another arity. -/
def TypeError.isMisnamed : TypeError → Bool
  | unknownType _ _ | genericArity _ _ _ _ => true
  | _ => false

/-! ## Lowering -/

namespace LoweringContext

variable {ctx : LoweringContext} {params : TypeParams}

/--
A class name fails to lower only since it names no class, or one with another number of parameters.
-/
theorem className_error {e : TypeExpr} {err : TypeError} (h : ctx.className e = .error err) :
    err.isMisnamed = true := by
  unfold className at h
  split at h
  · cases h
    rfl
  · split at h
    · cases h
      rfl
    · split at h
      · cases h
      · cases h
        rfl

mutual

/-- So does a written type. -/
theorem lower_error : ∀ {e : TypeExpr} {err : TypeError}, ctx.lower params e = .error err →
    err.isMisnamed = true
  | ⟨written, generics, span⟩, err, h => by
    rw [lower] at h
    split at h
    · split at h
      · cases h
      · cases h
        rfl
    · split at h
      · next hname =>
        cases h
        exact className_error hname
      · split at h
        · next hargs =>
          cases h
          exact lowerAll_error hargs
        · cases h

theorem lowerAll_error : ∀ {es : List TypeExpr} {err : TypeError},
    ctx.lowerAll params es = .error err → err.isMisnamed = true
  | [], err, h => by
    rw [lowerAll] at h
    cases h
  | e :: rest, err, h => by
    rw [lowerAll] at h
    split at h
    · next he =>
      cases h
      exact lower_error he
    · split at h
      · next hrest =>
        cases h
        exact lowerAll_error hrest
      · cases h

end

end LoweringContext

/-! ## Members -/

namespace ClassTable

variable {F : Type} {t : ClassTable F}

/-- A template is missing only under a name that is not declared. -/
theorem template_error {name : String} {span : Span} {err : TypeError}
    (h : t.template name span = .error err) : err.isMisnamed = true := by
  unfold template at h
  split at h
  · cases h
  · cases h
    rfl

theorem lowerParams_error {params : TypeParams} : ∀ {es : List (String × TypeExpr)}
    {err : TypeError}, t.lowerParams params es = .error err → err.isMisnamed = true := by
  intro es
  induction es with
  | nil =>
    intro err h
    cases h
  | cons e rest ih =>
    intro err h
    obtain ⟨name, ty⟩ := e
    rw [lowerParams] at h
    split at h
    · next hlower =>
      cases h
      exact LoweringContext.lower_error hlower
    · split at h
      · next hrest =>
        cases h
        exact ih hrest
      · cases h

/-- A signature fails to lower only at one of its types. -/
theorem signature_error {m : Member F} {params : TypeParams} {err : TypeError}
    (h : t.signature m params = .error err) : err.isMisnamed = true := by
  rw [signature] at h
  split at h
  · next hparams =>
    cases h
    exact lowerParams_error hparams
  · split at h
    · cases h
    · split at h
      · next hlower =>
        cases h
        exact LoweringContext.lower_error hlower
      · cases h

theorem signatures_error {params : TypeParams} : ∀ {ms : List (Member F)} {err : TypeError},
    t.signatures params ms = .error err → err.isMisnamed = true := by
  intro ms
  induction ms with
  | nil =>
    intro err h
    cases h
  | cons m rest ih =>
    intro err h
    rw [signatures] at h
    split at h
    · next hsig =>
      cases h
      exact signature_error hsig
    · split at h
      · next hrest =>
        cases h
        exact ih hrest
      · cases h

end ClassTable

end Middleweight
