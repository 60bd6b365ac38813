import Middleweight.Proofs.ClassTable.Build
import Middleweight.Proofs.Engine.Memo
import Middleweight.Proofs.Members.Errors
import Middleweight.Proofs.Members.Fit
import Middleweight.Proofs.Types.Open

/-!
# Closed tables

A table is closed when the base and the fields of every class name no parameters but those of the
class. The tables of programs are closed. Over a closed table no concrete type leads to an unbound
parameter: not when its class is made, and not when a written type is looked up.

* `ClassTable.closed_of_build` : the table of a program is closed
* `ClassTable.Closed.classFor_error`, `ClassTable.Closed.meaning_error` : why there may be no class
* `ClassTable.resolveMethod_error`, `ClassTable.resolveConstructor_error` : why there is no member
-/

namespace Middleweight

variable {F : Type}

/-- Whether an error is about an unbound parameter. -/
def TypeError.isUnboundGeneric : TypeError → Bool
  | unboundGeneric _ _ => true
  | _ => false

theorem TypeError.isUnboundGeneric_of_isMisnamed {e : TypeError} (h : e.isMisnamed = true) :
    e.isUnboundGeneric = false := by
  cases e <;> first | rfl | cases h

/-! ## Lowering -/

namespace LoweringContext

variable {ctx : LoweringContext} {params : TypeParams}

/-- The base of a class is open in the parameters of the class. -/
theorem allOpenIn_lowerBase {className : String} {names : List String} {base : Option TypeExpr}
    {ty : ClassTy} (h : ctx.lowerBase className (TypeParams.unbound names) base = .ok (some ty)) :
    Ty.AllOpenIn names ty.args := by
  cases base with
  | none =>
    rw [lowerBase] at h
    split at h
    · cases h
    · cases h
      exact Ty.allOpenIn_nil
  | some e =>
    rw [lowerBase] at h
    split at h
    · cases h
    · obtain ⟨ty', hclass, heq⟩ := ok_of_map h
      cases heq
      unfold lowerClass at hclass
      split at hclass
      · cases hclass
      · split at hclass
        · cases hclass
        · next args hargs =>
          cases hclass
          exact allOpenIn_lowerAll (TypeParams.openIn_unbound names) hargs

end LoweringContext

namespace ClassTable

theorem openIn_lowerFields {ctx : LoweringContext} {params : TypeParams} {names : List String}
    (hp : params.OpenIn names) : ∀ {ds : List FieldDecl} {fs : List FieldTemplate},
    lowerFields ctx params ds = .ok fs → ∀ f ∈ fs, f.ty.OpenIn names := by
  intro ds
  induction ds with
  | nil =>
    intro fs h f hf
    cases h
    cases hf
  | cons d rest ih =>
    intro fs h f hf
    rw [lowerFields] at h
    split at h
    · cases h
    · next ty hty =>
      split at h
      · cases h
      · next fs' hfs =>
        cases h
        rcases List.mem_cons.mp hf with rfl | hf
        · exact LoweringContext.openIn_lower hp hty
        · exact ih hfs f hf

/-! ## Closed tables -/

/-- The base and the fields of every class name no parameters but those of the class. -/
structure Closed (t : ClassTable F) : Prop where
  base : ∀ {name : String} {c : Template F} {base : ClassTy}, t.get? name = some c →
    c.base = some base → Ty.AllOpenIn c.generics base.args
  fields : ∀ {name : String} {c : Template F}, t.get? name = some c →
    ∀ f ∈ c.fields, f.ty.OpenIn c.generics

theorem closed_of_build {p : Program} {natives : NativeRegistry F} {t : ClassTable F}
    (h : build p natives = .ok t) : t.Closed where
  base := by
    intro name c base hc hb
    rcases mem_classes_cases h (get?_mem hc) with ⟨q, rfl⟩ | ⟨n, -, hmade⟩ | ⟨d, -, hmade⟩
    · cases hb
      exact Ty.allOpenIn_nil
    · obtain ⟨base', hbase, rfl⟩ := nativeTemplate_ok hmade
      cases hb
      exact LoweringContext.allOpenIn_lowerBase hbase
    · obtain ⟨base', fields, hbase, -, rfl⟩ := declaredTemplate_ok hmade
      cases hb
      exact LoweringContext.allOpenIn_lowerBase hbase
  fields := by
    intro name c hc
    rcases mem_classes_cases h (get?_mem hc) with ⟨q, rfl⟩ | ⟨n, -, hmade⟩ | ⟨d, -, hmade⟩
    · intro f hf
      cases hf
    · obtain ⟨base', -, rfl⟩ := nativeTemplate_ok hmade
      intro f hf
      cases hf
    · obtain ⟨base', fields, -, hfields, rfl⟩ := declaredTemplate_ok hmade
      exact openIn_lowerFields (TypeParams.openIn_unbound _) hfields

variable {t : ClassTable F}

/-- Over a closed table the base of an instantiation with ground arguments has ground arguments. -/
theorem Closed.allGround_baseKey (ht : t.Closed) {name : String} {c : Template F} {base : ClassTy}
    (hc : t.get? name = some c) (hb : c.base = some base) {args : List Ty}
    (hargs : Ty.AllGround args) (hlen : c.generics.length = args.length) :
    Ty.AllGround (c.baseKey base args).args := by
  have hground : Ty.AllGround (Ty.substituteAll (Bindings.zip c.generics args) base.args) :=
    Ty.allGround_substituteAll (Bindings.bindsAll_zip hargs hlen) (ht.base hc hb)
  show Ty.AllGround (Ty.resolvedAll _)
  rw [ClassTy.substitute, Ty.resolvedAll_of_allGround hground]
  exact hground

theorem Closed.instantiation_error (ht : t.Closed) {span : Span} : ∀ {fuel : Nat} {key : ClassTy}
    {err : TypeError}, Ty.AllGround key.args → t.instantiation span fuel key = .error err →
    err.isUnboundGeneric = false := by
  intro fuel
  induction fuel with
  | zero =>
    intro key err _ h
    cases h
    rfl
  | succ fuel ih =>
    intro key err hk h
    rw [instantiation] at h
    split at h
    · next htemplate =>
      cases h
      exact TypeError.isUnboundGeneric_of_isMisnamed (template_error htemplate)
    · next c htemplate =>
      have hc := template_ok_iff.mp htemplate
      split at h
      · cases h
        rfl
      · next hlen =>
        have hlen : c.generics.length = key.args.length := by simpa using hlen
        split at h
        · cases h
        · next base hb =>
          have hground := ht.allGround_baseKey hc hb hk hlen
          rw [Ty.firstUnboundIn?_of_allGround hground] at h
          dsimp only at h
          cases hrec : t.instantiation span fuel (c.baseKey base key.args) with
          | error e =>
            rw [hrec] at h
            cases h
            exact ih hground hrec
          | ok b =>
            rw [hrec] at h
            cases h

/-- A concrete type may have no class, but not because of an unbound parameter. -/
theorem Closed.classFor_error (ht : t.Closed) {ty : Ty} (hty : ty.firstUnbound? = none)
    {span : Span} {err : TypeError} (h : t.classFor ty span = .error err) : err.isUnboundGeneric = false := by
  have hground := Ty.isGround_resolved hty
  unfold classFor at h
  split at h
  · next name args hres =>
    rw [hres, Ty.isGround_cls] at hground
    rw [Ty.resolvedAll_of_allGround hground, Ty.firstUnboundIn?_of_allGround hground] at h
    exact ht.instantiation_error hground h
  · next hres =>
    rw [hres] at hground
    exact absurd hground (by simp [Ty.IsGround])
  · next hres =>
    rw [hres] at hground
    exact absurd hground (by simp [Ty.IsGround])

theorem view_error {span : Span} : ∀ {fuel : Nat} {name : String} {err : TypeError},
    t.view span fuel name = .error err → err.isUnboundGeneric = false := by
  intro fuel
  induction fuel with
  | zero =>
    intro name err h
    cases h
    rfl
  | succ fuel ih =>
    intro name err h
    rw [view] at h
    split at h
    · next htemplate =>
      cases h
      exact TypeError.isUnboundGeneric_of_isMisnamed (template_error htemplate)
    · split at h
      · cases h
      · next c _ base _ =>
        cases hrec : t.view span fuel base.name with
        | error e =>
          rw [hrec] at h
          cases h
          exact ih hrec
        | ok b =>
          rw [hrec] at h
          cases h

/-! ## Written types -/

theorem Closed.classNamed_error (ht : t.Closed) {name : String} {args : List Ty}
    (hargs : Ty.AllGround args) {span : Span} {err : TypeError}
    (h : t.classNamed name args span = .error err) : err.isUnboundGeneric = false := by
  unfold classNamed at h
  split at h
  · cases h
    rfl
  · exact ht.classFor_error (Ty.firstUnbound?_of_isGround (Ty.isGround_cls.mpr hargs)) h

mutual

/-- A written type may mean no class, but not because of an unbound parameter. -/
theorem Closed.meaning_error (ht : t.Closed) {params : TypeParams} (hp : params.Concrete) :
    ∀ {e : TypeExpr} {err : TypeError}, t.meaning params e = .error err →
    err.isUnboundGeneric = false
  | ⟨name, generics, span⟩, err, h => by
    rw [meaning] at h
    split at h
    · next hget => exact ht.classFor_error (hp _ (mem_of_lookup hget)) h
    · split at h
      · next hargs =>
        cases h
        exact ht.meanings_error hp hargs
      · next hargs => exact ht.classNamed_error (allGround_meanings hargs) h

theorem Closed.meanings_error (ht : t.Closed) {params : TypeParams} (hp : params.Concrete) :
    ∀ {es : List TypeExpr} {err : TypeError}, t.meanings params es = .error err →
    err.isUnboundGeneric = false
  | [], err, h => by
    rw [meanings] at h
    cases h
  | e :: rest, err, h => by
    rw [meanings] at h
    split at h
    · next he =>
      cases h
      exact ht.meaning_error hp he
    · split at h
      · next hrest =>
        cases h
        exact ht.meanings_error hp hrest
      · cases h

end

/-! ## Members -/

theorem methodFrom_error {start : RuntimeClass F} {name : String} {isStatic : Bool}
    {args : List Ty} : ∀ {fuel : Nat} {c : RuntimeClass F} {err : TypeError},
    t.runtimeMembers.methodFrom t start name isStatic args fuel c = .error err →
    err.isUnboundGeneric = false := by
  intro fuel
  induction fuel with
  | zero =>
    intro c err h
    cases h
    rfl
  | succ fuel ih =>
    intro c err h
    rw [MemberSource.methodFrom] at h
    split at h
    · next hmethods =>
      cases h
      exact TypeError.isUnboundGeneric_of_isMisnamed (signatures_error hmethods)
    · split at h
      · cases h
      · split at h
        · next hbase => cases hbase
        · exact ih h
        · cases h
      · cases h

/-- There may be no method to choose, but not because of an unbound parameter. -/
theorem resolveMethod_error {c : RuntimeClass F} {name : String} {isStatic : Bool}
    {args : List Ty} {err : TypeError}
    (h : t.runtimeMembers.resolveMethod t c name isStatic args = .error err) :
    err.isUnboundGeneric = false :=
  methodFrom_error h

theorem resolveConstructor_error {c : RuntimeClass F} {args : List Ty} {err : TypeError}
    (h : t.runtimeMembers.resolveConstructor t c args = .error err) :
    err.isUnboundGeneric = false := by
  rw [MemberSource.resolveConstructor] at h
  split at h
  · next hconstructors =>
    cases h
    exact TypeError.isUnboundGeneric_of_isMisnamed (signatures_error hconstructors)
  · split at h
    · cases h
    · dsimp only at h
      split at h <;> cases h

end ClassTable

end Middleweight
