import Middleweight.ClassTable.Subtype
import Middleweight.Proofs.Types.Ground

/-!
# What fits what

Fitting is reflexive, and it looks through bound parameters on both sides: a type fits what the
resolved one fits, and what fits a type fits the resolved one. What comes of putting types into an
expected type fits that type, whatever was put in.

* `ClassTable.check_eq_of_resolved_eq` : types that are the same once they are resolved fit alike
* `ClassTable.check_substitute` : an instance of a type fits the type
* `ClassTable.check_self` : a type fits itself
-/

namespace Middleweight

/-- Around a class or an unbound parameter stand bound parameters only, which give way. -/
theorem Ty.head_cases (ty : Ty) :
    (∃ n args, ty.head = .cls n args ∧ ty.resolved.head = .cls n (Ty.resolvedAll args)) ∨
    ∃ n, ty.head = .unbound n ∧ ty.resolved.head = .unbound n := by
  induction ty using Ty.rec (motive_2 := fun _ => True) with
  | cls n args => exact .inl ⟨n, args, rfl, by rw [resolved]; rfl⟩
  | unbound n => exact .inr ⟨n, rfl, by rw [resolved]; rfl⟩
  | bound n ty ih =>
    rw [head, resolved]
    exact ih
  | nil => trivial
  | cons _ _ _ _ => trivial

namespace ClassTable

variable {F : Type} {t : ClassTable F}

/-- Class types fit by their names and arguments; the type of `null` fits by the target alone. -/
theorem check_cls (t : ClassTable F) (a b : String) (args brgs : List Ty) :
    t.check (.cls a args) (.cls b brgs) =
      if a == Ty.nullName then (Primitive.ofName? b).isNone
      else t.related a b && t.checkAll args brgs := by
  rw [check]
  rfl

@[simp] theorem checkAll_nil (t : ClassTable F) (cs : List Ty) : t.checkAll cs [] = true := by
  cases cs <;> simp [checkAll]

@[simp] theorem checkAll_nil_left (t : ClassTable F) (us : List Ty) : t.checkAll [] us = true := by
  simp [checkAll]

/-! ## Bound parameters -/

mutual

/-- A type fits what its parameters stand for. -/
theorem check_resolved : ∀ (candidate target : Ty),
    t.check candidate.resolved target = t.check candidate target
  | _, .unbound _ => by rw [check, check]
  | candidate, .bound _ ty => by
    rw [check, check]
    exact check_resolved candidate ty
  | candidate, .cls name args => by
    rw [check, check]
    rcases candidate.head_cases with ⟨n, given, h1, h2⟩ | ⟨n, h1, h2⟩
    · rw [h1, h2]
      simp only [checkAll_resolvedAll given args]
    · rw [h1, h2]

theorem checkAll_resolvedAll : ∀ (candidates targets : List Ty),
    t.checkAll (Ty.resolvedAll candidates) targets = t.checkAll candidates targets
  | [], _ => by rw [Ty.resolvedAll]
  | _ :: _, [] => by simp [Ty.resolvedAll, checkAll]
  | c :: cs, u :: us => by
    rw [Ty.resolvedAll, checkAll, checkAll, check_resolved c u, checkAll_resolvedAll cs us]

end

mutual

/-- What fits a type fits what the parameters of that type stand for. -/
theorem check_resolved_target : ∀ (candidate target : Ty),
    t.check candidate target.resolved = t.check candidate target
  | _, .unbound _ => by rw [Ty.resolved]
  | candidate, .bound name ty => by
    rw [Ty.resolved, check_resolved_target candidate ty, check.eq_def t candidate (.bound name ty)]
  | candidate, .cls name args => by
    rw [Ty.resolved, check, check]
    simp only [checkAll_resolvedAll_target _ args]

theorem checkAll_resolvedAll_target : ∀ (candidates targets : List Ty),
    t.checkAll candidates (Ty.resolvedAll targets) = t.checkAll candidates targets
  | _, [] => by rw [Ty.resolvedAll]
  | [], _ :: _ => by simp
  | c :: cs, u :: us => by
    rw [Ty.resolvedAll, checkAll, checkAll, check_resolved_target c u,
      checkAll_resolvedAll_target cs us]

end

/-- Types that are the same once they are resolved fit alike, on either side. -/
theorem check_eq_of_resolved_eq {a b c d : Ty} (hab : a.resolved = b.resolved)
    (hcd : c.resolved = d.resolved) : t.check a c = t.check b d :=
  calc t.check a c
      = t.check a.resolved c.resolved := by rw [check_resolved, check_resolved_target]
    _ = t.check b.resolved d.resolved := by rw [hab, hcd]
    _ = t.check b d := by rw [check_resolved, check_resolved_target]

/-! ## Reflexivity -/

theorem inherits_self (t : ClassTable F) (a : String) : t.inherits a a = true := by
  rw [inherits, List.contains_iff_mem]
  unfold ancestors height
  rw [chain, if_neg List.not_mem_nil]
  split
  · exact List.mem_cons_self
  · exact List.mem_cons_self

theorem related_self (t : ClassTable F) (a : String) : t.related a a = true := by
  rw [related, t.inherits_self, Bool.true_or]

mutual

/-- What comes of putting types into a type fits that type. -/
theorem check_substitute (t : ClassTable F) (b : Bindings) :
    ∀ ty : Ty, t.check (ty.substitute b) ty = true
  | .unbound _ => by rw [check]
  | .bound _ ty => by
    rw [Ty.substitute, check]
    exact check_substitute t b ty
  | .cls name args => by
    rw [Ty.substitute, check_cls, related_self, checkAll_substituteAll t b args, Bool.and_true]
    split
    · next h =>
      -- The type of `null` is no primitive.
      rw [eq_of_beq h]
      rfl
    · rfl

theorem checkAll_substituteAll (t : ClassTable F) (b : Bindings) :
    ∀ tys : List Ty, t.checkAll (Ty.substituteAll b tys) tys = true
  | [] => t.checkAll_nil _
  | ty :: rest => by
    rw [Ty.substituteAll, checkAll, check_substitute t b ty, checkAll_substituteAll t b rest]
    rfl

end

/-- Every type fits itself. -/
theorem check_self (t : ClassTable F) (ty : Ty) : t.check ty ty = true := by
  rw [← check_resolved, ← Ty.substitute_nil]
  exact t.check_substitute [] ty

theorem checkAll_self (t : ClassTable F) (tys : List Ty) : t.checkAll tys tys = true := by
  induction tys with
  | nil => exact t.checkAll_nil []
  | cons ty rest ih => rw [checkAll, t.check_self, ih, Bool.true_and]

/-! ## Tables with the same walks -/

section SameAncestors

variable {t' : ClassTable F}

theorem related_congr (h : ∀ name, t'.ancestors name = t.ancestors name)
    (candidate target : String) : t'.related candidate target = t.related candidate target := by
  rw [related, related, inherits, inherits, h]

mutual

/-- Fitting asks a table for the base classes of classes and for nothing else. -/
theorem check_congr (h : ∀ name, t'.ancestors name = t.ancestors name) (candidate : Ty) :
    ∀ target : Ty, t'.check candidate target = t.check candidate target
  | .unbound n => by rw [check, check]
  | .bound n ty => by rw [check, check, check_congr h candidate ty]
  | .cls name args => by
    rw [check, check]
    cases candidate.head with
    | cls n given => simp only [related_congr h, checkAll_congr h given args]
    | unbound n => rfl
    | bound n ty => rfl

theorem checkAll_congr (h : ∀ name, t'.ancestors name = t.ancestors name) :
    ∀ candidates targets : List Ty,
      t'.checkAll candidates targets = t.checkAll candidates targets
  | [], us => by rw [checkAll_nil_left, checkAll_nil_left]
  | _ :: _, [] => by rw [checkAll_nil, checkAll_nil]
  | c :: cs, u :: us => by rw [checkAll, checkAll, check_congr h c u, checkAll_congr h cs us]

end

end SameAncestors

end ClassTable

end Middleweight
