import Middleweight.Proofs.Basic
import Middleweight.Types.Binding

/-!
# Ground types

A type is ground when no generic parameter, bound or unbound, occurs in it. The classes that a run
makes have ground arguments, and on ground types the coarse sameness of types is equality.

* `Ty.isGround_resolved` : resolving a type without unbound parameters gives a ground type
* `Ty.eq_of_same` : what is the same as a ground type is that type
* `Ty.resolved_substitute` : putting resolved types in gives a resolved type
-/

namespace Middleweight

namespace Ty

/-! ## Ground types -/

mutual

/-- Whether no generic parameter occurs in a type. -/
def IsGround : Ty → Prop
  | cls _ args => AllGround args
  | unbound _ => False
  | bound _ _ => False

/-- Whether no generic parameter occurs in some types. -/
def AllGround : List Ty → Prop
  | [] => True
  | t :: rest => t.IsGround ∧ AllGround rest

end

/-- A list of types is ground where each of them is. -/
theorem allGround_iff {ts : List Ty} : AllGround ts ↔ ∀ t ∈ ts, t.IsGround := by
  induction ts with
  | nil => simp [AllGround]
  | cons t rest ih => simp [AllGround, ih]

@[simp] theorem isGround_cls {n : String} {args : List Ty} :
    (cls n args).IsGround ↔ AllGround args := by
  rw [IsGround]

@[simp] theorem allGround_nil : AllGround [] := by
  rw [AllGround]; trivial

@[simp] theorem allGround_cons {t : Ty} {ts : List Ty} :
    AllGround (t :: ts) ↔ t.IsGround ∧ AllGround ts := by
  rw [AllGround]

mutual

/-- A ground type has no parameter to resolve. -/
theorem resolved_of_isGround : ∀ {t : Ty}, t.IsGround → t.resolved = t
  | cls n args, h => by rw [resolved, resolvedAll_of_allGround (isGround_cls.mp h)]
  | unbound _, h => absurd h (by simp [IsGround])
  | bound _ _, h => absurd h (by simp [IsGround])

theorem resolvedAll_of_allGround : ∀ {ts : List Ty}, AllGround ts → resolvedAll ts = ts
  | [], _ => by rw [resolvedAll]
  | t :: rest, h => by
    obtain ⟨ht, hr⟩ := allGround_cons.mp h
    rw [resolvedAll, resolved_of_isGround ht, resolvedAll_of_allGround hr]

end

mutual

/-- A ground type has no unbound parameter. -/
theorem firstUnbound?_of_isGround : ∀ {t : Ty}, t.IsGround → t.firstUnbound? = none
  | cls n args, h => by rw [firstUnbound?, firstUnboundIn?_of_allGround (isGround_cls.mp h)]
  | unbound _, h => absurd h (by simp [IsGround])
  | bound _ _, h => absurd h (by simp [IsGround])

theorem firstUnboundIn?_of_allGround : ∀ {ts : List Ty}, AllGround ts → firstUnboundIn? ts = none
  | [], _ => by rw [firstUnboundIn?]
  | t :: rest, h => by
    obtain ⟨ht, hr⟩ := allGround_cons.mp h
    rw [firstUnboundIn?, firstUnbound?_of_isGround ht, firstUnboundIn?_of_allGround hr]
    rfl

end

mutual

/-- A type in which no parameter is unbound becomes ground when its bound ones give way. -/
theorem isGround_resolved : ∀ {t : Ty}, t.firstUnbound? = none → t.resolved.IsGround
  | cls n args, h => by
    rw [resolved, isGround_cls]
    exact allGround_resolvedAll (by rw [firstUnbound?] at h; exact h)
  | unbound _, h => by simp [firstUnbound?] at h
  | bound _ t, h => by
    rw [resolved]
    exact isGround_resolved (by rw [firstUnbound?] at h; exact h)

theorem allGround_resolvedAll :
    ∀ {ts : List Ty}, firstUnboundIn? ts = none → AllGround (resolvedAll ts)
  | [], _ => by rw [resolvedAll]; exact allGround_nil
  | t :: rest, h => by
    simp only [firstUnboundIn?, Option.orElse_eq_orElse, Option.orElse_eq_or,
      Option.or_eq_none_iff] at h
    rw [resolvedAll, allGround_cons]
    exact ⟨isGround_resolved h.1, allGround_resolvedAll h.2⟩

end

/-! ## Sameness of ground types -/

mutual

/-- A type is the same as itself. -/
theorem same_self : ∀ t : Ty, t.same t = true
  | cls n args => by simp [same, sameAll_self args]
  | unbound n => by simp [same]
  | bound n t => by simp [same]

theorem sameAll_self : ∀ ts : List Ty, sameAll ts ts = true
  | [] => by simp [sameAll]
  | t :: rest => by simp [sameAll, same_self t, sameAll_self rest]

end

mutual

/-- What is the same as a ground type is that type. -/
theorem eq_of_same : ∀ {t u : Ty}, u.IsGround → t.same u = true → t = u
  | cls n args, cls m brgs, hu, h => by
    simp only [same, Bool.and_eq_true, beq_iff_eq] at h
    rw [h.1, eq_of_sameAll (isGround_cls.mp hu) h.2]
  | unbound _, cls _ _, _, h => by simp [same] at h
  | bound _ _, cls _ _, _, h => by simp [same] at h
  | _, unbound _, hu, _ => absurd hu (by simp [IsGround])
  | _, bound _ _, hu, _ => absurd hu (by simp [IsGround])

theorem eq_of_sameAll : ∀ {ts us : List Ty}, AllGround us → sameAll ts us = true → ts = us
  | [], [], _, _ => rfl
  | [], _ :: _, _, h => by simp [sameAll] at h
  | _ :: _, [], _, h => by simp [sameAll] at h
  | t :: ts, u :: us, hu, h => by
    obtain ⟨hu, hus⟩ := allGround_cons.mp hu
    simp only [sameAll, Bool.and_eq_true] at h
    rw [eq_of_same hu h.1, eq_of_sameAll hus h.2]

end

/-- Sameness with ground types is equality. -/
theorem sameAll_iff_of_allGround {ts us : List Ty} (hu : AllGround us) :
    sameAll ts us = true ↔ ts = us :=
  ⟨eq_of_sameAll hu, fun h => h ▸ sameAll_self ts⟩

/-! ## Putting ground types in -/

/-- The types in a list of bindings are resolved. -/
def BindingsResolved (b : Bindings) : Prop := ∀ n t, b.lookup n = some t → t.resolved = t

mutual

/-- Bound parameters give way during substitution, so only what is put in could still be bound. -/
theorem resolved_substitute {b : Bindings} (hb : BindingsResolved b) :
    ∀ t : Ty, (t.substitute b).resolved = t.substitute b
  | cls n args => by rw [substitute, resolved, resolvedAll_substituteAll hb args]
  | bound _ t => by rw [substitute, resolved_substitute hb t]
  | unbound n => by
    rw [substitute]
    cases h : b.lookup n with
    | none => simp [resolved]
    | some t => exact hb n t h

theorem resolvedAll_substituteAll {b : Bindings} (hb : BindingsResolved b) :
    ∀ ts : List Ty, resolvedAll (substituteAll b ts) = substituteAll b ts
  | [] => by rw [substituteAll, resolvedAll]
  | t :: rest => by
    rw [substituteAll, resolvedAll, resolved_substitute hb t, resolvedAll_substituteAll hb rest]

end

mutual

/-- Putting nothing in makes bound parameters give way and does nothing else. -/
theorem substitute_nil : ∀ t : Ty, t.substitute [] = t.resolved
  | cls n args => by rw [substitute, resolved, substituteAll_nil args]
  | bound _ t => by rw [substitute, resolved, substitute_nil t]
  | unbound n => by rw [substitute, resolved]; rfl

theorem substituteAll_nil : ∀ ts : List Ty, substituteAll [] ts = resolvedAll ts
  | [] => by rw [substituteAll, resolvedAll]
  | t :: rest => by
    rw [substituteAll, resolvedAll, substitute_nil t, substituteAll_nil rest]

end

mutual

/-- Putting types in makes bound parameters give way, so they may as well have given way before. -/
theorem substitute_resolved (b : Bindings) : ∀ t : Ty, t.resolved.substitute b = t.substitute b
  | cls n args => by rw [resolved, substitute, substitute, substituteAll_resolvedAll b args]
  | bound _ t => by rw [resolved, substitute_resolved b t, substitute]
  | unbound n => by rw [resolved]

theorem substituteAll_resolvedAll (b : Bindings) :
    ∀ ts : List Ty, substituteAll b (resolvedAll ts) = substituteAll b ts
  | [] => by rw [resolvedAll]
  | t :: rest => by
    rw [resolvedAll, substituteAll, substituteAll, substitute_resolved b t,
      substituteAll_resolvedAll b rest]

end

mutual

/-- There is nothing in a ground type to put anything in for. -/
theorem substitute_of_isGround (b : Bindings) : ∀ {t : Ty}, t.IsGround → t.substitute b = t
  | cls n args, h => by rw [substitute, substituteAll_of_allGround b (isGround_cls.mp h)]
  | unbound _, h => absurd h (by simp [IsGround])
  | bound _ _, h => absurd h (by simp [IsGround])

theorem substituteAll_of_allGround (b : Bindings) :
    ∀ {ts : List Ty}, AllGround ts → substituteAll b ts = ts
  | [], _ => by rw [substituteAll]
  | t :: rest, h => by
    obtain ⟨ht, hr⟩ := allGround_cons.mp h
    rw [substituteAll, substitute_of_isGround b ht, substituteAll_of_allGround b hr]

end

end Ty

/-- Binding parameters to ground arguments gives resolved bindings. -/
theorem Bindings.resolved_zip {names : List String} {args : List Ty} (h : Ty.AllGround args) :
    Ty.BindingsResolved (Bindings.zip names args) := by
  intro n t hl
  have hm := mem_of_lookup hl
  rw [Bindings.zip, List.mem_reverse] at hm
  exact Ty.resolved_of_isGround (Ty.allGround_iff.mp h t (List.of_mem_zip hm).2)

/-- Sameness with a class type with ground arguments is equality. -/
theorem ClassTy.beq_iff_of_allGround {a b : ClassTy} (hb : Ty.AllGround b.args) :
    (a == b) = true ↔ a = b := by
  obtain ⟨n, args⟩ := a
  obtain ⟨m, brgs⟩ := b
  show ClassTy.same _ _ = true ↔ _
  simp only [ClassTy.same, Bool.and_eq_true, beq_iff_eq, ClassTy.mk.injEq,
    Ty.sameAll_iff_of_allGround hb]

end Middleweight
