import Middleweight.ClassTable.Lowering
import Middleweight.Proofs.Types.Ground

/-!
# Open types

A type is open in some names when its unbound parameters are among them; a type that is open in no
name is concrete. Lowering gives types that are open in the parameters in scope, and binding all of
these to ground types makes a ground type.

* `Ty.isGround_substitute` : binding all parameters makes a type ground
* `LoweringContext.openIn_lower` : what a written type lowers to
* `Bindings.allGround_infer` : what ground arguments bind
-/

namespace Middleweight

namespace Ty

/-! ## Open types -/

mutual

/-- Whether all unbound parameters of a type are among some names. -/
def OpenIn (names : List String) : Ty → Prop
  | cls _ args => AllOpenIn names args
  | unbound n => n ∈ names
  | bound _ t => OpenIn names t

/-- Whether all unbound parameters of some types are among some names. -/
def AllOpenIn (names : List String) : List Ty → Prop
  | [] => True
  | t :: rest => OpenIn names t ∧ AllOpenIn names rest

end

variable {names : List String}

@[simp] theorem openIn_cls {n : String} {args : List Ty} :
    (cls n args).OpenIn names ↔ AllOpenIn names args := by
  rw [OpenIn]

@[simp] theorem openIn_unbound {n : String} : (unbound n).OpenIn names ↔ n ∈ names := by
  rw [OpenIn]

@[simp] theorem openIn_bound {n : String} {t : Ty} :
    (bound n t).OpenIn names ↔ t.OpenIn names := by
  rw [OpenIn]

@[simp] theorem allOpenIn_nil : AllOpenIn names [] := by
  rw [AllOpenIn]; trivial

@[simp] theorem allOpenIn_cons {t : Ty} {ts : List Ty} :
    AllOpenIn names (t :: ts) ↔ t.OpenIn names ∧ AllOpenIn names ts := by
  rw [AllOpenIn]

mutual

/-- A type without unbound parameters is open in all names. -/
theorem openIn_of_firstUnbound? : ∀ {t : Ty}, t.firstUnbound? = none → t.OpenIn names
  | cls _ args, h => by
    rw [firstUnbound?] at h
    rw [openIn_cls]
    exact allOpenIn_of_firstUnboundIn? h
  | unbound _, h => by simp [firstUnbound?] at h
  | bound _ t, h => by
    rw [firstUnbound?] at h
    rw [openIn_bound]
    exact openIn_of_firstUnbound? h

theorem allOpenIn_of_firstUnboundIn? :
    ∀ {ts : List Ty}, firstUnboundIn? ts = none → AllOpenIn names ts
  | [], _ => allOpenIn_nil
  | t :: rest, h => by
    simp only [firstUnboundIn?, Option.orElse_eq_orElse, Option.orElse_eq_or,
      Option.or_eq_none_iff] at h
    exact allOpenIn_cons.mpr ⟨openIn_of_firstUnbound? h.1, allOpenIn_of_firstUnboundIn? h.2⟩

end

/-! ## Binding all parameters -/

/-- All of some names are bound to ground types. -/
def BindsAll (b : Bindings) (names : List String) : Prop :=
  ∀ n ∈ names, ∃ t, b.lookup n = some t ∧ t.IsGround

mutual

/-- Binding all its parameters to ground types makes a type ground. -/
theorem isGround_substitute {b : Bindings} (hb : BindsAll b names) :
    ∀ {t : Ty}, t.OpenIn names → (t.substitute b).IsGround
  | cls _ args, h => by
    rw [substitute, isGround_cls]
    exact allGround_substituteAll hb (openIn_cls.mp h)
  | unbound n, h => by
    obtain ⟨t, ht, hground⟩ := hb n (openIn_unbound.mp h)
    rw [substitute, ht]
    exact hground
  | bound _ t, h => by
    rw [substitute]
    exact isGround_substitute hb (openIn_bound.mp h)

theorem allGround_substituteAll {b : Bindings} (hb : BindsAll b names) :
    ∀ {ts : List Ty}, AllOpenIn names ts → AllGround (substituteAll b ts)
  | [], _ => by
    rw [substituteAll]
    exact allGround_nil
  | t :: rest, h => by
    obtain ⟨ht, hrest⟩ := allOpenIn_cons.mp h
    rw [substituteAll]
    exact allGround_cons.mpr ⟨isGround_substitute hb ht, allGround_substituteAll hb hrest⟩

end

end Ty

/-! ## Parameters in scope -/

/-- The parameters in scope are open in some names. -/
def TypeParams.OpenIn (params : TypeParams) (names : List String) : Prop :=
  ∀ e ∈ params, e.2.OpenIn names

namespace TypeParams

theorem OpenIn.pushUnbound {params : TypeParams} {names : List String} (h : params.OpenIn names)
    {more : List String} (hmore : ∀ n ∈ more, n ∈ names) :
    (params.pushUnbound more).OpenIn names := by
  unfold TypeParams.pushUnbound
  induction more generalizing params with
  | nil => exact h
  | cons n rest ih =>
    refine ih ?_ fun k hk => hmore k (by simp [hk])
    intro e he
    rcases List.mem_cons.mp he with rfl | he
    · exact Ty.openIn_unbound.mpr (hmore n (by simp))
    · exact h e he

theorem openIn_unbound (names : List String) : (unbound names).OpenIn names :=
  OpenIn.pushUnbound (fun _ h => absurd h List.not_mem_nil) fun _ h => h

/-- All parameters in scope are bound to concrete types. -/
def Concrete (params : TypeParams) : Prop := ∀ e ∈ params, e.2.firstUnbound? = none

theorem Concrete.openIn {params : TypeParams} (h : params.Concrete) (names : List String) :
    params.OpenIn names :=
  fun e he => Ty.openIn_of_firstUnbound? (h e he)

/-- Parameters bound to ground types are concrete. -/
theorem concrete_bound {names : List String} {args : List Ty} (h : Ty.AllGround args) :
    (bound names args).Concrete := by
  intro e he
  obtain ⟨⟨n, t⟩, hm, rfl⟩ := List.mem_map.mp (List.mem_reverse.mp he)
  rw [Ty.firstUnbound?]
  exact Ty.firstUnbound?_of_isGround (Ty.allGround_iff.mp h t (List.of_mem_zip hm).2)

end TypeParams

namespace LoweringContext

variable {ctx : LoweringContext} {params : TypeParams} {names : List String}

mutual

/-- A written type lowers to a type that is open in the parameters in scope. -/
theorem openIn_lower (hp : params.OpenIn names) : ∀ {e : TypeExpr} {ty : Ty},
    ctx.lower params e = .ok ty → ty.OpenIn names
  | ⟨written, generics, span⟩, ty, h => by
    rw [lower] at h
    split at h
    · next found hfound =>
      split at h
      · cases h
        exact hp _ (mem_of_lookup hfound)
      · cases h
    · split at h
      · cases h
      · split at h
        · cases h
        · next args hargs =>
          cases h
          exact Ty.openIn_cls.mpr (allOpenIn_lowerAll hp hargs)

theorem allOpenIn_lowerAll (hp : params.OpenIn names) : ∀ {es : List TypeExpr} {tys : List Ty},
    ctx.lowerAll params es = .ok tys → Ty.AllOpenIn names tys
  | [], tys, h => by
    rw [lowerAll] at h
    cases h
    exact Ty.allOpenIn_nil
  | e :: rest, tys, h => by
    rw [lowerAll] at h
    split at h
    · cases h
    · next ty hty =>
      split at h
      · cases h
      · next tys' htys =>
        cases h
        exact Ty.allOpenIn_cons.mpr ⟨openIn_lower hp hty, allOpenIn_lowerAll hp htys⟩

end

end LoweringContext

/-! ## Bindings of calls -/

namespace Bindings

/-- The types that some bindings give are ground. -/
def AllGround (b : Bindings) : Prop := ∀ e ∈ b, e.2.IsGround

mutual

theorem allGround_fill : ∀ {formal actual : Ty}, actual.IsGround →
    AllGround (fill formal actual)
  | .unbound n, actual, h => by
    rw [fill]
    split
    · exact fun _ he => absurd he List.not_mem_nil
    · intro e he
      rw [List.mem_singleton.mp he, Ty.resolved_of_isGround h]
      exact h
  | .bound _ _, _, _ => by
    rw [fill]
    exact fun _ he => absurd he List.not_mem_nil
  | .cls _ formals, actual, h => by
    rw [fill, Ty.resolved_of_isGround h]
    cases actual with
    | cls n actuals => exact allGround_fillAll (Ty.isGround_cls.mp h)
    | unbound n => exact fun _ he => absurd he List.not_mem_nil
    | bound n t => exact fun _ he => absurd he List.not_mem_nil

theorem allGround_fillAll : ∀ {formals actuals : List Ty}, Ty.AllGround actuals →
    AllGround (fillAll formals actuals)
  | [], actuals, _ => by
    rw [fillAll]
    · exact fun _ he => absurd he List.not_mem_nil
    · simp
  | _ :: _, [], _ => by
    rw [fillAll]
    · exact fun _ he => absurd he List.not_mem_nil
    · simp
  | formal :: formals, actual :: actuals, h => by
    obtain ⟨ha, hs⟩ := Ty.allGround_cons.mp h
    rw [fillAll]
    intro e he
    rcases List.mem_append.mp he with he | he
    · exact allGround_fill ha e he
    · exact allGround_fillAll hs e he

end

/-- Ground arguments bind parameters to ground types. -/
theorem allGround_infer {formals actuals : List Ty} (h : Ty.AllGround actuals) :
    AllGround (infer formals actuals) :=
  fun e he => allGround_fillAll h e (List.mem_reverse.mp he)

/-- Parameters bound in pairs to as many ground types are all bound. -/
theorem bindsAll_zip {names : List String} {args : List Ty} (h : Ty.AllGround args)
    (hlen : names.length = args.length) : Ty.BindsAll (zip names args) names := by
  intro n hn
  have hkeys : n ∈ (zip names args).map Prod.fst := by
    rw [zip, List.map_reverse, List.mem_reverse, List.map_fst_zip (Nat.le_of_eq hlen)]
    exact hn
  obtain ⟨t, ht⟩ := Option.isSome_iff_exists.mp (isSome_lookup_iff.mpr hkeys)
  have hm := mem_of_lookup ht
  rw [zip, List.mem_reverse] at hm
  exact ⟨t, ht, Ty.allGround_iff.mp h t (List.of_mem_zip hm).2⟩

end Bindings

end Middleweight
