import Middleweight.Proofs.ClassTable.Cycles
import Middleweight.Proofs.Engine.Memo
import Middleweight.Proofs.Types.Formed

/-!
# Tables whose classes can all be made

In a rooted table the walk from every class comes to an end, and the base of a class is a ground
type with as many arguments as its class has parameters. Then every class has a static view, and
every ground type with the right number of arguments has an instantiation.

* `ClassTable.climbs_of_not_revisits` : a walk that does not come back comes to an end
* `ClassTable.Rooted.classFor_ok`, `ClassTable.Rooted.viewFor_ok` : classes can be made
* `ClassTable.Rooted.meaning_of_lower` : a type that lowers means the class of its lowered type
-/

namespace Middleweight

variable {F : Type} {t : ClassTable F}

namespace ClassTable

/-! ## Walks come to an end -/

/-- A walk that never meets a class it has seen cannot go on for longer than there are classes. -/
theorem climbs_of_not_revisits
    (hclosed : ∀ {name c base}, t.get? name = some c → c.base = some base →
      ∃ b, t.get? base.name = some b) :
    ∀ {fuel : Nat} {seen : List String} {name : String} {c : Template F}, seen.Nodup →
    seen ⊆ t.classes.map Template.name → t.classes.length < seen.length + fuel →
    t.revisits fuel seen name = false → t.get? name = some c → ∃ n, t.Climbs name n := by
  intro fuel
  induction fuel with
  | zero =>
    intro seen name c hnd hsub hlen _ _
    have := (hnd.subperm hsub).length_le
    rw [List.length_map] at this
    omega
  | succ fuel ih =>
    intro seen name c hnd hsub hlen hr hc
    rw [revisits] at hr
    split at hr
    · cases hr
    · next hnew =>
      cases hb : c.base with
      | none => exact ⟨1, .root hc hb⟩
      | some base =>
        have hbase : t.baseName? name = some base.name := by simp [baseName?, hc, hb]
        rw [hbase] at hr
        obtain ⟨b, hgb⟩ := hclosed hc hb
        have hname : name ∈ t.classes.map Template.name :=
          List.mem_map.mpr ⟨c, get?_mem hc, get?_name hc⟩
        obtain ⟨n, hn⟩ := ih (List.nodup_cons.mpr ⟨hnew, hnd⟩)
          (List.cons_subset.mpr ⟨hname, hsub⟩) (by rw [List.length_cons]; omega) hr hgb
        exact ⟨n + 1, .step hc hb hn⟩

/-! ## Known types -/

/-- A ground type with as many arguments as its class has parameters. -/
structure Knows (t : ClassTable F) (ty : Ty) : Prop where
  exists_cls : ∃ name args, ty = .cls name args ∧ Ty.AllGround args ∧
    t.arity? name = some args.length

theorem Knows.isGround {ty : Ty} (h : t.Knows ty) : ty.IsGround := by
  obtain ⟨name, args, rfl, hground, -⟩ := h.exists_cls
  exact Ty.isGround_cls.mpr hground

/-- A class without parameters is a known type. -/
theorem knows_named {name : String} {c : Template F} (h : t.get? name = some c)
    (hg : c.generics = []) : t.Knows (.named name) :=
  ⟨name, [], rfl, Ty.allGround_nil, by simp [arity?, h, hg]⟩

mutual

/-- A type that lowers where no parameter is in scope becomes a known type. -/
theorem knows_of_lower : ∀ {e : TypeExpr} {ty : Ty}, t.lower [] e = .ok ty → t.Knows ty
  | ⟨name, generics, span⟩, ty, h => by
    rw [lower, LoweringContext.lower] at h
    split at h
    · next h' => cases h'
    · split at h
      · cases h
      · next full hfull =>
        split at h
        · cases h
        · next args hargs =>
          cases h
          obtain ⟨hground, hlen⟩ := allGround_of_lowerAll hargs
          refine ⟨full, args, rfl, hground, ?_⟩
          rw [hlen]
          exact (LoweringContext.className_ok hfull).2

theorem allGround_of_lowerAll : ∀ {es : List TypeExpr} {tys : List Ty},
    t.lowering.lowerAll [] es = .ok tys → Ty.AllGround tys ∧ tys.length = es.length
  | [], tys, h => by
    rw [LoweringContext.lowerAll] at h
    cases h
    exact ⟨Ty.allGround_nil, rfl⟩
  | e :: rest, tys, h => by
    rw [LoweringContext.lowerAll] at h
    split at h
    · cases h
    · next ty hty =>
      split at h
      · cases h
      · next tys' htys =>
        cases h
        obtain ⟨hground, hlen⟩ := allGround_of_lowerAll htys
        have hknows : t.Knows ty := knows_of_lower hty
        exact ⟨Ty.allGround_cons.mpr ⟨hknows.isGround, hground⟩, by simp [hlen]⟩

end

/-! ## Rooted tables -/

/-- Every walk along bases comes to an end, and bases are known types. -/
structure Rooted (t : ClassTable F) : Prop where
  climbs : ∀ {name : String} {c : Template F}, t.get? name = some c → ∃ n, t.Climbs name n
  knows_base : ∀ {name : String} {c : Template F} {base : ClassTy}, t.get? name = some c →
    c.base = some base → t.Knows base.toTy

theorem get?_of_arity? {name : String} {n : Nat} (h : t.arity? name = some n) :
    ∃ c, t.get? name = some c ∧ c.generics.length = n :=
  Option.map_eq_some_iff.mp h

theorem Climbs.exists_views {name : String} {n : Nat} (h : t.Climbs name n) :
    ∃ c, t.Views name c := by
  induction h with
  | root hg hb => exact ⟨_, .root hg hb⟩
  | step hg hb _ ih =>
    obtain ⟨b, hb'⟩ := ih
    exact ⟨_, .derived hg hb hb'⟩

section Making

variable (ht : t.Rooted)

include ht

theorem Rooted.exists_instantiates_of_climbs {name : String} {n : Nat} (h : t.Climbs name n) :
    ∀ {args : List Ty}, Ty.AllGround args → t.arity? name = some args.length →
    ∃ c, t.Instantiates ⟨name, args⟩ c := by
  induction h with
  | root hg hb =>
    intro args hground harity
    obtain ⟨c', hc', hlen⟩ := get?_of_arity? harity
    cases hg.symm.trans hc'
    exact ⟨_, .root hground hg hlen hb⟩
  | @step name c base n hg hb hclimb ih =>
    intro args hground harity
    obtain ⟨c', hc', hlen⟩ := get?_of_arity? harity
    cases hg.symm.trans hc'
    obtain ⟨name', args', heq, hground', harity'⟩ := (ht.knows_base hg hb).exists_cls
    cases heq
    -- The arguments of the base are ground, so the arguments of the class do not reach them.
    have hkey : c.baseKey base args = ⟨base.name, base.args⟩ := by
      unfold Template.baseKey ClassTy.substitute
      rw [Ty.substituteAll_of_allGround _ hground', Ty.resolvedAll_of_allGround hground']
    obtain ⟨b, hb'⟩ := ih hground' harity'
    exact ⟨_, .derived hground hg hlen hb (hkey ▸ hb')⟩

/-- A known type has an instantiation. -/
theorem Rooted.exists_instantiates {ty : Ty} (h : t.Knows ty) :
    ∃ key c, ty = key.toTy ∧ t.Instantiates key c := by
  obtain ⟨name, args, rfl, hground, harity⟩ := h.exists_cls
  obtain ⟨c, hc, -⟩ := get?_of_arity? harity
  obtain ⟨n, hn⟩ := ht.climbs hc
  obtain ⟨i, hi⟩ := ht.exists_instantiates_of_climbs hn hground harity
  exact ⟨⟨name, args⟩, i, rfl, hi⟩

/-- The runtime class of a known type can be made, and its type is that type. -/
theorem Rooted.classFor_ok {ty : Ty} (h : t.Knows ty) (span : Span) :
    ∃ c, t.classFor ty span = .ok c ∧ t.Instantiates c.ty c ∧ c.asTy = ty := by
  obtain ⟨key, c, rfl, hi⟩ := ht.exists_instantiates h
  have hty := hi.ty_eq
  exact ⟨c, hi.classFor_eq span, by rw [hty]; exact hi, by rw [RuntimeClass.asTy, hty]⟩

/-- The static view of a class can be made. -/
theorem Rooted.viewFor_ok {name : String} {tm : Template F} (h : t.get? name = some tm) (span : Span) :
    ∃ c, t.viewFor name span = .ok c ∧ t.Views name c := by
  obtain ⟨n, hn⟩ := ht.climbs h
  obtain ⟨c, hc⟩ := hn.exists_views
  exact ⟨c, hc.viewFor_eq span, hc⟩

end Making

mutual

/-- A type that lowers means the class of its lowered type. -/
theorem Rooted.meaning_of_lower (ht : t.Rooted) : ∀ {e : TypeExpr} {ty : Ty}, t.lower [] e = .ok ty →
    ∃ c, t.meaning [] e = .ok c ∧ t.Instantiates c.ty c ∧ c.asTy = ty
  | ⟨name, generics, span⟩, ty, h => by
    have hknows := knows_of_lower h
    rw [lower, LoweringContext.lower] at h
    split at h
    · next h' => cases h'
    · split at h
      · cases h
      · next full hfull =>
        split at h
        · cases h
        · next args hargs =>
          cases h
          rw [meaning_of_get?_none rfl, ht.meanings_of_lowerAll hargs]
          dsimp only
          unfold classNamed
          have hres : t.imports.resolve? name = some full := (LoweringContext.className_ok hfull).1
          rw [hres]
          exact ht.classFor_ok hknows span

theorem Rooted.meanings_of_lowerAll (ht : t.Rooted) : ∀ {es : List TypeExpr} {tys : List Ty},
    t.lowering.lowerAll [] es = .ok tys → t.meanings [] es = .ok tys
  | [], tys, h => by
    rw [LoweringContext.lowerAll] at h
    cases h
    rw [meanings]
  | e :: rest, tys, h => by
    rw [LoweringContext.lowerAll] at h
    split at h
    · cases h
    · next ty hty =>
      split at h
      · cases h
      · next tys' htys =>
        cases h
        obtain ⟨c, hc, -, hasTy⟩ := ht.meaning_of_lower hty
        rw [meanings, hc, ht.meanings_of_lowerAll htys]
        dsimp only
        rw [hasTy]

end

end ClassTable

end Middleweight
