import Middleweight.Proofs.ClassTable.Complete
import Middleweight.Proofs.Members.Concrete
import Middleweight.Proofs.Registry.Bounds

/-!
# Written types under bound parameters

A body sees parameters that are bound to types. Where all of these are formed, a written type that
lowers means the class of the type that it lowers to; and whatever a written type means is then the
class of a formed type. What a call binds parameters to comes from the types of its arguments, which
are formed, or the bare name of a class where a class itself is passed. A bare name is bound to a
parameter only if some argument has that parameter for its type, so that it is formed as well if
the parameters of the method have classes.

* `ClassTable.classFor_of_meaning`, `ClassTable.Complete.exists_meaning` : what written types mean
* `ClassTable.admits_meaning` : what is meant has a formed type
* `ClassTable.bindsFormed_of_classes` : what a call binds
-/

namespace Middleweight

variable {F : Type}

/-! ## Formed types with more names -/

namespace Ty

variable {arity : String → Option Nat} {names names' : List String}

mutual

theorem Formed.mono (h : names ⊆ names') : ∀ {t : Ty}, t.Formed arity names → t.Formed arity names'
  | cls _ _, ht => formed_cls.mpr ⟨(formed_cls.mp ht).1, AllFormed.mono h (formed_cls.mp ht).2⟩
  | unbound _, ht => formed_unbound.mpr (h (formed_unbound.mp ht))
  | bound _ _, ht => absurd ht not_formed_bound

theorem AllFormed.mono (h : names ⊆ names') :
    ∀ {ts : List Ty}, AllFormed arity names ts → AllFormed arity names' ts
  | [], _ => allFormed_nil
  | _ :: _, hts =>
    allFormed_cons.mpr ⟨Formed.mono h (allFormed_cons.mp hts).1,
      AllFormed.mono h (allFormed_cons.mp hts).2⟩

end

/-- A type without parameters that is formed once it is resolved has a formed instance. -/
theorem Formed.resolved_substitute {ty : Ty} {b : Bindings} (h : ty.resolved.Formed arity names)
    (hb : BindsFormed arity b names) : (ty.substitute b).resolved.Formed arity [] := by
  have hformed := h.substitute hb
  rw [Ty.substitute_resolved] at hformed
  rwa [Ty.resolved_of_isGround hformed.isGround]

end Ty

/-! ## Lowering under bound parameters -/

/-- Parameters that stand for formed types, once their bounds are put in. -/
def TypeParams.Formed (arity : String → Option Nat) (names : List String) (params : TypeParams) :
    Prop :=
  ∀ e ∈ params, e.2.resolved.Formed arity names

namespace TypeParams

variable {arity : String → Option Nat} {names names' : List String} {params params' : TypeParams}

theorem Formed.nil : Formed arity names [] := fun _ he => absurd he List.not_mem_nil

theorem Formed.append (h : params.Formed arity names) (h' : params'.Formed arity names) :
    (params ++ params').Formed arity names :=
  fun e he => (List.mem_append.mp he).elim (h e) (h' e)

/-- Names that stand for themselves are formed over these names. -/
theorem Formed.pushUnbound (h : params.Formed arity names) (hnames : names' ⊆ names) :
    (params.pushUnbound names').Formed arity names := by
  intro e he
  rcases mem_pushUnbound he with he | ⟨n, hn, rfl⟩
  · exact h e he
  · rw [Ty.resolved, Ty.formed_unbound]
    exact hnames hn

/-- Names that are bound to formed types. -/
theorem Formed.bound {args : List Ty} (h : Ty.AllFormed arity [] args) :
    (TypeParams.bound names args).Formed arity names' := by
  intro e he
  obtain ⟨⟨n, u⟩, hu, rfl⟩ := List.mem_map.mp (List.mem_reverse.mp he)
  have hformed := Ty.allFormed_iff.mp h u (List.of_mem_zip hu).2
  rw [Ty.resolved, Ty.resolved_of_isGround hformed.isGround]
  exact hformed.mono (List.nil_subset _)

end TypeParams

namespace LoweringContext

variable {ctx : LoweringContext} {names : List String} {params : TypeParams}

mutual

/-- Under parameters that stand for formed types a written type lowers to a formed one. -/
theorem formed_resolved_lower (hp : params.Formed ctx.arity names) : ∀ {e : TypeExpr} {ty : Ty},
    ctx.lower params e = .ok ty → ty.resolved.Formed ctx.arity names
  | ⟨written, generics, span⟩, ty, h => by
    rw [lower] at h
    split at h
    · next found hfound =>
      split at h
      · cases h
        exact hp _ (mem_of_lookup hfound)
      · cases h
    · split at h
      · cases h
      · next full hfull =>
        split at h
        · cases h
        · next args hargs =>
          cases h
          obtain ⟨hformed, hlen⟩ := allFormed_resolved_lowerAll hp hargs
          rw [Ty.resolved, Ty.formed_cls, Ty.resolvedAll_eq_map, List.length_map, hlen,
            ← Ty.resolvedAll_eq_map]
          exact ⟨(className_ok hfull).2, hformed⟩

theorem allFormed_resolved_lowerAll (hp : params.Formed ctx.arity names) :
    ∀ {es : List TypeExpr} {tys : List Ty}, ctx.lowerAll params es = .ok tys →
    Ty.AllFormed ctx.arity names (Ty.resolvedAll tys) ∧ tys.length = es.length
  | [], tys, h => by
    rw [lowerAll] at h
    cases h
    exact ⟨Ty.allFormed_nil, rfl⟩
  | e :: rest, tys, h => by
    rw [lowerAll] at h
    split at h
    · cases h
    · next ty hty =>
      split at h
      · cases h
      · next tys' htys =>
        cases h
        obtain ⟨hformed, hlen⟩ := allFormed_resolved_lowerAll hp htys
        rw [Ty.resolvedAll, List.length_cons, List.length_cons, hlen]
        exact ⟨Ty.allFormed_cons.mpr ⟨formed_resolved_lower hp hty, hformed⟩, rfl⟩

end

end LoweringContext

namespace ClassTable

variable {t : ClassTable F} {params : TypeParams}

/-! ## What written types mean -/

/-- Types that are the same once they are resolved have the same class, wherever they are written. -/
theorem classFor_of_resolved_eq {ty ty' : Ty} {span : Span} {c : RuntimeClass F}
    (h : t.classFor ty span = .ok c) (hty : ty'.resolved = ty.resolved) (span' : Span) :
    t.classFor ty' span' = .ok c := by
  obtain ⟨hinst, hasTy⟩ := classFor_ok h
  rw [← t.classFor_resolved, hty, hasTy]
  exact hinst.classFor_eq span'

mutual

/-- What a written type means, if anything, is the class of the type that it lowers to, if it does. -/
theorem classFor_of_meaning : ∀ {e : TypeExpr} {ty : Ty} {c : RuntimeClass F},
    t.lower params e = .ok ty → t.meaning params e = .ok c →
    ∀ span, t.classFor ty span = .ok c
  | ⟨name, generics, sp⟩, ty, c, h, hc, span => by
    rw [lower, LoweringContext.lower] at h
    split at h
    · next found hfound =>
      split at h
      · next hempty =>
        cases h
        rw [meaning, hfound, hempty] at hc
        exact classFor_of_resolved_eq hc rfl span
      · cases h
    · next hnone =>
      split at h
      · cases h
      · next full hfull =>
        split at h
        · cases h
        · next tys htys =>
          cases h
          rw [meaning_of_get?_none hnone] at hc
          split at hc
          · cases hc
          · next args hargs =>
            have hres : t.imports.resolve? name = some full := (LoweringContext.className_ok hfull).1
            unfold classNamed at hc
            rw [hres, eq_resolvedAll_of_meanings htys hargs] at hc
            refine classFor_of_resolved_eq hc ?_ span
            rw [← Ty.resolved, Ty.resolved_resolved]

theorem eq_resolvedAll_of_meanings : ∀ {es : List TypeExpr} {tys args : List Ty},
    t.lowering.lowerAll params es = .ok tys → t.meanings params es = .ok args →
    args = Ty.resolvedAll tys
  | [], tys, args, h, hargs => by
    rw [LoweringContext.lowerAll] at h
    rw [meanings] at hargs
    cases h
    cases hargs
    rw [Ty.resolvedAll]
  | e :: rest, tys, args, h, hargs => by
    rw [LoweringContext.lowerAll] at h
    rw [meanings] at hargs
    split at h
    · cases h
    · next ty hty =>
      split at h
      · cases h
      · next tys' htys =>
        cases h
        split at hargs
        · cases hargs
        · next c hc =>
          split at hargs
          · cases hargs
          · next args' hargs' =>
            cases hargs
            have hfor := classFor_of_meaning hty hc {}
            rw [Ty.resolvedAll, (classFor_ok hfor).2, eq_resolvedAll_of_meanings htys hargs']

end

mutual

/-- Where the parameters in scope stand for formed types, a written type that lowers means a class. -/
theorem Complete.exists_meaning (ht : t.Complete) (hp : params.Formed t.arity? []) :
    ∀ {e : TypeExpr} {ty : Ty}, t.lower params e = .ok ty → ∃ c, t.meaning params e = .ok c
  | ⟨name, generics, span⟩, ty, h => by
    have hformed : ty.resolved.Formed t.arity? [] := LoweringContext.formed_resolved_lower hp h
    obtain ⟨c, hc, -⟩ := ht.classFor_ok hformed
    refine ⟨c, ?_⟩
    rw [lower, LoweringContext.lower] at h
    split at h
    · next found hfound =>
      split at h
      · next hempty =>
        cases h
        rw [meaning, hfound, hempty]
        exact hc span
      · cases h
    · next hnone =>
      split at h
      · cases h
      · next full hfull =>
        split at h
        · cases h
        · next tys htys =>
          cases h
          obtain ⟨args, hargs⟩ := ht.exists_meanings hp htys
          obtain rfl := eq_resolvedAll_of_meanings htys hargs
          have hres : t.imports.resolve? name = some full := (LoweringContext.className_ok hfull).1
          rw [meaning_of_get?_none hnone, hargs]
          unfold classNamed
          dsimp only
          rw [hres]
          refine classFor_of_resolved_eq (hc span) ?_ span
          rw [← Ty.resolved, Ty.resolved_resolved]

theorem Complete.exists_meanings (ht : t.Complete) (hp : params.Formed t.arity? []) :
    ∀ {es : List TypeExpr} {tys : List Ty}, t.lowering.lowerAll params es = .ok tys →
    ∃ args, t.meanings params es = .ok args
  | [], tys, h => ⟨[], by rw [meanings]⟩
  | e :: rest, tys, h => by
    rw [LoweringContext.lowerAll] at h
    split at h
    · cases h
    · next ty hty =>
      split at h
      · cases h
      · next tys' htys =>
        obtain ⟨c, hc⟩ := ht.exists_meaning hp hty
        obtain ⟨args, hargs⟩ := ht.exists_meanings hp htys
        refine ⟨c.asTy :: args, ?_⟩
        rw [meanings, hc, hargs]

end

/-! ## Classes of formed types -/

/-- A class of a formed type. -/
structure Admits (t : ClassTable F) (c : RuntimeClass F) : Prop where
  made : t.Makes c
  formed : c.asTy.Formed t.arity? []

/-- A type that an argument can have: a formed one, or the bare name of a class. -/
def ArgumentType (t : ClassTable F) (ty : Ty) : Prop :=
  ty.Formed t.arity? [] ∨ ∃ name, ty = .named name

theorem ArgumentType.isGround {ty : Ty} (h : t.ArgumentType ty) : ty.IsGround := by
  rcases h with h | ⟨name, rfl⟩
  · exact h.isGround
  · exact Ty.isGround_cls.mpr Ty.allGround_nil

theorem ArgumentType.named (name : String) : t.ArgumentType (.named name) := .inr ⟨name, rfl⟩

theorem Instantiates.arity?_eq {key : ClassTy} {c : RuntimeClass F} (h : t.Instantiates key c) :
    t.arity? key.name = some key.args.length := by
  cases h with
  | root _ hg hlen _ => rw [arity?, hg, Option.map_some, hlen]
  | derived _ hg hlen _ _ => rw [arity?, hg, Option.map_some, hlen]

/-- If there is a class of a type of an argument, that type is formed. -/
theorem ArgumentType.admits {ty : Ty} (h : t.ArgumentType ty.resolved) {span : Span}
    {c : RuntimeClass F} (hc : t.classFor ty span = .ok c) : t.Admits c ∧ c.asTy = ty.resolved := by
  obtain ⟨hinst, hasTy⟩ := classFor_ok hc
  refine ⟨⟨⟨_, hinst⟩, ?_⟩, hasTy.symm⟩
  rcases h with h | ⟨name, hname⟩
  · rwa [← hasTy]
  · rw [hname] at hasTy
    have harity := hinst.arity?_eq
    rw [RuntimeClass.asTy, ClassTy.toTy] at hasTy
    injection hasTy with hn hargs
    rw [← hn, ← hargs] at harity
    rw [RuntimeClass.asTy, ClassTy.toTy, ← hn, ← hargs]
    exact Ty.formed_cls.mpr ⟨harity, Ty.allFormed_nil⟩

theorem ArgumentType.formed {ty : Ty} (h : t.ArgumentType ty) {span : Span} {c : RuntimeClass F}
    (hc : t.classFor ty span = .ok c) : ty.Formed t.arity? [] := by
  have hresolved := Ty.resolved_of_isGround h.isGround
  obtain ⟨hadmits, hasTy⟩ := ArgumentType.admits (hresolved.symm ▸ h) hc
  rw [← hresolved, ← hasTy]
  exact hadmits.formed

mutual

/-- Where the parameters in scope stand for formed types, a written type means a class of one. -/
theorem admits_meaning (hp : params.Formed t.arity? []) : ∀ {e : TypeExpr} {c : RuntimeClass F},
    t.meaning params e = .ok c → t.Admits c
  | ⟨name, generics, span⟩, c, h => by
    rw [meaning] at h
    split at h
    · next found _ hfound => exact (ArgumentType.admits (.inl (hp _ (mem_of_lookup hfound))) h).1
    · split at h
      · cases h
      · next args hargs =>
        unfold classNamed at h
        split at h
        · cases h
        · next full _ =>
          have hformed := allFormed_meanings hp hargs
          obtain ⟨hinst, hasTy⟩ := classFor_ok h
          rw [Ty.resolved_of_isGround (Ty.isGround_cls.mpr hformed.allGround)] at hasTy
          rw [RuntimeClass.asTy, ClassTy.toTy] at hasTy
          injection hasTy with hn hargs
          refine ⟨⟨_, hinst⟩, Ty.formed_cls.mpr ⟨hinst.arity?_eq, ?_⟩⟩
          rwa [← hargs]

theorem allFormed_meanings (hp : params.Formed t.arity? []) : ∀ {es : List TypeExpr}
    {args : List Ty}, t.meanings params es = .ok args → Ty.AllFormed t.arity? [] args
  | [], args, h => by
    rw [meanings] at h
    cases h
    exact Ty.allFormed_nil
  | e :: rest, args, h => by
    rw [meanings] at h
    split at h
    · cases h
    · next c hc =>
      split at h
      · cases h
      · next tys htys =>
        cases h
        exact Ty.allFormed_cons.mpr ⟨(admits_meaning hp hc).formed, allFormed_meanings hp htys⟩

end

namespace Admits

variable {c : RuntimeClass F}

/-- The parameters of a class of a formed type are bound to formed types. -/
theorem formed_params (h : t.Admits c) (names : List String) : c.params.Formed t.arity? names := by
  obtain ⟨⟨key, hi⟩, hformed⟩ := h
  rw [RuntimeClass.asTy, hi.ty_eq] at hformed
  have hargs := (Ty.formed_cls.mp hformed).2
  cases hi with
  | root _ _ _ _ => exact .bound hargs
  | derived _ _ _ _ _ => exact .bound hargs

end Admits

end ClassTable

/-! ## What a call binds -/

namespace Bindings

variable {arity : String → Option Nat} {name : String} {u : Ty}

mutual

/-- What a formed type binds is formed. -/
theorem formed_of_mem_fill : ∀ {formal actual : Ty}, actual.Formed arity [] →
    (name, u) ∈ fill formal actual → u.Formed arity []
  | .unbound n, actual, hactual, h => by
    rw [fill] at h
    split at h
    · cases h
    · cases List.mem_singleton.mp h
      rwa [Ty.resolved_of_isGround hactual.isGround]
  | .bound _ _, _, _, h => by
    rw [fill] at h
    cases h
  | .cls _ formals, actual, hactual, h => by
    rw [fill, Ty.resolved_of_isGround hactual.isGround] at h
    split at h
    · exact formed_of_mem_fillAll (Ty.formed_cls.mp hactual).2 h
    · cases h

theorem formed_of_mem_fillAll : ∀ {formals actuals : List Ty}, Ty.AllFormed arity [] actuals →
    (name, u) ∈ fillAll formals actuals → u.Formed arity []
  | [], _, _, h => by
    rw [fillAll] at h
    · cases h
    · simp
  | _ :: _, [], _, h => by
    rw [fillAll] at h
    · cases h
    · simp
  | _ :: _, _ :: _, hactuals, h => by
    obtain ⟨hactual, hrest⟩ := Ty.allFormed_cons.mp hactuals
    rw [fillAll] at h
    exact (List.mem_append.mp h).elim (formed_of_mem_fill hactual) (formed_of_mem_fillAll hrest)

end

variable {t : ClassTable F}

/-- The bare name of a class has no arguments to bind anything to: it is bound itself, or not at all. -/
theorem mem_fill_named {formal : Ty} {n : String} (h : (name, u) ∈ fill formal (.named n)) :
    formal = .unbound name ∧ u = .named n := by
  cases formal with
  | unbound k =>
    rw [fill] at h
    split at h
    · cases h
    · cases List.mem_singleton.mp h
      exact ⟨rfl, rfl⟩
  | bound k ty =>
    rw [fill] at h
    cases h
  | cls k formals =>
    rw [fill, Ty.named, Ty.resolved, Ty.resolvedAll] at h
    dsimp only at h
    cases formals with
    | nil =>
      rw [fillAll] at h
      · cases h
      · simp
    | cons formal rest =>
      rw [fillAll] at h
      · cases h
      · simp

/--
What the types of arguments bind is formed, unless it is the bare name of a class; the parameter
that is bound to that is then the whole type of some parameter of the method.
-/
theorem cases_of_mem_fillAll : ∀ {formals actuals : List Ty},
    (∀ a ∈ actuals, t.ArgumentType a) → (name, u) ∈ fillAll formals actuals →
    u.Formed t.arity? [] ∨ t.ArgumentType u ∧ .unbound name ∈ formals
  | [], _, _, h => by
    rw [fillAll] at h
    · cases h
    · simp
  | _ :: _, [], _, h => by
    rw [fillAll] at h
    · cases h
    · simp
  | formal :: formals, actual :: actuals, hactuals, h => by
    obtain ⟨hactual, hrest⟩ := List.forall_mem_cons.mp hactuals
    rw [fillAll] at h
    rcases List.mem_append.mp h with h | h
    · rcases hactual with hformed | ⟨n, rfl⟩
      · exact .inl (formed_of_mem_fill hformed h)
      · obtain ⟨rfl, rfl⟩ := mem_fill_named h
        exact .inr ⟨.named n, List.mem_cons_self⟩
    · exact (cases_of_mem_fillAll hrest h).imp_right fun hu =>
        ⟨hu.1, List.mem_cons_of_mem _ hu.2⟩

end Bindings

namespace ClassTable

variable {t : ClassTable F} {s : Signature}

/-- Complete bindings bind all parameters of a signature to formed types, if they did so before. -/
theorem bindsFormed_complete (hobject : Ty.object.Formed t.arity? []) {b : Bindings}
    (hb : ∀ n u, b.lookup n = some u → u.Formed t.arity? []) :
    Ty.BindsFormed t.arity? (b.complete s) s.generics := by
  intro n hn
  rw [Bindings.lookup_complete b hn]
  cases hlookup : b.lookup n with
  | some u => exact ⟨u, rfl, hb n u hlookup⟩
  | none => exact ⟨.object, rfl, hobject⟩

/-- What makes a signature applicable is what its parameters infer from the arguments. -/
theorem eq_infer_of_applicable {args : List Ty} {b : Bindings} (h : t.applicable s args = some b) :
    b = Bindings.infer s.paramTypes args := by
  unfold applicable at h
  dsimp only at h
  split at h
  · split at h
    · cases h
      rfl
    · cases h
  · cases h

/--
A call binds the parameters of a method to formed types, if the parameters of the method have
classes once they are bound.
-/
theorem bindsFormed_of_classes (hobject : Ty.object.Formed t.arity? []) {args : List Ty}
    (hargs : ∀ a ∈ args, t.ArgumentType a) {b : Bindings} (hb : t.applicable s args = some b)
    (hclasses : ∀ q ∈ s.params, ∃ span c, t.classFor (q.ty.substitute (b.complete s)) span = .ok c) :
    Ty.BindsFormed t.arity? (b.complete s) s.generics := by
  refine bindsFormed_complete hobject fun n u hu => ?_
  have hmem := mem_of_lookup hu
  rw [eq_infer_of_applicable hb] at hmem
  rcases Bindings.cases_of_mem_fillAll hargs (List.mem_reverse.mp hmem) with h | ⟨harg, hparam⟩
  · exact h
  · -- What is bound is the type of a parameter of the method, which has a class.
    obtain ⟨q, hq, hty⟩ := List.mem_map.mp hparam
    obtain ⟨span, c, hc⟩ := hclasses q hq
    have hcomplete : (b.complete s).lookup n = some u := by
      rw [Bindings.complete, List.lookup_append, hu, Option.some_or]
    rw [hty, Ty.substitute, hcomplete] at hc
    exact harg.formed hc

end ClassTable

end Middleweight
