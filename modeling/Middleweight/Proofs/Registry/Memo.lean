import Middleweight.Proofs.Registry.Instantiation

/-!
# The registry is a memo

`ClassTable.classFor` and `ClassTable.viewFor` make a class out of the table alone. A valid registry
gives the same answers, errors included, whatever it remembers: an entry stands for a walk along
bases that has gone well before, and the number of classes leaves room for every such walk.

* `Registry.classOf_eq`, `Registry.staticView_eq` : the answers of a valid registry
-/

namespace Middleweight

variable {F : Type}

namespace ClassTable

/-! ## Classes without a registry -/

/-- The instantiation of a class type with resolved arguments. -/
def instantiation (t : ClassTable F) (span : Span) : Nat → ClassTy →
    Except TypeError (RuntimeClass F)
  | 0, key => .error (.endlessBases key.name span)
  | fuel + 1, key =>
    match t.template key.name span with
    | .error e => .error e
    | .ok c =>
      if c.generics.length ≠ key.args.length then
        .error (.genericArity key.name c.generics.length key.args.length span)
      else
        match c.base with
        | none => .ok (.ofTemplate c key none)
        | some base =>
          match Ty.firstUnboundIn? (c.baseKey base key.args).args with
          | some name => .error (.unboundGeneric name span)
          | none =>
            (t.instantiation span fuel (c.baseKey base key.args)).map fun b =>
              .ofTemplate c key (some b)

/-- The runtime class of a type. -/
def classFor (t : ClassTable F) (ty : Ty) (span : Span) : Except TypeError (RuntimeClass F) :=
  match ty.resolved with
  | .cls name args =>
    match Ty.firstUnboundIn? (Ty.resolvedAll args) with
    | some name => .error (.unboundGeneric name span)
    | none => t.instantiation span t.height ⟨name, Ty.resolvedAll args⟩
  | .unbound name | .bound name _ => .error (.unboundGeneric name span)

/-- The static view of a class. -/
def view (t : ClassTable F) (span : Span) : Nat → String → Except TypeError (RuntimeClass F)
  | 0, name => .error (.endlessBases name span)
  | fuel + 1, name =>
    match t.template name span with
    | .error e => .error e
    | .ok c =>
      match c.base with
      | none => .ok (.staticOfTemplate c none)
      | some base => (t.view span fuel base.name).map fun b => .staticOfTemplate c (some b)

/-- The static view of a name, or the error that stands in its way. -/
def viewFor (t : ClassTable F) (name : String) (span : Span) : Except TypeError (RuntimeClass F) :=
  t.view span t.height name

variable {t : ClassTable F}

/-- What the table determines is made, if there is room for the walk. -/
theorem Instantiates.instantiation_eq {key : ClassTy} {c : RuntimeClass F}
    (h : t.Instantiates key c) (span : Span) :
    ∀ {fuel : Nat}, c.layers.length ≤ fuel → t.instantiation span fuel key = .ok c := by
  induction h with
  | root hk hg hlen hb =>
    intro fuel hle
    cases fuel with
    | zero => exact absurd hle (by simp [RuntimeClass.layers])
    | succ fuel =>
      rw [instantiation, template_ok_iff.mpr hg]
      simp only [hlen, ne_eq, not_true_eq_false, if_false, hb]
  | @derived key tm base b hk hg hlen hb hbase ih =>
    intro fuel hle
    have hlayers : (RuntimeClass.ofTemplate tm key (some b)).layers.length =
        b.layers.length + 1 := rfl
    cases fuel with
    | zero => omega
    | succ fuel =>
      have hrec := @ih fuel (by omega)
      rw [instantiation, template_ok_iff.mpr hg]
      simp only [hlen, ne_eq, not_true_eq_false, if_false, hb,
        Ty.firstUnboundIn?_of_allGround hbase.ground, hrec, Except.map]

theorem Views.view_eq {name : String} {c : RuntimeClass F} (h : t.Views name c) (span : Span) :
    ∀ {fuel : Nat}, c.layers.length ≤ fuel → t.view span fuel name = .ok c := by
  induction h with
  | root hg hb =>
    intro fuel hle
    cases fuel with
    | zero => exact absurd hle (by simp [RuntimeClass.layers])
    | succ fuel =>
      rw [view, template_ok_iff.mpr hg]
      simp only [hb]
  | @derived name tm base b hg hb hbase ih =>
    intro fuel hle
    have hlayers : (RuntimeClass.staticOfTemplate tm (some b)).layers.length =
        b.layers.length + 1 := rfl
    cases fuel with
    | zero => omega
    | succ fuel =>
      have hrec := @ih fuel (by omega)
      rw [view, template_ok_iff.mpr hg]
      simp only [hb, hrec, Except.map]

/-- The instantiation of a ground class type is its runtime class. -/
theorem Instantiates.classFor_eq {key : ClassTy} {c : RuntimeClass F} (h : t.Instantiates key c)
    (span : Span) : t.classFor key.toTy span = .ok c := by
  have hres : key.toTy.resolved = .cls key.name key.args := by
    rw [ClassTy.toTy, Ty.resolved, Ty.resolvedAll_of_allGround h.ground]
  unfold classFor
  simp only [hres, Ty.resolvedAll_of_allGround h.ground, Ty.firstUnboundIn?_of_allGround h.ground]
  exact h.instantiation_eq span (Nat.le_of_lt h.climbs.lt_height)

theorem Views.viewFor_eq {name : String} {c : RuntimeClass F} (h : t.Views name c) (span : Span) :
    t.viewFor name span = .ok c :=
  h.view_eq span (Nat.le_of_lt h.climbs.lt_height)

/-! ## What is made is what the table determines -/

theorem instantiates_of_instantiation {span : Span} : ∀ {fuel : Nat} {key : ClassTy}
    {c : RuntimeClass F}, Ty.AllGround key.args → t.instantiation span fuel key = .ok c →
    t.Instantiates key c := by
  intro fuel
  induction fuel with
  | zero => intro key c _ h; simp [instantiation] at h
  | succ fuel ih =>
    intro key c hk h
    rw [instantiation] at h
    split at h
    · cases h
    · next tm htm =>
      have hg := template_ok_iff.mp htm
      split at h
      · cases h
      · next hlen =>
        have hlen : tm.generics.length = key.args.length := by simpa using hlen
        split at h
        · next hb =>
          cases h
          exact .root hk hg hlen hb
        · next base hb =>
          split at h
          · cases h
          · next hub =>
            obtain ⟨b, hrec, rfl⟩ := ok_of_map h
            have hground : Ty.AllGround (tm.baseKey base key.args).args := by
              have := Ty.allGround_resolvedAll hub
              rwa [Template.baseKey, Ty.resolvedAll_resolvedAll] at this
            exact .derived hk hg hlen hb (ih hground hrec)

/-- The runtime class of a type is an instantiation, and the type resolves to its class type. -/
theorem classFor_ok {ty : Ty} {span : Span} {c : RuntimeClass F}
    (h : t.classFor ty span = .ok c) : t.Instantiates c.ty c ∧ ty.resolved = c.asTy := by
  unfold classFor at h
  split at h
  · next name args hres =>
    split at h
    · cases h
    · next hub =>
      have hground := Ty.allGround_resolvedAll hub
      rw [Ty.resolvedAll_resolvedAll] at hground
      have hargs : Ty.resolvedAll args = args := by
        have := Ty.resolved_resolved ty
        rw [hres, Ty.resolved] at this
        injection this
      have hi := instantiates_of_instantiation hground h
      have hty := hi.ty_eq
      refine ⟨by rw [hty]; exact hi, ?_⟩
      rw [hres, RuntimeClass.asTy, hty, ClassTy.toTy, hargs]
  · cases h
  · cases h

theorem views_of_view {span : Span} : ∀ {fuel : Nat} {name : String} {c : RuntimeClass F},
    t.view span fuel name = .ok c → t.Views name c := by
  intro fuel
  induction fuel with
  | zero => intro name c h; simp [view] at h
  | succ fuel ih =>
    intro name c h
    rw [view] at h
    split at h
    · cases h
    · next tm htm =>
      have hg := template_ok_iff.mp htm
      split at h
      · next hb =>
        cases h
        exact .root hg hb
      · next base hb =>
        obtain ⟨b, hrec, rfl⟩ := ok_of_map h
        exact .derived hg hb (ih hrec)

end ClassTable

/-! ## Valid registries answer like the table -/

namespace Registry

open ClassTable

variable {t : ClassTable F}

/-- The class that a call gives, without the registry. -/
abbrev given (x : Except TypeError (RuntimeClass F × Registry F)) :
    Except TypeError (RuntimeClass F) :=
  x.map Prod.fst

theorem instantiateWithin_eq {span : Span} : ∀ {fuel : Nat} {r : Registry F} {key : ClassTy},
    r.Valid t → Ty.AllGround key.args → (∀ n, t.Climbs key.name n → n ≤ fuel) →
    given (instantiateWithin t fuel r key span) = t.instantiation span fuel key := by
  intro fuel
  induction fuel with
  | zero => intro r key _ _ _; rfl
  | succ fuel ih =>
    intro r key hr hk hroom
    rw [instantiateWithin]
    cases hc : r.instance? key with
    | some c =>
      have hi := hr.instance? hk hc
      exact (hi.instantiation_eq span (hroom _ hi.climbs)).symm
    | none =>
      rw [instantiation]
      cases htm : t.template key.name span with
      | error e => rfl
      | ok tm =>
        dsimp only
        by_cases hlen : tm.generics.length = key.args.length
        · rw [if_neg (by simpa using hlen), if_neg (by simpa using hlen)]
          cases hb : tm.base with
          | none => rfl
          | some base =>
            have hargs : Ty.resolvedAll (base.substitute (Bindings.zip tm.generics key.args)).args =
                (tm.baseKey base key.args).args := rfl
            have hkey : (⟨base.name, (tm.baseKey base key.args).args⟩ : ClassTy) =
                tm.baseKey base key.args := rfl
            dsimp only
            rw [hargs, hkey]
            cases hub : Ty.firstUnboundIn? (tm.baseKey base key.args).args with
            | some name => rfl
            | none =>
              have hground : Ty.AllGround (tm.baseKey base key.args).args := by
                have := Ty.allGround_resolvedAll hub
                rwa [Template.baseKey, Ty.resolvedAll_resolvedAll] at this
              have hrec : given (instantiateWithin t fuel r (tm.baseKey base key.args) span) = _ :=
                ih hr hground fun n hn => by
                  have := hroom _ (.step (template_ok_iff.mp htm) hb hn)
                  omega
              dsimp only
              rw [← hrec]
              cases instantiateWithin t fuel r (tm.baseKey base key.args) span with
              | error e => rfl
              | ok x => rfl
        · rw [if_pos (by simpa using hlen), if_pos (by simpa using hlen)]
          rfl

/-- Whatever a valid registry remembers, the class it gives for a type is that of the table. -/
theorem classOf_eq {r : Registry F} (hr : r.Valid t) (ty : Ty) (span : Span) :
    given (r.classOf t ty span) = t.classFor ty span := by
  unfold Registry.classOf classFor
  cases hres : ty.resolved with
  | unbound n => rfl
  | bound n u => rfl
  | cls name args =>
    dsimp only
    unfold Registry.instantiate
    dsimp only
    cases hub : Ty.firstUnboundIn? (Ty.resolvedAll args) with
    | some n => rfl
    | none =>
      have hground := Ty.allGround_resolvedAll hub
      rw [Ty.resolvedAll_resolvedAll] at hground
      have hroom : ∀ n, t.Climbs (ClassTy.name ⟨name, Ty.resolvedAll args⟩) n → n ≤ t.height :=
        fun n hn => Nat.le_of_lt hn.lt_height
      exact instantiateWithin_eq hr hground hroom

theorem staticViewWithin_eq {span : Span} : ∀ {fuel : Nat} {r : Registry F} {name : String},
    r.Valid t → (∀ n, t.Climbs name n → n ≤ fuel) →
    given (staticViewWithin t fuel r name span) = t.view span fuel name := by
  intro fuel
  induction fuel with
  | zero => intro r name _ _; rfl
  | succ fuel ih =>
    intro r name hr hroom
    rw [staticViewWithin]
    cases hc : r.staticView? name with
    | some c =>
      have hv := hr.staticView? hc
      exact (hv.view_eq span (hroom _ hv.climbs)).symm
    | none =>
      rw [view]
      cases htm : t.template name span with
      | error e => rfl
      | ok tm =>
        dsimp only
        cases hb : tm.base with
        | none => rfl
        | some base =>
          have hrec := @ih r base.name hr fun n hn => by
            have := hroom _ (.step (template_ok_iff.mp htm) hb hn)
            omega
          dsimp only
          rw [← hrec]
          cases staticViewWithin t fuel r base.name span with
          | error e => rfl
          | ok x => rfl

/-- Whatever a valid registry remembers, the static view it gives is that of the table. -/
theorem staticView_eq {r : Registry F} (hr : r.Valid t) (name : String) (span : Span) :
    given (r.staticView t name span) = t.viewFor name span :=
  staticViewWithin_eq hr fun _ hn => Nat.le_of_lt hn.lt_height

end Registry

end Middleweight
