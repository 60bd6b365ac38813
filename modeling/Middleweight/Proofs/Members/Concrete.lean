import Middleweight.Engine.Invoke
import Middleweight.Proofs.ClassTable.Closed
import Middleweight.Proofs.Members.Views

/-!
# Members of made classes

The classes that a run makes are instantiations with ground arguments, and static views. Their base
classes are of the same kind. A member chosen from them leaves nothing open but its own parameters,
so that its parameter and return types are ground once these are bound.

* `ClassTable.Makes.extends` : base classes of made classes are made classes
* `ClassTable.extends_of_found` : a chosen method belongs to a class or to one of its bases
* `Selected.Sound.isGround_param`, `Selected.Sound.isGround_returnType` : types of chosen members
-/

namespace Middleweight

variable {F : Type}

/-! ## Base classes -/

namespace RuntimeClass

/-- A class is another one or extends it, directly or through others. -/
inductive Extends : RuntimeClass F → RuntimeClass F → Prop
  | refl (c : RuntimeClass F) : Extends c c
  | base {c b d : RuntimeClass F} : c.base? = some b → Extends b d → Extends c d

theorem base?_eq_some {c b : RuntimeClass F} (h : c.base? = some b) :
    b.isStaticView = c.isStaticView ∧ c.ancestors = b.layers := by
  unfold base? at h
  split at h
  · cases h
  · next hancestors =>
    cases h
    exact ⟨rfl, hancestors⟩

namespace Extends

variable {c d e : RuntimeClass F}

theorem trans (h : c.Extends d) (h' : d.Extends e) : c.Extends e := by
  induction h with
  | refl c => exact h'
  | base hb _ ih => exact .base hb (ih h')

theorem isStaticView_eq (h : c.Extends d) : d.isStaticView = c.isStaticView := by
  induction h with
  | refl c => rfl
  | base hb _ ih => rw [ih, (base?_eq_some hb).1]

/-- The layers of a base class are among those of the class. -/
theorem own_mem (h : c.Extends d) : d.own ∈ c.layers := by
  induction h with
  | refl c => exact List.mem_cons_self
  | base hb _ ih =>
    rw [layers, (base?_eq_some hb).2]
    exact List.mem_cons_of_mem _ ih

end Extends

end RuntimeClass

namespace ClassTable

/-- A class that a run makes: the instantiation of a class type. -/
def Makes (t : ClassTable F) (c : RuntimeClass F) : Prop := ∃ key, t.Instantiates key c

/-- A class that a run makes for static members: the static view of a class. -/
def Shows (t : ClassTable F) (c : RuntimeClass F) : Prop := ∃ name, t.Views name c

variable {t : ClassTable F} {c d : RuntimeClass F}

namespace Makes

theorem instantiates (h : t.Makes c) : t.Instantiates c.ty c := by
  obtain ⟨key, hi⟩ := h
  rw [hi.ty_eq]
  exact hi

/-- A made class is the instantiation of its type. -/
theorem instantiates_of_asTy (h : t.Makes c) {name : String} {args : List Ty}
    (hty : c.asTy = .cls name args) : t.Instantiates ⟨name, args⟩ c := by
  obtain ⟨key, hi⟩ := h
  rw [RuntimeClass.asTy, hi.ty_eq] at hty
  cases hty
  exact hi

theorem isGround (h : t.Makes c) : c.asTy.IsGround := Ty.isGround_cls.mpr h.instantiates.ground

theorem isStaticView_eq (h : t.Makes c) : c.isStaticView = false := h.instantiates.isStaticView_eq

theorem get? (h : t.Makes c) : t.get? c.name = some c.own.template :=
  (own_instantiation h.instantiates).1

theorem concrete_params (h : t.Makes c) : c.params.Concrete := by
  obtain ⟨key, hi⟩ := h
  cases hi with
  | root hk hg hlen hb => exact TypeParams.concrete_bound hk
  | derived hk hg hlen hb hbase => exact TypeParams.concrete_bound hk

/-- The base class of a made class is made. -/
theorem base (h : t.Makes c) {b : RuntimeClass F} (hb : c.base? = some b) : t.Makes b := by
  obtain ⟨key, hi⟩ := h
  cases hi with
  | root hk hg hlen hnone => cases hb
  | derived hk hg hlen hbase hi =>
    rw [RuntimeClass.base?_ofTemplate _ _ hi.isStaticView_eq] at hb
    cases hb
    exact ⟨_, hi⟩

theorem «extends» (h : t.Makes c) (hd : c.Extends d) : t.Makes d := by
  induction hd with
  | refl c => exact h
  | base hb _ ih => exact ih (h.base hb)

/-- The fields of a made class have ground types. -/
theorem isGround_fields (h : t.Makes c) (ht : t.Closed) : ∀ f ∈ c.allFields, f.ty.IsGround := by
  have hown : ∀ {key : ClassTy} {tm : Template F}, Ty.AllGround key.args →
      t.get? key.name = some tm → tm.generics.length = key.args.length →
      ∀ f ∈ tm.fields, (f.ty.substitute (Bindings.zip tm.generics key.args)).IsGround :=
    fun hk hg hlen f hf =>
      Ty.isGround_substitute (Bindings.bindsAll_zip hk hlen) (ht.fields hg f hf)
  obtain ⟨key, hi⟩ := h
  induction hi with
  | root hk hg hlen hb =>
    intro slot hs
    obtain ⟨l, hl, hs⟩ := List.mem_flatMap.mp hs
    rw [List.mem_singleton.mp hl] at hs
    obtain ⟨f, hf, rfl⟩ := List.mem_map.mp hs
    exact hown hk hg hlen f hf
  | derived hk hg hlen hb hbase ih =>
    intro slot hs
    obtain ⟨l, hl, hs⟩ := List.mem_flatMap.mp hs
    rcases List.mem_cons.mp hl with rfl | hl
    · obtain ⟨f, hf, rfl⟩ := List.mem_map.mp hs
      exact hown hk hg hlen f hf
    · exact ih slot (List.mem_flatMap.mpr ⟨l, hl, hs⟩)

end Makes

namespace Shows

theorem isGround (h : t.Shows c) : c.asTy.IsGround := by
  obtain ⟨name, hv⟩ := h
  rw [RuntimeClass.asTy, hv.ty_eq]
  exact Ty.isGround_cls.mpr Ty.allGround_nil

theorem isStaticView_eq (h : t.Shows c) : c.isStaticView = true := by
  obtain ⟨name, hv⟩ := h
  exact hv.isStaticView_eq

theorem get? (h : t.Shows c) : t.get? c.name = some c.own.template := by
  obtain ⟨name, hv⟩ := h
  rw [RuntimeClass.name, hv.ty_eq]
  cases hv with
  | root hg hb => exact hg
  | derived hg hb _ => exact hg

theorem base (h : t.Shows c) {b : RuntimeClass F} (hb : c.base? = some b) : t.Shows b := by
  obtain ⟨name, hv⟩ := h
  cases hv with
  | root hg hnone => cases hb
  | derived hg hbase hv =>
    rw [RuntimeClass.base?_staticOfTemplate _ hv.isStaticView_eq] at hb
    cases hb
    exact ⟨_, hv⟩

theorem «extends» (h : t.Shows c) (hd : c.Extends d) : t.Shows d := by
  induction hd with
  | refl c => exact h
  | base hb _ ih => exact ih (h.base hb)

end Shows

/-! ## Chosen members -/

theorem extends_of_methodFrom {start : RuntimeClass F} {name : String} {isStatic : Bool}
    {args : List Ty} {s : Selected F (RuntimeClass F)} : ∀ {fuel : Nat} {c : RuntimeClass F},
    t.runtimeMembers.methodFrom t start name isStatic args fuel c = .ok (.found s) →
    c.Extends s.owner := by
  intro fuel
  induction fuel with
  | zero => intro c h; cases h
  | succ fuel ih =>
    intro c h
    rw [MemberSource.methodFrom] at h
    split at h
    · cases h
    · split at h
      · cases h
        exact .refl c
      · split at h
        · cases h
        · next b hbase => exact .base (Except.ok.inj hbase) (ih h)
        · cases h
      · cases h

/-- A chosen method belongs to the class or to one of its bases. -/
theorem extends_of_found {name : String} {isStatic : Bool} {args : List Ty}
    {s : Selected F (RuntimeClass F)}
    (h : t.runtimeMembers.resolveMethod t c name isStatic args = .ok (.found s)) :
    c.Extends s.owner :=
  extends_of_methodFrom h

theorem allGround_applicable {s : Signature} {args : List Ty} {b : Bindings}
    (h : t.applicable s args = some b) (hargs : Ty.AllGround args) : Bindings.AllGround b := by
  unfold applicable at h
  dsimp only at h
  split at h
  · split at h
    · cases h
      exact Bindings.allGround_infer hargs
    · cases h
  · cases h

end ClassTable

/-- A member chosen with ground arguments from a made class. -/
structure Selected.Sound (t : ClassTable F) (s : Selected F (RuntimeClass F)) : Prop where
  owner : t.Makes s.owner ∨ (t.Shows s.owner ∧ s.member.isStatic = true)
  signature : t.signature s.member s.owner.params = .ok s.signature
  bindings : Bindings.AllGround s.bindings

/-! ## Complete bindings -/

/-- Complete bindings bind the parameters of a signature, to the root class if to nothing else. -/
theorem Bindings.lookup_complete (b : Bindings) {s : Signature} {g : String}
    (hg : g ∈ s.generics) : (b.complete s).lookup g = some ((b.lookup g).getD .object) := by
  unfold Bindings.complete
  rw [List.lookup_append]
  cases hlookup : b.lookup g with
  | some u => rfl
  | none =>
    have hroot : (g, Ty.object) ∈ (s.generics.filter fun g => (b.lookup g).isNone).map
        fun g => (g, Ty.object) :=
      List.mem_map.mpr ⟨g, List.mem_filter.mpr ⟨hg, by simp [hlookup]⟩, rfl⟩
    rw [Option.none_or]
    refine lookup_eq_of_forall hroot fun e he _ => ?_
    obtain ⟨k, -, rfl⟩ := List.mem_map.mp he
    rfl

/-- Complete bindings bind all parameters of a signature to ground types. -/
theorem Bindings.bindsAll_complete {b : Bindings} (hb : Bindings.AllGround b) (s : Signature) :
    Ty.BindsAll (b.complete s) s.generics := by
  intro g hg
  rw [lookup_complete b hg]
  cases hlookup : b.lookup g with
  | some u => exact ⟨u, rfl, hb _ (mem_of_lookup hlookup)⟩
  | none => exact ⟨.object, rfl, Ty.isGround_cls.mpr Ty.allGround_nil⟩

/-- The parameters of a method are bound to concrete types for an invocation. -/
theorem Signature.concrete_boundGenerics {s : Signature} {b : Bindings}
    (hb : Ty.BindsAll b s.generics) : (s.boundGenerics b).Concrete := by
  intro e he
  obtain ⟨g, hg, rfl⟩ := List.mem_map.mp (List.mem_reverse.mp he)
  obtain ⟨u, hu, hground⟩ := hb g hg
  rw [Ty.firstUnbound?, hu]
  show u.resolved.firstUnbound? = none
  rw [Ty.resolved_of_isGround hground]
  exact Ty.firstUnbound?_of_isGround hground

namespace Selected.Sound

variable {t : ClassTable F} {s : Selected F (RuntimeClass F)} (h : s.Sound t)

include h

/-- The types of a chosen member are open in its own parameters. -/
theorem openIn_memberParams :
    (ClassTable.memberParams s.member s.owner.params).OpenIn s.signature.generics := by
  have hgenerics := (ClassTable.signature_ok h.signature).2.2
  rw [hgenerics]
  unfold ClassTable.memberParams
  refine TypeParams.OpenIn.pushUnbound ?_ fun _ hn => hn
  split
  · exact fun _ he => absurd he List.not_mem_nil
  · next hinstance =>
    rcases h.owner with hmade | ⟨-, hstatic⟩
    · exact hmade.concrete_params.openIn _
    · exact absurd hstatic hinstance

/-- Once its parameters are bound, a chosen member has ground parameter types. -/
theorem isGround_param {b : Bindings} (hb : Ty.BindsAll b s.signature.generics) {q : Param}
    (hq : q ∈ s.signature.params) : (q.ty.substitute b).IsGround := by
  obtain ⟨e, -, -, hlower⟩ :=
    exists_of_forall₂_mem (ClassTable.signature_lowers h.signature).1 hq
  exact Ty.isGround_substitute hb (LoweringContext.openIn_lower h.openIn_memberParams hlower)

/-- Once its parameters are bound, a chosen member has a ground return type. -/
theorem isGround_returnType {b : Bindings} (hb : Ty.BindsAll b s.signature.generics) {ty : Ty}
    (hty : s.signature.returnType = some ty) : (ty.substitute b).IsGround := by
  rcases rel_elim (ClassTable.signature_lowers h.signature).2 with
    ⟨-, hnone⟩ | ⟨e, ty', -, hsome, hlower⟩
  · rw [hnone] at hty
    cases hty
  · rw [hsome] at hty
    cases hty
    exact Ty.isGround_substitute hb (LoweringContext.openIn_lower h.openIn_memberParams hlower)

end Selected.Sound

end Middleweight
