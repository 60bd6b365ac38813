import Middleweight.Members.Registry
import Middleweight.Proofs.ClassTable.Walk
import Middleweight.Proofs.Types.Ground

/-!
# What the registry makes

Which runtime class belongs to a class type, and which static view to a class name, is determined by
the table alone: `Instantiates` and `Views` say it without a registry. A registry is valid when all
it remembers is of this kind, and every registry that calls lead to is valid.

* `Registry.classOf_ok`, `Registry.staticView_ok` : what a valid registry answers is what the table
  determines, and it stays valid
* `Registry.Reachable.valid` : reachable registries are valid
-/

namespace Middleweight

variable {F : Type}

/-- The type of the base class of an instantiation. -/
def Template.baseKey (c : Template F) (base : ClassTy) (args : List Ty) : ClassTy :=
  ⟨base.name, Ty.resolvedAll (base.substitute (Bindings.zip c.generics args)).args⟩

namespace ClassTable

/-- A runtime class is the instantiation of a class type with ground arguments. -/
inductive Instantiates (t : ClassTable F) : ClassTy → RuntimeClass F → Prop
  | root {key : ClassTy} {c : Template F} :
      Ty.AllGround key.args → t.get? key.name = some c → c.generics.length = key.args.length →
      c.base = none → Instantiates t key (.ofTemplate c key none)
  | derived {key : ClassTy} {c : Template F} {base : ClassTy} {b : RuntimeClass F} :
      Ty.AllGround key.args → t.get? key.name = some c → c.generics.length = key.args.length →
      c.base = some base → Instantiates t (c.baseKey base key.args) b →
      Instantiates t key (.ofTemplate c key (some b))

/-- A runtime class is the static view of a class. -/
inductive Views (t : ClassTable F) : String → RuntimeClass F → Prop
  | root {name : String} {c : Template F} :
      t.get? name = some c → c.base = none → Views t name (.staticOfTemplate c none)
  | derived {name : String} {c : Template F} {base : ClassTy} {b : RuntimeClass F} :
      t.get? name = some c → c.base = some base → Views t base.name b →
      Views t name (.staticOfTemplate c (some b))

variable {t : ClassTable F}

/-! ## Instantiations -/

namespace Instantiates

variable {key : ClassTy} {c d : RuntimeClass F}

/-- Only class types without parameters are instantiated. -/
theorem ground (h : t.Instantiates key c) : Ty.AllGround key.args := by
  cases h with
  | root hg _ _ _ => exact hg
  | derived hg _ _ _ _ => exact hg

/-- An instantiation knows the class type it was made for. -/
theorem ty_eq (h : t.Instantiates key c) : c.ty = key := by
  cases h <;> rfl

theorem isStaticView_eq (h : t.Instantiates key c) : c.isStaticView = false := by
  cases h <;> rfl

/-- A class type has at most one instantiation. -/
theorem unique (h : t.Instantiates key c) (h' : t.Instantiates key d) : c = d := by
  induction h generalizing d with
  | root _ hg _ hb =>
    cases h' with
    | root _ hg' _ _ => cases hg.symm.trans hg'; rfl
    | derived _ hg' _ hb' _ =>
      cases hg.symm.trans hg'
      simp [hb] at hb'
  | derived _ hg _ hb _ ih =>
    cases h' with
    | root _ hg' _ hb' =>
      cases hg.symm.trans hg'
      simp [hb] at hb'
    | derived _ hg' _ hb' hc =>
      cases hg.symm.trans hg'
      cases hb.symm.trans hb'
      rw [ih hc]

/-- An instantiation has a layer for every class on the walk from its name. -/
theorem climbs (h : t.Instantiates key c) : t.Climbs key.name c.layers.length := by
  induction h with
  | root _ hg _ hb => exact .root hg hb
  | derived _ hg _ hb _ ih => exact .step hg hb ih

end Instantiates

/-! ## Static views -/

namespace Views

variable {name : String} {c d : RuntimeClass F}

/-- A static view knows the name it was made for, and no arguments. -/
theorem ty_eq (h : t.Views name c) : c.ty = ⟨name, []⟩ := by
  cases h with
  | root hg _ => rw [← get?_name hg]; rfl
  | derived hg _ _ => rw [← get?_name hg]; rfl

theorem isStaticView_eq (h : t.Views name c) : c.isStaticView = true := by
  cases h <;> rfl

/-- A class has at most one static view. -/
theorem unique (h : t.Views name c) (h' : t.Views name d) : c = d := by
  induction h generalizing d with
  | root hg hb =>
    cases h' with
    | root hg' _ => cases hg.symm.trans hg'; rfl
    | derived hg' hb' _ =>
      cases hg.symm.trans hg'
      simp [hb] at hb'
  | derived hg hb _ ih =>
    cases h' with
    | root hg' hb' =>
      cases hg.symm.trans hg'
      simp [hb] at hb'
    | derived hg' hb' hc =>
      cases hg.symm.trans hg'
      cases hb.symm.trans hb'
      rw [ih hc]

/-- A static view has a layer for every class on the walk from its name. -/
theorem climbs (h : t.Views name c) : t.Climbs name c.layers.length := by
  induction h with
  | root hg hb => exact .root hg hb
  | derived hg hb _ ih => exact .step hg hb ih

end Views

end ClassTable

/-! ## Valid registries -/

namespace Registry

/-- Everything that a registry remembers is what the table determines. -/
structure Valid (t : ClassTable F) (r : Registry F) : Prop where
  instances : ∀ e ∈ r.instances, t.Instantiates e.1 e.2
  staticViews : ∀ e ∈ r.staticViews, t.Views e.1 e.2

variable {t : ClassTable F} {r : Registry F}

/-- A new registry is valid. -/
theorem Valid.empty : Valid t {} := ⟨by simp, by simp⟩

/-- Adding an instantiation keeps a registry valid. -/
theorem Valid.insertInstance (hr : r.Valid t) {key : ClassTy} {c : RuntimeClass F}
    (h : t.Instantiates key c) : Valid t { r with instances := (key, c) :: r.instances } where
  instances := by
    intro e he
    rcases List.mem_cons.mp he with rfl | he
    · exact h
    · exact hr.instances e he
  staticViews := hr.staticViews

/-- Adding a static view keeps a registry valid. -/
theorem Valid.insertView (hr : r.Valid t) {name : String} {c : RuntimeClass F}
    (h : t.Views name c) : Valid t { r with staticViews := (name, c) :: r.staticViews } where
  instances := hr.instances
  staticViews := by
    intro e he
    rcases List.mem_cons.mp he with rfl | he
    · exact h
    · exact hr.staticViews e he

/-- What is found under a ground class type is its instantiation. -/
theorem Valid.instance? (hr : r.Valid t) {key : ClassTy} {c : RuntimeClass F}
    (hk : Ty.AllGround key.args) (h : r.instance? key = some c) : t.Instantiates key c := by
  obtain ⟨e, he, rfl⟩ := Option.map_eq_some_iff.mp h
  have hv := hr.instances e (List.mem_of_find?_eq_some he)
  have heq : (e.1 == key) = true := by simpa using List.find?_some he
  rw [(ClassTy.beq_iff_of_allGround hk).mp heq] at hv
  exact hv

theorem Valid.staticView? (hr : r.Valid t) {name : String} {c : RuntimeClass F}
    (h : r.staticView? name = some c) : t.Views name c := by
  obtain ⟨l, rest, hk, -⟩ := List.lookup_eq_some_iff.mp h
  exact hr.staticViews (name, c) (by simp [hk])

/-! ## What calls give -/

/--
What is made within any number of steps is an instantiation, and the registry stays valid: by
induction on the steps.
-/
theorem instantiateWithin_ok {span : Span} : ∀ {fuel : Nat} {r : Registry F} {key : ClassTy}
    {c : RuntimeClass F} {r' : Registry F}, r.Valid t → Ty.AllGround key.args →
    instantiateWithin t fuel r key span = .ok (c, r') → t.Instantiates key c ∧ r'.Valid t := by
  intro fuel
  induction fuel with
  | zero => intro r key c r' _ _ h; simp [instantiateWithin] at h
  | succ fuel ih =>
    intro r key c r' hr hk h
    rw [instantiateWithin] at h
    split at h
    · next hc =>
      cases h
      exact ⟨hr.instance? hk hc, hr⟩
    · split at h
      · cases h
      · next tm htm =>
        have hg := ClassTable.template_ok_iff.mp htm
        split at h
        · cases h
        · next hlen =>
          have hlen : tm.generics.length = key.args.length := by simpa using hlen
          split at h
          · next hb =>
            cases h
            have hi : t.Instantiates key _ := .root hk hg hlen hb
            exact ⟨hi, hr.insertInstance hi⟩
          · next base hb =>
            dsimp only at h
            split at h
            · cases h
            · next hub =>
              split at h
              · cases h
              · next b r₁ hrec =>
                cases h
                have hground : Ty.AllGround (tm.baseKey base key.args).args := by
                  have := Ty.allGround_resolvedAll hub
                  rwa [Ty.resolvedAll_resolvedAll] at this
                obtain ⟨hbase, hr₁⟩ := ih hr hground hrec
                have hi : t.Instantiates key _ := .derived hk hg hlen hb hbase
                exact ⟨hi, hr₁.insertInstance hi⟩

/-- What `instantiate` gives is the instantiation of its type. -/
theorem instantiate_ok (hr : r.Valid t) {ty : ClassTy} {span : Span} {c : RuntimeClass F}
    {r' : Registry F} (h : r.instantiate t ty span = .ok (c, r')) :
    t.Instantiates ⟨ty.name, Ty.resolvedAll ty.args⟩ c ∧ r'.Valid t := by
  unfold Registry.instantiate at h
  dsimp only at h
  split at h
  · cases h
  · next hub =>
    have hground := Ty.allGround_resolvedAll hub
    rw [Ty.resolvedAll_resolvedAll] at hground
    exact instantiateWithin_ok hr hground h

/-- What a valid registry gives for a type is the instantiation of that type. -/
theorem classOf_ok (hr : r.Valid t) {ty : Ty} {span : Span} {c : RuntimeClass F}
    {r' : Registry F} (h : r.classOf t ty span = .ok (c, r')) :
    t.Instantiates c.ty c ∧ ty.resolved = c.asTy ∧ r'.Valid t := by
  unfold classOf at h
  split at h
  · next name args hres =>
    obtain ⟨hi, hv⟩ := instantiate_ok hr h
    have hargs : Ty.resolvedAll args = args := by
      have := Ty.resolved_resolved ty
      rw [hres, Ty.resolved] at this
      injection this
    rw [hargs] at hi
    have hty := hi.ty_eq
    refine ⟨by rw [hty]; exact hi, ?_, hv⟩
    rw [hres, RuntimeClass.asTy, hty]
    rfl
  · cases h
  · cases h

/--
What is made within any number of steps is a static view, and the registry stays valid: by induction
on the steps.
-/
theorem staticViewWithin_ok {span : Span} : ∀ {fuel : Nat} {r : Registry F} {name : String}
    {c : RuntimeClass F} {r' : Registry F}, r.Valid t →
    staticViewWithin t fuel r name span = .ok (c, r') → t.Views name c ∧ r'.Valid t := by
  intro fuel
  induction fuel with
  | zero => intro r name c r' _ h; simp [staticViewWithin] at h
  | succ fuel ih =>
    intro r name c r' hr h
    rw [staticViewWithin] at h
    split at h
    · next hc =>
      cases h
      exact ⟨hr.staticView? hc, hr⟩
    · split at h
      · cases h
      · next tm htm =>
        have hg := ClassTable.template_ok_iff.mp htm
        split at h
        · next hb =>
          cases h
          have hi : t.Views name _ := .root hg hb
          exact ⟨hi, hr.insertView hi⟩
        · next base hb =>
          split at h
          · cases h
          · next b r₁ hrec =>
            cases h
            obtain ⟨hbase, hr₁⟩ := ih hr hrec
            have hi : t.Views name _ := .derived hg hb hbase
            exact ⟨hi, hr₁.insertView hi⟩

/-- What a valid registry gives for a class name is the static view of that class. -/
theorem staticView_ok (hr : r.Valid t) {name : String} {span : Span} {c : RuntimeClass F}
    {r' : Registry F} (h : r.staticView t name span = .ok (c, r')) :
    t.Views name c ∧ r'.Valid t :=
  staticViewWithin_ok hr h

/-! ## Reachable registries -/

/-- The registries that calls make out of the empty one. -/
inductive Reachable (t : ClassTable F) : Registry F → Prop
  | empty : Reachable t {}
  | classOf {r r' : Registry F} {ty : Ty} {span : Span} {c : RuntimeClass F} :
      Reachable t r → r.classOf t ty span = .ok (c, r') → Reachable t r'
  | instantiate {r r' : Registry F} {ty : ClassTy} {span : Span} {c : RuntimeClass F} :
      Reachable t r → r.instantiate t ty span = .ok (c, r') → Reachable t r'
  | staticView {r r' : Registry F} {name : String} {span : Span} {c : RuntimeClass F} :
      Reachable t r → r.staticView t name span = .ok (c, r') → Reachable t r'

/-- A registry that requests lead to is valid: by induction on the requests. -/
theorem Reachable.valid (h : Reachable t r) : r.Valid t := by
  induction h with
  | empty => exact .empty
  | classOf _ hc ih => exact (classOf_ok ih hc).2.2
  | «instantiate» _ hc ih => exact (instantiate_ok ih hc).2
  | staticView _ hc ih => exact (staticView_ok ih hc).2

end Registry

end Middleweight
