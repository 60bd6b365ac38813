import Middleweight.Native.Standard
import Middleweight.Proofs.Members.Agreement
import Middleweight.Proofs.Registry.Instantiation
import Middleweight.Syntax.Build

/-!
# Class types and runtime classes resolve members alike

A call is resolved twice: over class types, whose bases and signatures are worked out from the
templates each time, and over runtime classes, which carry their base classes and parameters with
them. `resolution_views_agree` says that the two answers are the same.

An instantiation corresponds to its own class type, for bound parameters give way in every base type
and what is put in is ground. A static view corresponds to every class type of its name, for static
members do not see the parameters of their class.
-/

namespace Middleweight

variable {F : Type} {t : ClassTable F}

/-- The same outcome with another owner. -/
def Resolution.mapOwner {O P : Type} (f : O → P) : Resolution F O → Resolution F P
  | .found s => .found ⟨f s.owner, s.member, s.signature, s.bindings⟩
  | .defaultConstructor => .defaultConstructor
  | .ambiguous a => .ambiguous a
  | .missing m => .missing m

/-- Resolutions over related owners are the same once each owner is read as a class type. -/
theorem Resolution.Related.eq_mapOwner {O P Q : Type} {f : O → Q} {g : P → Q}
    {RO : O → P → Prop} (hR : ∀ o p, RO o p → f o = g p) {x : Resolution F O}
    {y : Resolution F P} (h : Resolution.Related RO (fun _ => Eq) x y) : x.mapOwner f = y.mapOwner g := by
  cases h with
  | found s b ho hm =>
    subst hm
    simp only [mapOwner, hR _ _ ho]
  | defaultConstructor => rfl
  | ambiguous a => rfl
  | missing m => rfl

theorem Resolution.Related.eq_of_owner {O P : Type} {g : P → O} {RO : O → P → Prop}
    (hR : ∀ o p, RO o p → o = g p) {x : Resolution F O} {y : Resolution F P}
    (h : Resolution.Related RO (fun _ => Eq) x y) : x = y.mapOwner g := by
  have hx : x = x.mapOwner id := by cases x <;> rfl
  rw [hx]
  exact h.eq_mapOwner hR

theorem sameApplicability_self (t : ClassTable F) : t.SameApplicability t := fun _ _ => rfl

theorem forall₂_sameTyped_self (ms : List (Member F × Signature)) :
    List.Forall₂ (SameTyped Eq) ms ms := by
  induction ms with
  | nil => exact .nil
  | cons m rest ih => exact .cons ⟨rfl, rfl⟩ ih

theorem alike_sameTyped_self (x : Except TypeError (List (Member F × Signature))) :
    Alike (List.Forall₂ (SameTyped Eq)) x x := by
  cases x with
  | error e => exact .error e
  | ok ms => exact .ok (forall₂_sameTyped_self ms)

namespace RuntimeClass

/-- The base of an instantiation is the instantiation it was made over. -/
theorem base?_ofTemplate (c : Template F) (key : ClassTy) {b : RuntimeClass F}
    (hb : b.isStaticView = false) : (ofTemplate c key (some b)).base? = some b := by
  obtain ⟨v, own, ancestors⟩ := b
  subst hb
  rfl

theorem base?_staticOfTemplate (c : Template F) {b : RuntimeClass F}
    (hb : b.isStaticView = true) : (staticOfTemplate c (some b)).base? = some b := by
  obtain ⟨v, own, ancestors⟩ := b
  subst hb
  rfl

end RuntimeClass

namespace ClassTable

/-! ## Instantiations and their class types -/

/-- A class type and its instantiation. -/
def IsInstantiation (t : ClassTable F) (o : ClassTy) (c : RuntimeClass F) : Prop :=
  t.Instantiates o c

/-- The base clause of a class type leads to the base of its instantiation. -/
theorem baseOf_instantiation {o : ClassTy} {c : RuntimeClass F} (h : t.Instantiates o c) :
    Alike (Option.Rel t.IsInstantiation) (t.baseOf o) (.ok c.base?) := by
  cases h with
  | root hk hg hlen hb =>
    rw [baseOf, template_ok_iff.mpr hg]
    simp only [Except.map, hb]
    exact .ok .none
  | @derived _ tm base b hk hg hlen hb hbase =>
    have hkey : base.substitute (Bindings.zip tm.generics o.args) = tm.baseKey base o.args := by
      show (⟨base.name, _⟩ : ClassTy) = ⟨base.name, _⟩
      exact congrArg _ (Ty.resolvedAll_substituteAll (Bindings.resolved_zip hk) base.args).symm
    rw [baseOf, template_ok_iff.mpr hg, RuntimeClass.base?_ofTemplate tm o hbase.isStaticView_eq]
    simp only [Except.map, hb, Option.map_some, hkey]
    exact .ok (.some hbase)

/-- The methods of one level, found and lowered in one step. -/
theorem staticMembers_methods {o : ClassTy} {c : Template F} (h : t.get? o.name = some c)
    (name : String) (isStatic : Bool) : t.staticMembers.methods o name isStatic =
      t.signatures (paramsFor c o.args) (c.methodsNamed name isStatic) := by
  simp only [staticMembers, template_ok_iff.mpr h]

theorem staticMembers_constructors {o : ClassTy} {c : Template F} (h : t.get? o.name = some c) :
    t.staticMembers.constructors o = t.signatures (paramsFor c o.args) c.constructors := by
  simp only [staticMembers, template_ok_iff.mpr h]

/-- The own template and parameters of an instantiation are those that its class type gives. -/
theorem own_instantiation {o : ClassTy} {c : RuntimeClass F} (h : t.Instantiates o c) :
    t.get? o.name = some c.own.template ∧ c.params = paramsFor c.own.template o.args := by
  cases h with
  | root hk hg hlen hb => exact ⟨hg, (if_pos hlen).symm⟩
  | derived hk hg hlen hb _ => exact ⟨hg, (if_pos hlen).symm⟩

/-- Each level of an instantiation offers what its class type does. -/
theorem instantiations_agree (t : ClassTable F) (isStatic : Bool) :
    MemberSource.MethodsAgree t.staticMembers t.runtimeMembers t.IsInstantiation
      (fun _ => Eq) isStatic where
  ownerName := fun h => congrArg ClassTy.name h.ty_eq.symm
  base := baseOf_instantiation
  methods := by
    intro o c h name
    obtain ⟨hg, hp⟩ := own_instantiation h
    rw [staticMembers_methods hg]
    show Alike _ _ (t.signatures c.params _)
    rw [hp]
    exact alike_sameTyped_self _

theorem constructors_agree {o : ClassTy} {c : RuntimeClass F} (h : t.Instantiates o c) :
    t.staticMembers.constructors o = t.runtimeMembers.constructors c := by
  obtain ⟨hg, hp⟩ := own_instantiation h
  rw [staticMembers_constructors hg]
  show _ = t.signatures c.params c.constructors
  rw [hp, RuntimeClass.constructors, h.isStaticView_eq]
  rfl

/-- A walk along base clauses passes as many classes as the instantiation has layers. -/
theorem endsWithin_instantiation {o : ClassTy} {c : RuntimeClass F} (h : t.Instantiates o c) :
    t.staticMembers.EndsWithin c.layers.length o := by
  induction h with
  | root hk hg hlen hb =>
    intro b hbase
    rcases (baseOf_instantiation (.root hk hg hlen hb)).elim with ⟨e, h1, -⟩ | ⟨x, y, h1, h2, hr⟩
    · cases hbase.symm.trans h1
    · cases hbase.symm.trans h1
      cases h2
      cases hr
  | @derived key tm base b hk hg hlen hb hbase ih =>
    intro b' hb'
    rcases (baseOf_instantiation (.derived hk hg hlen hb hbase)).elim with
      ⟨e, h1, -⟩ | ⟨x, y, h1, h2, hr⟩
    · cases hb'.symm.trans h1
    · cases hb'.symm.trans h1
      rw [RuntimeClass.base?_ofTemplate tm key hbase.isStaticView_eq] at h2
      cases h2
      cases hr with
      | some hr =>
        have hkeys := hr.ty_eq.symm.trans hbase.ty_eq
        rw [hkeys]
        exact ih

/-! ## Static views and the class types of their names -/

/-- A class type and the static view of its class. -/
def HasView (t : ClassTable F) (o : ClassTy) (c : RuntimeClass F) : Prop := t.Views o.name c

/-- The base clause of a name leads to the base of its static view. -/
theorem baseOf_view {o : ClassTy} {c : RuntimeClass F} (h : t.Views o.name c) :
    Alike (Option.Rel t.HasView) (t.baseOf o) (.ok c.base?) := by
  generalize hn : o.name = name at h
  cases h with
  | root hg hb =>
    rw [baseOf, hn, template_ok_iff.mpr hg]
    simp only [Except.map, hb]
    exact .ok .none
  | @derived _ tm base b hg hb hbase =>
    rw [baseOf, hn, template_ok_iff.mpr hg,
      RuntimeClass.base?_staticOfTemplate tm hbase.isStaticView_eq]
    simp only [Except.map, hb, Option.map_some]
    exact .ok (.some hbase)

/-- The signature of a static member does not depend on the parameters of its class. -/
theorem signature_of_isStatic {m : Member F} (h : m.isStatic = true) (ps qs : TypeParams) :
    t.signature m ps = t.signature m qs := by
  have hp : memberParams m ps = memberParams m qs := by
    unfold memberParams
    rw [if_pos h, if_pos h]
  unfold signature
  simp only [hp]

/-- So static members have the same signatures under any parameters of their class. -/
theorem signatures_of_isStatic (ps qs : TypeParams) {ms : List (Member F)}
    (h : ∀ m ∈ ms, m.isStatic = true) : t.signatures ps ms = t.signatures qs ms := by
  induction ms with
  | nil => rfl
  | cons m rest ih =>
    rw [signatures, signatures, signature_of_isStatic (h m (by simp)) ps qs,
      ih fun n hn => h n (by simp [hn])]

theorem own_view {name : String} {c : RuntimeClass F} (h : t.Views name c) :
    t.get? name = some c.own.template := by
  cases h with
  | root hg _ => exact hg
  | derived hg _ _ => exact hg

/-- Each level of a static view offers the static methods of its class type. -/
theorem views_agree (t : ClassTable F) :
    MemberSource.MethodsAgree t.staticMembers t.runtimeMembers t.HasView (fun _ => Eq) true where
  ownerName := fun h => (congrArg ClassTy.name h.ty_eq).symm
  base := baseOf_view
  methods := by
    intro o c h name
    rw [staticMembers_methods (own_view h)]
    show Alike _ _ (t.signatures c.params _)
    have hs : ∀ m ∈ c.own.template.methodsNamed name true, m.isStatic = true := by
      intro m hm
      simp only [Template.methodsNamed, List.mem_filter, Bool.and_eq_true, beq_iff_eq] at hm
      exact hm.2.2
    rw [signatures_of_isStatic c.params (paramsFor c.own.template o.args) hs]
    exact alike_sameTyped_self _

/-- A walk along base clauses passes as many classes as the view has layers. -/
theorem endsWithin_view {name : String} {c : RuntimeClass F} (h : t.Views name c) :
    ∀ {o : ClassTy}, o.name = name → t.staticMembers.EndsWithin c.layers.length o := by
  induction h with
  | root hg hb =>
    rintro o rfl b hbase
    rcases (baseOf_view (.root hg hb)).elim with ⟨e, h1, -⟩ | ⟨x, y, h1, h2, hr⟩
    · cases hbase.symm.trans h1
    · cases hbase.symm.trans h1
      cases h2
      cases hr
  | @derived name tm base b hg hb hbase ih =>
    rintro o rfl b' hb'
    rcases (baseOf_view (.derived hg hb hbase)).elim with ⟨e, h1, -⟩ | ⟨x, y, h1, h2, hr⟩
    · cases hb'.symm.trans h1
    · cases hb'.symm.trans h1
      rw [RuntimeClass.base?_staticOfTemplate tm hbase.isStaticView_eq] at h2
      cases h2
      cases hr with
      | some hr =>
        have hnames := congrArg ClassTy.name (hr.ty_eq.symm.trans hbase.ty_eq)
        exact ih hnames

/-! ## Agreement -/

/-- Over an instantiation and over its class type a method is resolved alike. -/
theorem resolveMethod_instantiation {o : ClassTy} {c : RuntimeClass F} (h : t.Instantiates o c)
    (name : String) (isStatic : Bool) (args : List Ty) :
    Alike (Resolution.Related t.IsInstantiation fun _ => Eq)
      (t.staticMembers.resolveMethod t o name isStatic args)
      (t.runtimeMembers.resolveMethod t c name isStatic args) := by
  have hle : c.layers.length ≤ t.height := Nat.le_of_lt h.climbs.lt_height
  show Alike _ (t.staticMembers.methodFrom t o name isStatic args t.height o) _
  rw [MemberSource.methodFrom_of_le (endsWithin_instantiation h) hle]
  exact MemberSource.methodFrom_related (instantiations_agree t isStatic)
    (sameApplicability_self t) h name args _ h

/-- Over an instantiation and over its class type a construction is resolved alike. -/
theorem resolveConstructor_instantiation {o : ClassTy} {c : RuntimeClass F}
    (h : t.Instantiates o c) (args : List Ty) :
    Alike (Resolution.Related t.IsInstantiation fun _ => Eq) (t.staticMembers.resolveConstructor t o args)
      (t.runtimeMembers.resolveConstructor t c args) := by
  refine MemberSource.resolveConstructor_related h
    ((instantiations_agree t false).ownerName h) ?_ (sameApplicability_self t) args
  rw [constructors_agree h]
  exact alike_sameTyped_self _

/-- Over a static view and over a class type of its name a static method is resolved alike. -/
theorem resolveMethod_view {o : ClassTy} {c : RuntimeClass F} (h : t.Views o.name c)
    (name : String) (args : List Ty) :
    Alike (Resolution.Related t.HasView fun _ => Eq) (t.staticMembers.resolveMethod t o name true args)
      (t.runtimeMembers.resolveMethod t c name true args) := by
  have hle : c.layers.length ≤ t.height := Nat.le_of_lt h.climbs.lt_height
  show Alike _ (t.staticMembers.methodFrom t o name true args t.height o) _
  rw [MemberSource.methodFrom_of_le (endsWithin_view h rfl) hle]
  exact MemberSource.methodFrom_related (views_agree t) (sameApplicability_self t) h name args _ h

end ClassTable

/-! ## The two universes give one answer -/

/--
Whatever calls a registry has answered before: over the instantiation that it gives for a type, and
over the static view that it gives for a class, members are resolved as over class types. Owners are
compared by their class types, and by their names where a view has no arguments.
-/
theorem resolution_views_agree {r : Registry F} (hr : Registry.Reachable t r) :
    (∀ ty span c r', r.classOf t ty span = .ok (c, r') →
      (∀ name isStatic args,
        t.staticMembers.resolveMethod t c.ty name isStatic args =
          (t.runtimeMembers.resolveMethod t c name isStatic args).map
            (Resolution.mapOwner RuntimeClass.ty)) ∧
      ∀ args,
        t.staticMembers.resolveConstructor t c.ty args =
          (t.runtimeMembers.resolveConstructor t c args).map
            (Resolution.mapOwner RuntimeClass.ty)) ∧
    (∀ className span c r', r.staticView t className span = .ok (c, r') → ∀ name args,
      (t.staticMembers.resolveMethod t ⟨className, []⟩ name true args).map
          (Resolution.mapOwner ClassTy.name) =
        (t.runtimeMembers.resolveMethod t c name true args).map
          (Resolution.mapOwner RuntimeClass.name)) := by
  refine ⟨fun ty span c r' hc => ?_, fun className span c r' hc name args => ?_⟩
  · obtain ⟨hi, -, -⟩ := Registry.classOf_ok hr.valid hc
    have hty : ∀ o d, t.IsInstantiation o d → o = d.ty := fun _ _ h => h.ty_eq.symm
    refine ⟨fun name isStatic args => ?_, fun args => ?_⟩
    · exact ((ClassTable.resolveMethod_instantiation hi name isStatic args).mono
        fun _ _ h => h.eq_of_owner hty).eq_map
    · exact ((ClassTable.resolveConstructor_instantiation hi args).mono
        fun _ _ h => h.eq_of_owner hty).eq_map
  · obtain ⟨hv, -⟩ := Registry.staticView_ok hr.valid hc
    have hname : ∀ o d, t.HasView o d → o.name = d.name :=
      fun _ _ h => (congrArg ClassTy.name h.ty_eq).symm
    exact ((ClassTable.resolveMethod_view (o := ⟨className, []⟩) hv name args).mono
      fun _ _ h => h.eq_mapOwner hname).map_eq_map

open Build in
/-- A generic class, and a class that extends it for one argument and overloads its method. -/
def boxProgram : Program :=
  program
    [{ name := ident "Box", generics := [ident "T"], fields := [field "T" "value"],
       methods := [method "get" (some "T") [] [returns (some (var "value"))],
         method "set" none [param "T" "v"] [],
         staticMethod "of" (some "int") [param "int" "n"] [returns (some (var "n"))]] },
     { name := ident "IntBox", base := some (ty "Box<int>"),
       methods := [method "set" none [param "float" "v"] []] }]

/-- The instantiation of `IntBox` and its class type resolve `set` alike, also where the base decides. -/
theorem resolution_views_agree_intBox :
    ∃ t c r, ClassTable.build boxProgram NativeRegistry.standard = .ok t ∧
      Registry.classOf t {} (.named "IntBox") {} = .ok (c, r) ∧
      t.staticMembers.resolveMethod t c.ty "set" false [.int] =
        (t.runtimeMembers.resolveMethod t c "set" false [.int]).map
          (Resolution.mapOwner RuntimeClass.ty) := by
  have h : (do
      let t ← ClassTable.build boxProgram NativeRegistry.standard
      Registry.classOf t {} (.named "IntBox") {}).toBool = true := by decide +kernel
  obtain ⟨x, hx⟩ := exists_ok_of_toBool h
  obtain ⟨t, ht, hc⟩ := ok_of_bind hx
  obtain ⟨c, r⟩ := x
  exact ⟨t, c, r, ht, hc, ((resolution_views_agree .empty).1 _ _ c r hc).1 "set" false [.int]⟩

end Middleweight
