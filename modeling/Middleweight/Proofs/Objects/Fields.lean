import Middleweight.Proofs.Analysis.FieldNames
import Middleweight.Proofs.Objects.Dispatch
import Middleweight.Proofs.World.Heap

/-!
# Fields of an object

The checker looks a field up along the base classes of a declared type, the engine in an object,
whose class may extend that type and may have a field of the same name. Then the two types pass as
each other. And where the checker finds no field, so that a bare name stands for a class or a
namespace, the running object has none of that name either.

* `ClassTable.Instantiates.fieldType_eq` : the field that the checker finds
* `Program.WellTyped.exists_field` : the field that the engine finds for it
* `Program.WellTyped.resolve?_of_field?` : names that are not fields
-/

namespace Middleweight

open NativeRegistry (standard)

variable {F : Type}

/-! ## Fields along base classes -/

namespace RuntimeClass

variable {c d e : RuntimeClass F} {s : FieldSlot} {name : String}

theorem allFields_of_base (h : c.base? = some d) : c.allFields = c.own.fields ++ d.allFields := by
  rw [allFields, layers, List.flatMap_cons, (base?_eq_some h).2]
  rfl

theorem allFields_of_root (h : c.base? = none) : c.allFields = c.own.fields := by
  have hnil : c.ancestors = [] := by
    cases hc : c.ancestors with
    | nil => rfl
    | cons l rest => rw [base?, hc] at h; cases h
  rw [allFields, layers, hnil, List.flatMap_cons, List.flatMap_nil, List.append_nil]

/-- Every field belongs to a class that the class extends. -/
theorem exists_of_mem_allFields (h : s ∈ c.allFields) : ∃ d, c.Extends d ∧ s ∈ d.own.fields := by
  obtain ⟨n, hn⟩ : ∃ n, c.ancestors.length = n := ⟨_, rfl⟩
  induction n generalizing c with
  | zero =>
    rw [allFields_of_root (by rw [base?, List.length_eq_zero_iff.mp hn])] at h
    exact ⟨c, .refl c, h⟩
  | succ n ih =>
    obtain ⟨l, rest, hrest⟩ := List.exists_cons_of_length_eq_add_one hn
    have hb : c.base? = some ⟨c.isStaticView, l, rest⟩ := by rw [base?, hrest]
    rw [allFields_of_base hb] at h
    rcases List.mem_append.mp h with h | h
    · exact ⟨c, .refl c, h⟩
    · rw [hrest] at hn
      obtain ⟨d, hd, hs⟩ := ih h (Nat.succ.inj hn)
      exact ⟨d, .base hb hd, hs⟩

/-- Two classes that a class extends are one above the other. -/
theorem Extends.total (h : c.Extends d) (h' : c.Extends e) : d.Extends e ∨ e.Extends d := by
  induction h with
  | refl => exact .inl h'
  | base hb hd ih =>
    cases h' with
    | refl => exact .inr (.base hb hd)
    | base hb' he =>
      cases hb.symm.trans hb'
      exact ih he

theorem mem_of_field? (h : c.field? name = some s) : s ∈ c.allFields ∧ s.name = name :=
  ⟨List.mem_of_find?_eq_some h, by simpa using List.find?_some h⟩

/-- A field of a class that is extended is still found, or gives way to one of a class below. -/
theorem Extends.exists_field? (h : c.Extends d) (hs : d.field? name = some s) :
    ∃ s' e e', c.field? name = some s' ∧ s' ∈ e.own.fields ∧ s ∈ e'.own.fields ∧
      c.Extends e ∧ e.Extends e' := by
  induction h with
  | refl c =>
    obtain ⟨e, he, hmem⟩ := exists_of_mem_allFields (mem_of_field? hs).1
    exact ⟨s, e, e, hs, hmem, hmem, he, .refl e⟩
  | @base c b d hb hd ih =>
    obtain ⟨s', e, e', hs', hmem, hmem', he, he'⟩ := ih hs
    cases hown : c.own.fields.find? fun f => f.name == name with
    | none =>
      refine ⟨s', e, e', ?_, hmem, hmem', .base hb he, he'⟩
      rw [field?, allFields_of_base hb, List.find?_append, hown, Option.none_or]
      exact hs'
    | some s'' =>
      refine ⟨s'', c, e', ?_, List.mem_of_find?_eq_some hown, hmem', .refl c,
        .base hb (he.trans he')⟩
      rw [field?, allFields_of_base hb, List.find?_append, hown, Option.some_or]

end RuntimeClass

namespace ClassTable

variable {t : ClassTable F} {key : ClassTy} {c : RuntimeClass F}

/-- The fields of a class itself are those of its template, with the arguments put in. -/
theorem Instantiates.own_fields (h : t.Instantiates key c) : c.own.fields =
    c.own.template.fields.map fun f =>
      ⟨f.name, f.ty.substitute (Bindings.zip c.own.template.generics key.args)⟩ := by
  cases h <;> rfl

/-- The checker finds the nearest field of a name. -/
theorem Instantiates.fieldTypeWithin_eq (name : String) (h : t.Instantiates key c) :
    ∀ {fuel : Nat}, c.layers.length ≤ fuel →
      t.fieldTypeWithin name fuel key = .ok ((c.field? name).map FieldSlot.ty) := by
  have hstep : ∀ {key : ClassTy} {c : RuntimeClass F}, t.Instantiates key c →
      (c.own.fields.find? fun f => f.name == name).map FieldSlot.ty =
        (c.own.template.field? name).map fun f =>
          f.ty.substitute (Bindings.zip c.own.template.generics key.args) := by
    intro key c hc
    rw [hc.own_fields, List.find?_map, Option.map_map]
    rfl
  intro fuel
  induction fuel generalizing key c with
  | zero => exact fun hlen => absurd hlen (Nat.not_succ_le_zero _)
  | succ fuel ih =>
    intro hlen
    rw [fieldTypeWithin, template_ok_iff.mpr (own_instantiation h).1]
    have hown := hstep h
    have hbase := baseOf_instantiation h
    dsimp only
    cases hfield : c.own.template.field? name with
    | some f =>
      rw [hfield, Option.map_some] at hown
      obtain ⟨s, hs, hty⟩ := Option.map_eq_some_iff.mp hown
      cases hb : c.base? with
      | none =>
        rw [RuntimeClass.field?, RuntimeClass.allFields_of_root hb, hs, Option.map_some, hty]
      | some b =>
        rw [RuntimeClass.field?, RuntimeClass.allFields_of_base hb, List.find?_append, hs,
          Option.some_or, Option.map_some, hty]
    | none =>
      rw [hfield, Option.map_none] at hown
      have hown := Option.map_eq_none_iff.mp hown
      cases hbase' : t.baseOf key with
      | error err =>
        rw [hbase'] at hbase
        cases hbase
      | ok base? =>
        rw [hbase'] at hbase
        cases hbase with
        | ok hrel =>
          rcases rel_elim hrel with ⟨rfl, hb⟩ | ⟨base, b, rfl, hb, hi⟩
          · rw [RuntimeClass.field?, RuntimeClass.allFields_of_root hb, hown]
            rfl
          · have hi : t.Instantiates base b := hi
            have hlen' : b.layers.length ≤ fuel := by
              rw [RuntimeClass.layers, (RuntimeClass.base?_eq_some hb).2] at hlen
              exact Nat.le_of_succ_le_succ hlen
            rw [RuntimeClass.field?, RuntimeClass.allFields_of_base hb, List.find?_append, hown,
              Option.none_or]
            exact ih hi hlen'

theorem Instantiates.fieldType_eq (h : t.Instantiates key c) (name : String) :
    t.fieldType key name = .ok ((c.field? name).map FieldSlot.ty) :=
  h.fieldTypeWithin_eq name (Nat.le_of_lt h.climbs.lt_height)

/-- A class has a field of a name if it or one of its bases declares one. -/
theorem Makes.isSome_field? (h : t.Makes c) (name : String) :
    (c.field? name).isSome = t.hasField c.name name := by
  obtain ⟨ty?, hty, hsome⟩ := isSome_fieldType h.instantiates.climbs name
  cases (h.instantiates.fieldType_eq name).symm.trans hty
  rw [Option.isSome_map] at hsome
  exact hsome

end ClassTable

/-! ## Fields of objects -/

namespace Instance.Valid

variable {t : ClassTable F} {W : World F} {c : RuntimeClass F} {i : Instance F} {name : String}
  (h : i.Valid t W c)

include h

/-- A variable in an object is declared with the class of the type of the nearest field. -/
theorem slot_of_field? {v : Variable F} (hv : i.field? name = some v) :
    ∃ s, c.field? name = some s ∧ v.ty = s.ty.resolved := by
  obtain ⟨s, hs, hclass⟩ := h.isOf.declared _ (mem_of_lookup hv)
  exact ⟨s, hs, (ClassTable.classFor_ok (hclass {})).2.symm⟩

theorem exists_field? {s : FieldSlot} (hs : c.field? name = some s) :
    ∃ v, i.field? name = some v ∧ v.ty = s.ty.resolved := by
  obtain ⟨hmem, hname⟩ := RuntimeClass.mem_of_field? hs
  obtain ⟨v, hv⟩ := Option.isSome_iff_exists.mp
    (isSome_lookup_iff.mpr ((h.isOf.names name).mpr ⟨s, hmem, hname⟩))
  obtain ⟨s', hs', hty⟩ := h.slot_of_field? hv
  cases hs.symm.trans hs'
  exact ⟨v, hv, hty⟩

end Instance.Valid

/-! ## Fields of declared types -/

namespace Program.WellTyped

variable {p : Program} {t : ClassTable StandardFn} (h : p.WellTyped t)

include h

theorem isDeclared_of_field {a : String} {tm : Template StandardFn} (htm : t.get? a = some tm)
    {f : FieldTemplate} (hf : f ∈ tm.fields) : tm.isDeclared = true := by
  rcases ClassTable.mem_classes_cases h.build (ClassTable.get?_mem htm) with
    ⟨q, rfl⟩ | ⟨n, hn, hmade⟩ | ⟨d, hd, hmade⟩
  · cases hf
  · obtain rfl := ClassTable.nativeTemplate_standard hn hmade
    cases hf
  · obtain ⟨base, fields, -, -, rfl⟩ := ClassTable.declaredTemplate_ok hmade
    rfl

theorem isDeclared_native {n : NativeClass StandardFn} (hn : n ∈ standard.classes)
    {tm : Template StandardFn} (htm : t.get? n.fullName = some tm) : tm.isDeclared = false := by
  rw [ClassTable.get?_standard h.build hn] at htm
  rw [← Option.some.inj htm]
  rfl

theorem isDeclared_object {tm : Template StandardFn} (htm : t.get? Ty.objectName = some tm) :
    tm.isDeclared = false := by
  obtain ⟨n, hn, hfull⟩ : ∃ n ∈ standard.classes, n.fullName = Ty.objectName :=
    NativeRegistry.exists_named (by decide)
  exact h.isDeclared_native hn (hfull ▸ htm)

theorem generics_of_declared {a : String} {tm : Template StandardFn} (htm : t.get? a = some tm)
    (hd : tm.isDeclared = true) : tm.generics = [] := by
  refine (h.generics_cases htm).resolve_right fun hlist => ?_
  obtain ⟨n, hn, hfull, -⟩ := NativeRegistry.exists_list
  rw [hlist.1, ← hfull] at htm
  exact Bool.false_ne_true ((h.isDeclared_native hn htm).symm.trans hd)

section Classes

variable {c d : RuntimeClass StandardFn} {s : FieldSlot} {name : String}

/-- A field of a class itself has the type that its template gives. -/
theorem exists_template_field (hc : t.Makes c) (hs : s ∈ c.own.fields) :
    ∃ f ∈ c.own.template.fields, f.name = s.name ∧ f.ty = s.ty ∧ s.ty.Formed t.arity? [] := by
  rw [hc.instantiates.own_fields] at hs
  obtain ⟨f, hf, rfl⟩ := List.mem_map.mp hs
  have hg := h.generics_of_declared hc.get? (h.isDeclared_of_field hc.get? hf)
  have hty := h.complete.fields hc.get? f hf
  rw [hg] at hty
  refine ⟨f, hf, rfl, ?_, ?_⟩
  · exact (Ty.substitute_of_isGround _ hty.isGround).symm
  · dsimp only
    rwa [Ty.substitute_of_isGround _ hty.isGround]

theorem isDeclared_of_allFields (hc : t.Makes c) (hs : s ∈ c.allFields) :
    c.own.template.isDeclared = true := by
  obtain ⟨d, hd, hs⟩ := RuntimeClass.exists_of_mem_allFields hs
  obtain ⟨f, hf, -⟩ := h.exists_template_field (hc.extends hd) hs
  have hdeclared := h.isDeclared_of_field (hc.extends hd).get? hf
  by_contra hnative
  rw [Bool.not_eq_true] at hnative
  have hget := (hc.extends hd).get?
  rcases h.inherits_native hc.get? hnative (h.complete.inherits_of_extends (.inl hc) hd) with
    heq | heq
  · rw [heq] at hget
    rw [Option.some.inj (hc.get?.symm.trans hget)] at hnative
    exact Bool.false_ne_true (hnative.symm.trans hdeclared)
  · rw [heq] at hget
    exact Bool.false_ne_true ((h.isDeclared_object hget).symm.trans hdeclared)

/-- Fields of one name on one walk have types that pass as each other. -/
theorem check_fields {s' : FieldSlot} (hc : t.Makes c) (hcd : c.Extends d) (hs : s ∈ c.own.fields)
    (hs' : s' ∈ d.own.fields) (hname : s.name = s'.name) :
    t.check s.ty s'.ty = true ∧ t.check s'.ty s.ty = true := by
  obtain ⟨f, hf, hfname, hfty, -⟩ := h.exists_template_field hc hs
  obtain ⟨g, hg, hgname, hgty, -⟩ := h.exists_template_field (hc.extends hcd) hs'
  have hinherits := h.complete.inherits_of_extends (.inl hc) hcd
  rw [← hfty, ← hgty]
  refine h.regular.fields _ (ClassTable.get?_mem hc.get?) _
    (ClassTable.get?_mem (hc.extends hcd).get?) ?_ f hf g hg (by rw [hfname, hgname, hname])
  rwa [ClassTable.get?_name hc.get?, ClassTable.get?_name (hc.extends hcd).get?]

omit h in
/-- A class without parameters has no arguments. -/
theorem ty_of_generics (hc : t.Makes c) (hformed : c.asTy.Formed t.arity? [])
    (hg : c.own.template.generics = []) : c.ty = ⟨c.name, []⟩ := by
  obtain ⟨tm, htm, hlen⟩ := get?_of_formed hformed
  cases hc.get?.symm.trans htm
  rw [hg] at hlen
  rw [← List.length_eq_zero_iff.mp hlen.symm]
  rfl

/-- An object passes as each declared class that its own class extends. -/
theorem check_extends (hc : t.Makes c) (hformed : c.asTy.Formed t.arity? []) (hcd : c.Extends d)
    (hdeclared : d.own.template.isDeclared = true) : t.check c.asTy d.asTy = true := by
  have hd := hc.extends hcd
  have hty := ty_of_generics hd (h.complete.formed_extends hc hformed hcd)
    (h.generics_of_declared hd.get? hdeclared)
  have hinherits : t.inherits c.ty.name d.name = true :=
    h.complete.inherits_of_extends (.inl hc) hcd
  unfold RuntimeClass.asTy at hformed ⊢
  rw [hty]
  refine (h.check_iff hformed).mpr ⟨?_, t.checkAll_nil _⟩
  rw [ClassTable.related, hinherits, Bool.true_or]

/-- A class that passes as a class with a field extends it. -/
theorem exists_extends_of_field (hc : t.Makes c) (hformed : c.asTy.Formed t.arity? [])
    (hd : t.Makes d) (hdf : d.asTy.Formed t.arity? []) (hcheck : t.check c.asTy d.asTy = true)
    (hs : s ∈ d.allFields) : ∃ e, c.Extends e ∧ e.ty = d.ty := by
  have hdeclared := h.isDeclared_of_allFields hd hs
  have hrelated := ((h.check_iff hformed).mp hcheck).1
  rw [ClassTable.related, Bool.or_eq_true] at hrelated
  rcases hrelated with hinherits | hboxes
  · obtain ⟨e, he, hname⟩ := h.complete.exists_extends (.inl hc) hinherits
    have hg := h.generics_of_declared hd.get? hdeclared
    have hname : e.name = d.name := hname
    have hget := (hc.extends he).get?
    rw [hname, hd.get?] at hget
    rw [Option.some.inj hget] at hg
    refine ⟨e, he, ?_⟩
    rw [ty_of_generics (hc.extends he) (h.complete.formed_extends hc hformed he) hg, hname]
    exact (ty_of_generics hd hdf (h.generics_of_declared hd.get? hdeclared)).symm
  · -- Neither a primitive nor a box has a field.
    obtain ⟨q, ⟨-, hname⟩ | ⟨hname, -⟩⟩ := ClassTable.boxes_iff.mp hboxes
    · obtain ⟨n, hn, hfull⟩ := NativeRegistry.exists_boxed q
      have hget := hd.get?
      rw [show d.name = _ from hname, ← hfull] at hget
      exact absurd ((h.isDeclared_native hn hget).symm.trans hdeclared) Bool.false_ne_true
    · have hget := hd.get?
      rw [show d.name = _ from hname, ClassTable.get?_primitive_standard h.build q] at hget
      rw [← Option.some.inj hget] at hdeclared
      cases hdeclared

/-- Where the checker finds a field of a type, a class that passes as the type has it. -/
theorem exists_field (hc : t.Makes c) (hformed : c.asTy.Formed t.arity? []) {owner : ClassTy}
    (howner : owner.toTy.Formed t.arity? []) (hcheck : t.check c.asTy owner.toTy = true) {ty : Ty}
    (hty : t.fieldType owner name = .ok (some ty)) :
    ∃ s, c.field? name = some s ∧ s.ty.Formed t.arity? [] ∧ ty.Formed t.arity? [] ∧
      t.check s.ty ty = true ∧ t.check ty s.ty = true := by
  obtain ⟨d, hd, hdty⟩ := h.exists_class howner
  have hdkey : d.ty = owner := by
    obtain ⟨a, as⟩ := owner
    obtain ⟨hname, hargs⟩ := Ty.cls.inj hdty
    show (⟨d.ty.name, d.ty.args⟩ : ClassTy) = _
    rw [hname, hargs]
  -- What the checker finds at the type is what it finds at each class of the type.
  have hfound : ∀ {e : RuntimeClass StandardFn}, t.Makes e → e.ty = owner →
      ∃ s, e.field? name = some s ∧ s.ty = ty := by
    intro e he hkey
    have heq := he.instantiates.fieldType_eq name
    rw [hkey, hty] at heq
    exact Option.map_eq_some_iff.mp (Except.ok.inj heq).symm
  obtain ⟨s₀, hs₀, -⟩ := hfound hd hdkey
  rw [← hdty] at hcheck howner
  obtain ⟨e, hce, hekey⟩ :=
    h.exists_extends_of_field hc hformed hd howner hcheck (RuntimeClass.mem_of_field? hs₀).1
  obtain ⟨s, hs, rfl⟩ := hfound (hc.extends hce) (hekey.trans hdkey)
  obtain ⟨s', a, b, hs', hmem, hmem', hca, hab⟩ := hce.exists_field? hs
  have hname := (RuntimeClass.mem_of_field? hs').2.trans (RuntimeClass.mem_of_field? hs).2.symm
  obtain ⟨-, -, -, -, hsf'⟩ := h.exists_template_field (hc.extends hca) hmem
  obtain ⟨-, -, -, -, hsf⟩ := h.exists_template_field ((hc.extends hca).extends hab) hmem'
  obtain ⟨hto, hfrom⟩ := h.check_fields (hc.extends hca) hab hmem hmem' hname
  exact ⟨s', hs', hsf', hsf, hto, hfrom⟩

/-- A name that is no field of a declared class, but of one below, stands for nothing else. -/
theorem resolve?_of_field? (hc : t.Makes c) (hcd : c.Extends d)
    (hdeclared : d.own.template.isDeclared = true) (hnone : d.field? name = none)
    (hs : c.field? name = some s) :
    t.imports.resolve? name = none ∧ (t.natives.namespace? name).isNone = true := by
  have hd := hc.extends hcd
  have hbelow : t.hasField d.name name = false := by
    rw [← hd.isSome_field? name, hnone]
    rfl
  have habove : t.hasField c.name name = true := by
    rw [← hc.isSome_field? name, hs]
    rfl
  obtain ⟨l, hl⟩ := hc.instantiates.climbs.ascends
  have hinherits := h.complete.inherits_of_extends (.inl hc) hcd
  obtain ⟨e, he, hed, hfield⟩ := ClassTable.exists_declares_of_hasField hl
    ((ClassTable.inherits_iff_of_ascends hl).mp hinherits) hbelow habove
  obtain ⟨f, hf⟩ := Option.isSome_iff_exists.mp hfield
  have hname : f.name = name := by simpa using List.find?_some hf
  have hnames := h.regular.names e he _ (ClassTable.get?_mem hd.get?)
    (by rwa [ClassTable.get?_name hd.get?]) hdeclared f (List.mem_of_find?_eq_some hf)
  rw [hname, ClassTable.get?_name hd.get?, hbelow] at hnames
  exact hnames.resolve_left Bool.false_ne_true

end Classes

end Program.WellTyped

end Middleweight
