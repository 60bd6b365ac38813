import Middleweight.ClassTable.Subtype
import Middleweight.Proofs.ClassTable.Hierarchy
import Middleweight.Proofs.ClassTable.Rooted
import Middleweight.Proofs.Syntax.Procedural

/-!
# Tables over the standard library

The classes of the standard library extend the root class and nothing else, and the primitives do as
well. So the table of a procedural program is rooted, and which types the values of such a program
fit can be listed: a number fits its primitive, the box of that, and the root class.

* `ClassTable.climbs_of_build`, `ClassTable.formed_base_of_build` : bases in such a table
* `ClassTable.rooted_of_build` : the table of a procedural program is rooted
* `ClassTable.hasBasics_of_build`, `ClassTable.related_iff` : what the class of a value is related
  to
-/

namespace Middleweight

open NativeRegistry (standard)

/-! ## The classes of the standard library in outline -/

/-- The name of a class, its parameters, whether it extends nothing, and whether it has no
methods. -/
def NativeClass.outline {F : Type} (n : NativeClass F) : String × List String × Bool × Bool :=
  (n.fullName, n.generics, n.base.isNone, n.methods.isEmpty)

/-- The classes of the standard library, as its tree lists them. -/
def NativeRegistry.outlines : List (String × List String × Bool × Bool) :=
  [("java.io.PrintStream", [], true, false), ("java.lang.Boolean", [], true, false),
   ("java.lang.Float", [], true, false), ("java.lang.Integer", [], true, false),
   (Ty.objectName, [], true, true), (Ty.stringName, [], true, false),
   ("java.lang.System", [], true, true), ("java.util.List", ["E"], true, false)]

theorem NativeRegistry.outlines_standard :
    standard.classes.map NativeClass.outline = outlines := by
  decide +kernel

theorem NativeRegistry.outline_mem {n : NativeClass StandardFn} (hn : n ∈ standard.classes) :
    n.outline ∈ outlines := by
  rw [← outlines_standard]
  exact List.mem_map_of_mem hn

theorem NativeRegistry.exists_of_outline {o : String × List String × Bool × Bool}
    (ho : o ∈ outlines) : ∃ n ∈ standard.classes, n.outline = o := by
  rw [← outlines_standard] at ho
  exact List.mem_map.mp ho

/-- The library has a class for each name of an outline. -/
theorem NativeRegistry.exists_named {name : String} (h : name ∈ outlines.map Prod.fst) :
    ∃ n ∈ standard.classes, n.fullName = name := by
  obtain ⟨o, ho, rfl⟩ := List.mem_map.mp h
  obtain ⟨n, hn, rfl⟩ := exists_of_outline ho
  exact ⟨n, hn, rfl⟩

theorem NativeRegistry.exists_boxed (q : Primitive) :
    ∃ n ∈ standard.classes, n.fullName = q.boxed :=
  exists_named (by cases q <;> decide)

/-! ## Kinds of values -/

/-- The name of the class to which the standard output belongs. -/
def Ty.printStreamName : String := "java.io.PrintStream"

/-- The kinds of values that a procedural program can have, `null` apart. -/
inductive Kind where
  | int | float | boolean | string | printStream
deriving DecidableEq

namespace Kind

/-- The type of the values of a kind. -/
def typeName : Kind → String
  | int => Ty.intName
  | float => Ty.floatName
  | boolean => Ty.booleanName
  | string => Ty.stringName
  | printStream => Ty.printStreamName

/-- The classes as which the values of a kind may pass. -/
def names : Kind → List String
  | int => [Ty.intName, Primitive.int.boxed, Ty.objectName]
  | float => [Ty.floatName, Primitive.float.boxed, Ty.objectName]
  | boolean => [Ty.booleanName, Primitive.boolean.boxed, Ty.objectName]
  | string => [Ty.stringName, Ty.objectName]
  | printStream => [Ty.printStreamName, Ty.objectName]

/-- The type of the values of a kind. -/
def ty (k : Kind) : Ty := .named k.typeName

theorem typeName_mem_names (k : Kind) : k.typeName ∈ k.names := by
  cases k <;> decide

theorem objectName_mem_names (k : Kind) : Ty.objectName ∈ k.names := by
  cases k <;> decide

theorem ne_nullName {k : Kind} {a : String} (ha : a ∈ k.names) : a ≠ Ty.nullName := by
  revert a
  cases k <;> decide

/-- A class as which the values of a kind may pass is a primitive or native and not generic. -/
theorem primitive_or_native {k : Kind} {a : String} (ha : a ∈ k.names) :
    (∃ q : Primitive, a = q.name) ∨
      ∃ n ∈ standard.classes, n.fullName = a ∧ n.generics = [] := by
  have h : ∀ b ∈ k.names, b ∈ Primitive.all.map Primitive.name ∨
      ∃ o ∈ NativeRegistry.outlines, o.1 = b ∧ o.2.1 = [] := by
    cases k <;> decide
  rcases h a ha with hq | ⟨o, ho, hname, hgenerics⟩
  · obtain ⟨q, -, hq⟩ := List.mem_map.mp hq
    exact .inl ⟨q, hq.symm⟩
  · obtain ⟨n, hn, rfl⟩ := NativeRegistry.exists_of_outline ho
    exact .inr ⟨n, hn, hname, hgenerics⟩

end Kind

/-! ## The classes of the standard library -/

theorem NativeRegistry.nodup_standard : (standard.classes.map NativeClass.fullName).Nodup := by
  have h : standard.classes.map NativeClass.fullName = outlines.map Prod.fst := by
    rw [← outlines_standard, List.map_map]
    rfl
  rw [h]
  decide

theorem NativeRegistry.base_standard : ∀ n ∈ standard.classes, n.base = none := by
  have h : ∀ o ∈ outlines, o.2.2.1 = true := by decide
  exact fun n hn => Option.isNone_iff_eq_none.mp (h _ (outline_mem hn))

theorem NativeRegistry.primitive_ne_standard (q : Primitive) :
    ∀ n ∈ standard.classes, n.fullName ≠ q.name := by
  have h : ∀ o ∈ outlines, o.1 ≠ q.name := by cases q <;> decide
  exact fun n hn => h _ (outline_mem hn)

theorem NativeRegistry.spells_standard : standard.root.spells [] = true := by decide +kernel

/-- The template of a native class without an `extends` clause. -/
def NativeClass.template {F : Type} (n : NativeClass F) : Template F :=
  { name := n.fullName, generics := n.generics,
    base := if n.fullName = Ty.objectName then none else some ⟨Ty.objectName, []⟩, fields := [],
    constructors := n.constructors.map (Member.ofNative n.fullName),
    methods := n.methods.map (Member.ofNative n.fullName), origin := .native n, span := {} }

theorem NativeClass.base_template {F : Type} {n : NativeClass F} {base : ClassTy}
    (h : n.template.base = some base) : base = ⟨Ty.objectName, []⟩ := by
  unfold template at h
  dsimp only at h
  split at h
  · cases h
  · cases h
    rfl

theorem ClassTable.nativeTemplate_standard {ctx : LoweringContext} {n : NativeClass StandardFn}
    (hn : n ∈ standard.classes) {c : Template StandardFn}
    (h : ClassTable.nativeTemplate ctx n = .ok c) : c = n.template := by
  obtain ⟨base, hbase, rfl⟩ := ClassTable.nativeTemplate_ok h
  rw [NativeRegistry.base_standard n hn, LoweringContext.lowerBase] at hbase
  cases hbase
  rfl

namespace ClassTable

variable {t : ClassTable StandardFn} {p : Program} (h : build p standard = .ok t)

include h

/-- A class of the standard library has its own template. -/
theorem get?_standard {n : NativeClass StandardFn} (hn : n ∈ standard.classes) :
    t.get? n.fullName = some n.template := by
  obtain ⟨c, hc, hget⟩ := get?_native h NativeRegistry.nodup_standard hn
  rw [hget, nativeTemplate_standard hn hc]

theorem get?_primitive_standard (q : Primitive) : t.get? q.name = some (.ofPrimitive q) :=
  get?_primitive h q (NativeRegistry.primitive_ne_standard q)

/-- The root class is not generic, extends nothing and has no methods. -/
theorem get?_object : ∃ c, t.get? Ty.objectName = some c ∧ c.generics = [] ∧ c.base = none ∧
    c.methods = [] := by
  obtain ⟨n, hn, ho⟩ := NativeRegistry.exists_of_outline
    (show (Ty.objectName, [], true, true) ∈ NativeRegistry.outlines by decide)
  obtain ⟨hname, hgenerics, -, hmethods⟩ : n.fullName = Ty.objectName ∧ n.generics = [] ∧
      n.base.isNone = true ∧ n.methods.isEmpty = true := by
    simpa only [NativeClass.outline, Prod.mk.injEq] using ho
  refine ⟨n.template, hname ▸ get?_standard h hn, hgenerics, if_pos hname, ?_⟩
  show n.methods.map _ = []
  rw [List.isEmpty_iff.mp hmethods]
  rfl

theorem knows_object : t.Knows .object := by
  obtain ⟨c, hc, hg, -, -⟩ := get?_object h
  exact knows_named hc hg

/-! ## Walks end, and bases are known -/

/-- The base of every class is formed over the parameters of the class. -/
theorem formed_base_of_build {name : String} {c : Template StandardFn} {base : ClassTy}
    (hc : t.get? name = some c) (hb : c.base = some base) :
    base.toTy.Formed t.arity? c.generics := by
  rcases formed_of_base h hc hb with rfl | hformed
  · obtain ⟨o, ho, hg, -⟩ := get?_object h
    exact Ty.formed_cls.mpr ⟨by simp [arity?, ho, hg], Ty.allFormed_nil⟩
  · exact hformed

theorem get?_base_of_build {name : String} {c : Template StandardFn} {base : ClassTy}
    (hc : t.get? name = some c) (hb : c.base = some base) : ∃ b, t.get? base.name = some b := by
  obtain ⟨b, hb', -⟩ := get?_of_arity? (Ty.formed_cls.mp (formed_base_of_build h hc hb)).1
  exact ⟨b, hb'⟩

theorem climbs_of_extends_object {name : String} {c : Template StandardFn}
    (hc : t.get? name = some c) (hb : ∀ base, c.base = some base → base = ⟨Ty.objectName, []⟩) :
    ∃ n, t.Climbs name n := by
  cases hbase : c.base with
  | none => exact ⟨1, .root hc hbase⟩
  | some base =>
    obtain ⟨o, ho, -, hnone, -⟩ := get?_object h
    refine ⟨2, .step hc hbase ?_⟩
    rw [hb base hbase]
    exact .root ho hnone

/-- The walk from every class comes to an end. -/
theorem climbs_of_build {name : String} {c : Template StandardFn} (hc : t.get? name = some c) :
    ∃ n, t.Climbs name n := by
  rcases mem_classes_cases h (get?_mem hc) with ⟨q, rfl⟩ | ⟨n, hn, hmade⟩ | ⟨d, hd, hmade⟩
  · refine climbs_of_extends_object h hc fun base hb => ?_
    cases hb
    rfl
  · refine climbs_of_extends_object h hc fun base hb => ?_
    rw [nativeTemplate_standard hn hmade] at hb
    exact NativeClass.base_template hb
  · have hname : name = d.name.name := by
      rw [← get?_name hc, name_declaredTemplate d c hmade]
    have hacyclic := (build_ok_iff.mp h).2.2.2.2
    have hr := checkAcyclic_ok_iff.mp hacyclic d hd
    refine climbs_of_not_revisits (fun hc hb => get?_base_of_build h hc hb) List.nodup_nil
      (List.nil_subset _) ?_ (hname ▸ hr) hc
    simp only [height, List.length_nil]
    omega

/-- Every class of a procedural program extends a known type or nothing. -/
theorem knows_base_of_build (hp : ∀ d ∈ p.classes, d.IsProcedural) {c : Template StandardFn}
    (hc : c ∈ t.classes) {base : ClassTy} (hb : c.base = some base) : t.Knows base.toTy := by
  rcases mem_classes_cases h hc with ⟨q, rfl⟩ | ⟨n, hn, hmade⟩ | ⟨d, hd, hmade⟩
  · cases hb
    exact knows_object h
  · rw [nativeTemplate_standard hn hmade] at hb
    rw [NativeClass.base_template hb]
    exact knows_object h
  · obtain ⟨base', fields, hbase, -, rfl⟩ := declaredTemplate_ok hmade
    cases hb
    rw [(hp d hd).generics] at hbase
    cases hd' : d.base with
    | none =>
      rw [hd', LoweringContext.lowerBase] at hbase
      split at hbase
      · cases hbase
      · cases hbase
        exact knows_object h
    | some e =>
      rw [hd', LoweringContext.lowerBase] at hbase
      obtain ⟨base'', hclass, heq⟩ := ok_of_map hbase
      cases heq
      refine knows_of_lower (e := e) ?_
      rw [lower, LoweringContext.lower_eq_lowerClass _ rfl]
      exact congrArg (Except.map ClassTy.toTy) hclass

/-- The table of a procedural program is rooted. -/
theorem rooted_of_build (hp : ∀ d ∈ p.classes, d.IsProcedural) : t.Rooted where
  knows_base := fun hc hb => knows_base_of_build h hp (get?_mem hc) hb
  climbs := climbs_of_build h

/-! ## What the classes of values are related to -/

theorem baseName?_object : t.baseName? Ty.objectName = none := by
  obtain ⟨c, hc, -, hb, -⟩ := get?_object h
  simp [baseName?, hc, hb]

theorem ancestors_object : t.ancestors Ty.objectName = [Ty.objectName] := by
  unfold ancestors height
  rw [chain, if_neg List.not_mem_nil, baseName?_object h]

/-- A class that extends the root class has no other base. -/
theorem ancestors_of_baseName? {name : String} (hb : t.baseName? name = some Ty.objectName)
    (hne : name ≠ Ty.objectName) : t.ancestors name = [name, Ty.objectName] := by
  obtain ⟨c, hc, -⟩ := get?_object h
  obtain ⟨d, ds, hds⟩ := List.exists_cons_of_ne_nil (List.ne_nil_of_mem (get?_mem hc))
  have hnew : Ty.objectName ∉ [name] := fun hm => hne (List.mem_singleton.mp hm).symm
  unfold ancestors height
  rw [hds, List.length_cons, chain, if_neg List.not_mem_nil, hb]
  dsimp only
  rw [chain, if_neg hnew, baseName?_object h]

/-- A class as which values may pass is not generic. -/
theorem get?_kind {k : Kind} {a : String} (ha : a ∈ k.names) :
    ∃ c, t.get? a = some c ∧ c.generics = [] := by
  rcases Kind.primitive_or_native ha with ⟨q, rfl⟩ | ⟨n, hn, rfl, hg⟩
  · exact ⟨_, get?_primitive_standard h q, rfl⟩
  · exact ⟨_, get?_standard h hn, hg⟩

theorem resolve?_kind (k : Kind) : t.imports.resolve? k.typeName = some k.typeName := by
  rcases Kind.primitive_or_native k.typeName_mem_names with ⟨q, hq⟩ | ⟨n, hn, hq, -⟩
  · rw [hq]
    exact ImportTable.resolve?_primitive (imports_of_build h)
      NativeRegistry.standard_wellNamed.leavesPrimitives q
  · rw [← hq]
    exact ImportTable.resolve?_native (imports_of_build h) hn

/-- The written type of a kind lowers to its type. -/
theorem lower_kind {k : Kind} {e : TypeExpr} (hname : e.name = k.typeName)
    (hg : e.generics = []) : t.lower [] e = .ok k.ty := by
  obtain ⟨c, hc, hgenerics⟩ := get?_kind h k.typeName_mem_names
  have harity : t.arity? k.typeName = some 0 := by simp [arity?, hc, hgenerics]
  obtain ⟨name, generics, span⟩ := e
  dsimp only at hname hg
  subst hname hg
  have hclass : t.lowering.className ⟨k.typeName, [], span⟩ = .ok k.typeName := by
    simp [LoweringContext.className, lowering, resolve?_kind h k, harity]
  rw [lower, LoweringContext.lower_eq_lowerClass _ rfl, LoweringContext.lowerClass, hclass]
  rfl

theorem baseName?_kind {k : Kind} {a : String} (ha : a ∈ k.names) (hne : a ≠ Ty.objectName) :
    t.baseName? a = some Ty.objectName := by
  rcases Kind.primitive_or_native ha with ⟨q, rfl⟩ | ⟨n, hn, rfl, -⟩
  · simp [baseName?, get?_primitive_standard h q, Template.ofPrimitive]
  · simp [baseName?, get?_standard h hn, NativeClass.template, hne]

omit h in
theorem ofName?_eq_some_iff {a : String} {q : Primitive} :
    Primitive.ofName? a = some q ↔ a = q.name := by
  constructor
  · intro hq
    have hname := List.find?_some hq
    exact (of_decide_eq_true hname).symm
  · rintro rfl
    exact Primitive.ofName?_name q

omit h in
theorem boxes_iff {a b : String} : boxes a b = true ↔
    ∃ q : Primitive, (a = q.name ∧ b = q.boxed) ∨ (b = q.name ∧ a = q.boxed) := by
  unfold boxes
  dsimp only
  rw [Bool.or_eq_true]
  constructor
  · rintro (hbox | hbox)
    · split at hbox
      · next q hq => exact ⟨q, .inl ⟨ofName?_eq_some_iff.mp hq, (beq_iff_eq.mp hbox).symm⟩⟩
      · cases hbox
    · split at hbox
      · next q hq => exact ⟨q, .inr ⟨ofName?_eq_some_iff.mp hq, (beq_iff_eq.mp hbox).symm⟩⟩
      · cases hbox
  · rintro ⟨q, ⟨rfl, rfl⟩ | ⟨rfl, rfl⟩⟩
    · simp [Primitive.ofName?_name]
    · simp [Primitive.ofName?_name]

omit h in
/-- A class as which values of a kind may pass boxes only such classes. -/
theorem mem_names_of_boxes {k : Kind} {a b : String} (ha : a ∈ k.names)
    (hbox : boxes a b = true) : b ∈ k.names := by
  obtain ⟨q, ⟨rfl, rfl⟩ | ⟨rfl, rfl⟩⟩ := boxes_iff.mp hbox
  · revert ha
    cases k <;> cases q <;> decide
  · revert ha
    cases k <;> cases q <;> decide

theorem related_object_iff {b : String} :
    t.related Ty.objectName b = true ↔ b = Ty.objectName := by
  unfold related inherits
  rw [ancestors_object h, Bool.or_eq_true, List.contains_iff_mem, List.mem_singleton]
  refine ⟨fun hr => hr.elim id fun hbox => ?_, Or.inl⟩
  obtain ⟨q, ⟨hq, -⟩ | ⟨-, hq⟩⟩ := boxes_iff.mp hbox
  · cases q <;> exact absurd hq (by decide)
  · cases q <;> exact absurd hq (by decide)

/-- The classes as which the values of kinds may pass extend the root class and nothing else. -/
def HasBasics {F : Type} (t : ClassTable F) : Prop :=
  ∀ k : Kind, ∀ a ∈ k.names, a ≠ Ty.objectName → t.ancestors a = [a, Ty.objectName]

/-- In the table of a program over the standard library they do. -/
theorem hasBasics_of_build : t.HasBasics := fun _ _ ha hne =>
  ancestors_of_baseName? h (baseName?_kind h ha hne) hne

omit h in
/-- Below the root class, all classes as which values of a kind may pass are related alike. -/
theorem HasBasics.related_iff {F : Type} {t : ClassTable F} (hbasics : t.HasBasics) {k : Kind}
    {a b : String} (ha : a ∈ k.names) (hne : a ≠ Ty.objectName) :
    t.related a b = true ↔ b ∈ k.names := by
  unfold related inherits
  rw [hbasics k a ha hne, Bool.or_eq_true, List.contains_iff_mem]
  constructor
  · rintro (hb | hbox)
    · rcases List.mem_cons.mp hb with rfl | hb
      · exact ha
      · rw [List.mem_singleton.mp hb]
        exact k.objectName_mem_names
    · exact mem_names_of_boxes ha hbox
  · have hall : ∀ a ∈ k.names, a ≠ Ty.objectName → ∀ b ∈ k.names,
        b ∈ [a, Ty.objectName] ∨ boxes a b = true := by
      cases k <;> decide
    exact hall a ha hne b

theorem related_iff {k : Kind} {a b : String} (ha : a ∈ k.names) (hne : a ≠ Ty.objectName) :
    t.related a b = true ↔ b ∈ k.names :=
  (hasBasics_of_build h).related_iff ha hne

end ClassTable

end Middleweight
