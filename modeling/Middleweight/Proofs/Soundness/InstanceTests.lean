import Middleweight.Proofs.ClassTable.Complete
import Middleweight.Proofs.Objects.Typing
import Middleweight.Proofs.Soundness.Operators
import Middleweight.Proofs.World.History

/-!
# Tests of the class of a value

`instanceof` looks at the value where that is an object, a string or `null`. Of a number and of a
truth value it looks at the class that the variable is declared with. That may be the primitive, its
box or the root class, and tests tell the root class from the other two. So the same number is an
instance of its box in one variable and is not in another.

* `Engine.isInstance_of_kind` : what is answered for numbers and truth values
* `instance_tests_agree_iff` : when tests of one value in two variables agree
* `boxed_number_disowned` : an accepted program in which they do not
-/

namespace Middleweight

open NativeRegistry (standard)

variable {F : Type} {t : ClassTable F}

/-! ## Variables that may hold a value -/

/-- The type that a value has by itself. A namespace is an object and nothing more. -/
def Value.selfTy : Value F → Ty
  | .null => .null
  | .cls c => c.asTy
  | v => v.ownTy?.getD .object

/-- A variable of a class that an engine hands out, in which its value may be stored. -/
structure Variable.MayHold (t : ClassTable F) (v : Variable F) : Prop where
  cls : t.Offers v.cls
  fits : t.check v.value.selfTy v.ty = true

/-- The kinds of values of which a test looks at the declared class. -/
def Kind.primitives : List Kind := [int, float, boolean]

theorem Value.HasKind.selfTy {v : Value F} {k : Kind} (h : v.HasKind t k) : v.selfTy = k.ty := by
  have hown := h.ownTy?
  cases h <;> exact congrArg (Option.getD · Ty.object) hown

namespace ClassTable

theorem check_named_asTy {a : String} (ha : a ≠ Ty.nullName) (c : RuntimeClass F) :
    t.check (.named a) c.asTy = t.related a c.name := by
  rw [Ty.named, RuntimeClass.asTy, ClassTy.toTy, check_cls, if_neg (by simpa using ha),
    checkAll_nil_left, Bool.and_true]
  rfl

/-- A class that is not generic has no arguments, and neither has a static view. -/
theorem Offers.asTy_eq {c : RuntimeClass F} (h : t.Offers c) {tm : Template F}
    (htm : t.get? c.name = some tm) (hgenerics : tm.generics = []) : c.asTy = .named c.name := by
  rcases h with ⟨key, hi⟩ | ⟨name, hv⟩
  · have hlen : tm.generics.length = key.args.length := by
      rw [RuntimeClass.name, hi.ty_eq] at htm
      cases hi with
      | root _ hg hlen _ | derived _ hg hlen _ _ =>
        cases hg.symm.trans htm
        exact hlen
    rw [hgenerics] at hlen
    rw [RuntimeClass.asTy, RuntimeClass.name, hi.ty_eq, ClassTy.toTy,
      List.eq_nil_of_length_eq_zero hlen.symm]
    rfl
  · rw [RuntimeClass.asTy, RuntimeClass.name, hv.ty_eq]
    rfl

end ClassTable

/-! ## Answers -/

section Built

variable {p : Program} {eng : Engine StandardFn} (h : ClassTable.build p standard = .ok eng.table)
  {v w : Variable StandardFn} {k : Kind}

include h

namespace Variable.MayHold

/-- A value of a kind is stored in variables of the classes as which it may pass. -/
theorem name_mem (hv : v.MayHold eng.table) (hk : v.value.HasKind eng.table k) :
    v.cls.name ∈ k.names := by
  have hfits := hv.fits
  have hroot : k.typeName ≠ Ty.objectName := by cases k <;> decide
  rw [hk.selfTy, Kind.ty, Variable.ty,
    ClassTable.check_named_asTy (Kind.ne_nullName k.typeName_mem_names)] at hfits
  exact (ClassTable.related_iff h k.typeName_mem_names hroot).mp hfits

/-- A namespace is stored in variables of the root class only. -/
theorem ty_of_namespace (hv : v.MayHold eng.table) {path : String}
    (hvalue : v.value = .namespace path) : v.ty = .object := by
  have hfits : eng.table.check (.named Ty.objectName) v.cls.asTy = true := by
    have hself : v.value.selfTy = .named Ty.objectName := by rw [hvalue]; rfl
    exact hself ▸ hv.fits
  rw [ClassTable.check_named_asTy (by decide), ClassTable.related_object_iff h] at hfits
  obtain ⟨c, hc, hgenerics, -⟩ := ClassTable.get?_object h
  rw [Variable.ty, hv.cls.asTy_eq (hfits ▸ hc) hgenerics, hfits]
  rfl

end Variable.MayHold

/-- A number or a truth value is an instance of what its declared class is related to. -/
theorem Engine.isInstance_of_kind (hk : k ∈ Kind.primitives) (hkind : v.value.HasKind eng.table k)
    (hv : v.MayHold eng.table) (target : RuntimeClass StandardFn) :
    eng.isInstance v target = true ↔
      target.name ∈ k.names ∧ (v.cls.name = Ty.objectName → target.name = Ty.objectName) := by
  have hname := hv.name_mem h hkind
  have htest : eng.isInstance v target = eng.table.related v.cls.name target.name := by
    obtain ⟨c, hc, hgenerics⟩ := ClassTable.get?_kind h hname
    rw [← ClassTable.check_named_asTy (Kind.ne_nullName hname) target,
      ← hv.cls.asTy_eq hc hgenerics]
    unfold isInstance Variable.runtimeTy
    generalize v.value = value at hkind
    cases hkind with
    | int | float | bool => rfl
    | str | object => exact absurd hk (by decide)
  rw [htest]
  by_cases hroot : v.cls.name = Ty.objectName
  · rw [hroot, ClassTable.related_object_iff h]
    exact ⟨fun hn => ⟨hn ▸ k.objectName_mem_names, fun _ => hn⟩, fun hn => hn.2 rfl⟩
  · rw [ClassTable.related_iff h hname hroot]
    exact ⟨fun hn => ⟨hn, fun hn' => absurd hn' hroot⟩, And.left⟩

/-- The answer for other values than numbers, truth values and classes is that for the value. -/
theorem Engine.isInstance_congr (hv : v.MayHold eng.table) (hw : w.MayHold eng.table)
    (hvalue : v.value = w.value) (hcls : ¬ v.value.IsClass)
    (hkind : ∀ k ∈ Kind.primitives, ¬ v.value.HasKind eng.table k)
    (target : RuntimeClass StandardFn) : eng.isInstance v target = eng.isInstance w target := by
  unfold isInstance Variable.runtimeTy
  rw [← hvalue]
  cases hv' : v.value with
  | null | str _ | object _ => rfl
  | «namespace» path =>
    rw [hv.ty_of_namespace h hv', hw.ty_of_namespace h (hvalue ▸ hv')]
  | int n => exact absurd (hv' ▸ .int n) (hkind .int (by decide))
  | float x => exact absurd (hv' ▸ .float x) (hkind .float (by decide))
  | bool b => exact absurd (hv' ▸ .bool b) (hkind .boolean (by decide))
  | cls c =>
    rw [hv'] at hcls
    exact absurd trivial hcls

/--
Two variables that may hold the same value are declared with any classes. A test of the class of the
value gives the same answer for both, unless the value is a number or a truth value, only one of the
two is declared with the root class, and the test asks for another class as which the value may
pass. Then the answers differ. (For a class as a value, the answer goes by the declared class as
well.)
-/
theorem instance_tests_agree_iff (hv : v.MayHold eng.table) (hw : w.MayHold eng.table)
    (hvalue : v.value = w.value) (hcls : ¬ v.value.IsClass) (target : RuntimeClass StandardFn) :
    eng.isInstance v target = eng.isInstance w target ↔
      ∀ k ∈ Kind.primitives, v.value.HasKind eng.table k → target.name ∈ k.names →
        target.name ≠ Ty.objectName →
          (v.cls.name = Ty.objectName ↔ w.cls.name = Ty.objectName) := by
  by_cases hkind : ∃ k ∈ Kind.primitives, v.value.HasKind eng.table k
  · obtain ⟨k, hk, hkind⟩ := hkind
    have hunique : ∀ {k'}, v.value.HasKind eng.table k' → k' = k := fun h' => h'.unique hkind
    rw [Bool.eq_iff_iff, Engine.isInstance_of_kind h hk hkind hv,
      Engine.isInstance_of_kind h hk (hvalue ▸ hkind) hw]
    constructor
    · intro hagree k' _ hkind' hmem hne
      cases hunique hkind'
      simp only [hmem, hne, true_and, imp_false] at hagree
      exact not_iff_not.mp hagree
    · intro hdeclared
      by_cases hne : target.name = Ty.objectName
      · simp [hne]
      · constructor
        · exact fun hm => ⟨hm.1, fun hn => hm.2 ((hdeclared k hk hkind hm.1 hne).mpr hn)⟩
        · exact fun hm => ⟨hm.1, fun hn => hm.2 ((hdeclared k hk hkind hm.1 hne).mp hn)⟩
  · have hnone : ∀ k ∈ Kind.primitives, ¬ v.value.HasKind eng.table k :=
      fun k hk h' => hkind ⟨k, hk, h'⟩
    exact iff_of_true (Engine.isInstance_congr h hv hw hvalue hcls hnone target)
      fun k hk h' => absurd h' (hnone k hk)

/-- There are variables for a value of a kind in all classes as which it may pass. -/
theorem Value.HasKind.exists_mayHold {value : Value StandardFn}
    (hkind : value.HasKind eng.table k) {a : String} (ha : a ∈ k.names) :
    ∃ c : RuntimeClass StandardFn, c.ty = ⟨a, []⟩ ∧ (Variable.mk c value).MayHold eng.table := by
  obtain ⟨tm, htm, hgenerics⟩ := ClassTable.get?_kind h ha
  have hformed : (ClassTy.toTy ⟨a, []⟩).Formed eng.table.arity? [] :=
    Ty.formed_cls.mpr ⟨by simp [ClassTable.arity?, htm, hgenerics], Ty.allFormed_nil⟩
  obtain ⟨c, hc⟩ := (ClassTable.complete_of_build h).exists_instantiates hformed
  have hroot : k.typeName ≠ Ty.objectName := by cases k <;> decide
  refine ⟨c, hc.ty_eq, .inl ⟨_, hc⟩, ?_⟩
  show eng.table.check value.selfTy c.asTy = true
  rw [hkind.selfTy, Kind.ty, ClassTable.check_named_asTy (Kind.ne_nullName k.typeName_mem_names),
    RuntimeClass.name, hc.ty_eq]
  exact (ClassTable.related_iff h k.typeName_mem_names hroot).mpr ha

end Built

/-! ## A number that is no instance of its box -/

open Build in
/-- A program that asks for the class of a number, in a variable of its box and of the root. -/
def boxedProgram : Program :=
  program
    [{ name := ident "Main",
       methods := [mainMethod
         [localVariable "Integer" "boxed" (some (int 5)),
          localVariable "Object" "plain" (some (var "boxed")),
          expr (println (call (var "Boolean") "toString" [instanceOf (var "boxed") "Integer"])),
          expr (println (call (var "Boolean") "toString" [instanceOf (var "plain") "Integer"]))]] }]

/-- All tests agree about a number in a variable of the primitive and in one of its box. -/
theorem instance_tests_agree_iff_boxed : ∃ (eng : Engine StandardFn) (v w : Variable StandardFn),
    ClassTable.build boxedProgram standard = .ok eng.table ∧
    v.MayHold eng.table ∧ w.MayHold eng.table ∧ v.value = w.value ∧ ¬ v.value.IsClass ∧
    v.ty = .int ∧ w.ty = .named Primitive.int.boxed ∧
    ∀ target : RuntimeClass StandardFn, eng.isInstance v target = eng.isInstance w target := by
  obtain ⟨t, ht⟩ : ∃ t, ClassTable.build boxedProgram standard = .ok t := by decide +kernel
  let eng : Engine StandardFn := { table := t, source := boxedProgram.source, entry := none }
  have hbuild : ClassTable.build boxedProgram standard = .ok eng.table := ht
  have hfive : (Value.int 5).HasKind eng.table .int := .int 5
  obtain ⟨c, hc, hv⟩ := hfive.exists_mayHold hbuild (a := Ty.intName) (by decide)
  obtain ⟨d, hd, hw⟩ := hfive.exists_mayHold hbuild (a := Primitive.int.boxed) (by decide)
  refine ⟨eng, ⟨c, .int 5⟩, ⟨d, .int 5⟩, hbuild, hv, hw, rfl, id, congrArg ClassTy.toTy hc,
    congrArg ClassTy.toTy hd, fun target => ?_⟩
  have hneither : c.name ≠ Ty.objectName ∧ d.name ≠ Ty.objectName := by
    rw [RuntimeClass.name, RuntimeClass.name, hc, hd]
    decide
  exact (instance_tests_agree_iff hbuild hv hw rfl id target).mpr fun _ _ _ _ _ =>
    iff_of_false hneither.1 hneither.2

/-- An accepted program finds that a number is an instance of its box, and then that it is not. -/
theorem boxed_number_disowned : ∃ (p' : Program) (eng : Engine StandardFn),
    boxedProgram.analyse standard = .ok p' ∧ Engine.new p' standard = .ok eng ∧
    eng.report.output = "true\nfalse\n" ∧
    ∃ (v w : Variable StandardFn) (target : RuntimeClass StandardFn),
      v.MayHold eng.table ∧ w.MayHold eng.table ∧ v.value = w.value ∧
      eng.isInstance v target = true ∧ eng.isInstance w target = false := by
  have hlaunches : boxedProgram.launches (fun _ => false) (fun eng =>
      eng.report.output == "true\nfalse\n") = true := by
    decide +kernel
  obtain ⟨p', eng, hanalyse, hnew, hprints⟩ := Program.passes_of_launches hlaunches
  have hserves : eng.Serves p' := ⟨eng, hnew, rfl⟩
  have hbuild := hserves.build
  have hfive : (Value.int 5).HasKind eng.table .int := .int 5
  obtain ⟨c, hc, hv⟩ := hfive.exists_mayHold hbuild (a := Primitive.int.boxed) (by decide)
  obtain ⟨d, hd, hw⟩ := hfive.exists_mayHold hbuild (a := Ty.objectName) (by decide)
  refine ⟨p', eng, hanalyse, hnew, beq_iff_eq.mp hprints, ⟨c, .int 5⟩, ⟨d, .int 5⟩, c, hv, hw, rfl,
    ?_, ?_⟩
  · refine (Engine.isInstance_of_kind hbuild (by decide) hfive hv c).mpr ?_
    rw [RuntimeClass.name, hc]
    decide
  · rw [← Bool.not_eq_true, Engine.isInstance_of_kind hbuild (by decide) hfive hw c]
    show ¬ (c.name ∈ Kind.int.names ∧ (d.name = Ty.objectName → c.name = Ty.objectName))
    rw [RuntimeClass.name, RuntimeClass.name, hc, hd]
    decide

end Middleweight
