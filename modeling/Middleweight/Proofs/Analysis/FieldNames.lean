import Middleweight.Proofs.Analysis.Idempotence
import Middleweight.Proofs.ClassTable.Hierarchy
import Middleweight.Proofs.Objects.Regular

/-!
# Names of classes and fields in two tables

Analysis gives types other names but leaves the names of classes and fields, and what an `extends`
clause stands for. So the table that bodies are checked with and the table that the analysed program
runs with have the same names: the same imports, the same base classes and the same fields, by name,
along them. Whether a class has a field is then the same question in both, and the one to which the
checker finds a type.

* `ClassTable.namesAlike_of_analysed` : the table of the checker and that of the engine
* `ClassTable.isSome_fieldType` : the checker finds a type for the fields that there are
* `ClassTable.exists_declares_of_hasField` : fields that a base class does not have
-/

namespace Middleweight

open NativeRegistry (standard)
open Bases (Ascends)

variable {F : Type}

/-! ## Bases -/

/-- The bases of the classes of a table are the ones that are written. -/
theorem ClassTable.baseName?_of_build {t : ClassTable F} {p : Program} {natives : NativeRegistry F}
    (h : build p natives = .ok t) : t.baseName? = p.bases natives t.imports := by
  obtain ⟨-, -, -, ⟨ws, hws, hcs⟩, -⟩ := build_ok_iff.mp h
  exact baseName?_of_parts hws hcs

/-- A class with another one that has its name, its base and its fields, by name. -/
structure ClassDecl.Redeclares (imports : ImportTable) (d d' : ClassDecl) : Prop where
  name : d'.name = d.name
  generics : d'.generics = d.generics
  base : imports.baseOf d.name.name d'.base = imports.baseOf d.name.name d.base
  fields : d'.fields.map (·.name.name) = d.fields.map (·.name.name)

/-- An expanded class has the names of the class. -/
theorem ClassDecl.redeclares_expand {t : ClassTable F} (ht : t.Resolves) {d d' : ClassDecl}
    (h : d.expand t = .ok d') : d.Redeclares t.imports d'.regroup := by
  obtain ⟨base, fields, constructors, methods, hbase, hfields, -, -, rfl⟩ := ClassDecl.expand_ok h
  refine ⟨rfl, rfl, ?_, ?_⟩
  · show t.imports.baseOf d.name.name base = _
    rcases rel_elim hbase with ⟨hnone, rfl⟩ | ⟨e, e', hsome, rfl, he⟩
    · rw [hnone]
    · rw [hsome]
      show t.imports.resolve? e'.name = t.imports.resolve? e.name
      rcases TypeExpr.expand_ok he with ⟨-, -, rfl⟩ | ⟨-, full, args, hfull, -, -, rfl⟩
      · rfl
      · exact (ht.twice hfull).trans hfull.symm
  · show fields.map _ = d.fields.map _
    clear h
    generalize d.fields = fs at hfields
    induction hfields with
    | nil => rfl
    | cons hf _ ih => rw [List.map_cons, List.map_cons, ih, (FieldDecl.expand_ok hf).1]

/-- Classes that redeclare those of a program leave the bases of all classes as they are. -/
theorem Program.bases_congr {imports : ImportTable} {p p' : Program} (natives : NativeRegistry F)
    (h : List.Forall₂ (ClassDecl.Redeclares imports) p.classes p'.classes) :
    p'.bases natives imports = p.bases natives imports := by
  have hlookup : ∀ {ds ds' : List ClassDecl}, List.Forall₂ (ClassDecl.Redeclares imports) ds ds' →
      ∀ rest : List (String × Option TypeExpr), ∀ name,
      (((ds'.map fun d => (d.name.name, d.base)).reverse ++ rest).lookup name).bind
        (imports.baseOf name) =
      (((ds.map fun d => (d.name.name, d.base)).reverse ++ rest).lookup name).bind
        (imports.baseOf name) := by
    intro ds ds' hds
    induction hds with
    | nil => exact fun _ _ => rfl
    | @cons d d' ds ds' hd _ ih =>
      intro rest name
      simp only [List.map_cons, List.reverse_cons, List.append_assoc, List.singleton_append]
      rw [ih ((d'.name.name, d'.base) :: rest) name, List.lookup_append, List.lookup_append,
        List.lookup_cons, List.lookup_cons, hd.name]
      by_cases hname : name = d.name.name
      · subst hname
        rw [beq_self_eq_true]
        cases (ds.map fun d => (d.name.name, d.base)).reverse.lookup d.name.name with
        | none => exact hd.base
        | some _ => rfl
      · rw [beq_false_of_ne hname]
  funext name
  exact hlookup h _ name

/-! ## Fields -/

namespace ClassTable

variable {t t' : ClassTable F}

/-- Whether a class itself has a field of a name. -/
def declaresField (t : ClassTable F) (className field : String) : Bool :=
  (t.get? className).any fun c => (c.field? field).isSome

theorem declaresField_of_get? {className field : String} {c : Template F}
    (h : t.get? className = some c) : t.declaresField className field = (c.field? field).isSome := by
  rw [declaresField, h]
  rfl

/-- Only classes of the program have fields. -/
theorem declaresField_iff {p : Program} {t : ClassTable StandardFn}
    (h : build p standard = .ok t) {className field : String} :
    t.declaresField className field = true ↔
      ∃ d ∈ p.classes, d.name.name = className ∧ field ∈ d.fields.map (·.name.name) := by
  have hnames : ∀ {d : ClassDecl} {c : Template StandardFn}, declaredTemplate t.lowering d = .ok c →
      ((c.field? field).isSome = true ↔ field ∈ d.fields.map (·.name.name)) := by
    intro d c hc
    obtain ⟨base, fields, -, hfields, rfl⟩ := declaredTemplate_ok hc
    have heq : fields.map FieldTemplate.name = d.fields.map (·.name.name) := by
      have hrel := lowerFields_ok_iff.mp hfields
      generalize d.fields = fs at hrel
      clear hfields hc
      induction hrel with
      | nil => rfl
      | cons hf _ ih => rw [List.map_cons, List.map_cons, ih, hf.1]
    show (fields.find? fun f => f.name == field).isSome = true ↔ _
    rw [List.find?_isSome, ← heq, List.mem_map]
    simp only [beq_iff_eq]
  constructor
  · intro hfield
    obtain ⟨c, hc, hsome⟩ := (Option.any_eq_true _ _).mp hfield
    rcases mem_classes_cases h (get?_mem hc) with ⟨q, rfl⟩ | ⟨n, hn, hmade⟩ | ⟨d, hd, hmade⟩
    · cases hsome
    · obtain ⟨base, -, rfl⟩ := nativeTemplate_ok hmade
      cases hsome
    · refine ⟨d, hd, ?_, (hnames hmade).mp hsome⟩
      obtain ⟨base, fields, -, -, rfl⟩ := declaredTemplate_ok hmade
      exact get?_name hc
  · rintro ⟨d, hd, rfl, hfield⟩
    obtain ⟨c, hmade, hc⟩ := get?_declared h hd
    rw [declaresField_of_get? hc]
    exact (hnames hmade).mpr hfield

theorem hasField_eq_any {className field : String} {l : List String}
    (h : Ascends t.baseName? className l) :
    t.hasField className field = l.any fun a => t.declaresField a field := by
  rw [hasField, ancestors_of_ascends h]
  rfl

/-- A class that another one extends has no more fields. -/
theorem hasField_of_inherits {a b field : String} {l : List String}
    (h : Ascends t.baseName? a l) (hb : b ∈ l) (hfield : t.hasField b field = true) :
    t.hasField a field = true := by
  obtain ⟨rest, hrest, hsuffix⟩ := h.of_mem hb
  rw [hasField_eq_any hrest] at hfield
  rw [hasField_eq_any h]
  obtain ⟨c, hc, hdeclares⟩ := List.any_eq_true.mp hfield
  exact List.any_eq_true.mpr ⟨c, hsuffix.subset hc, hdeclares⟩

/-- The checker finds a type for a name exactly where the class or one of its bases has the field. -/
theorem isSome_fieldTypeWithin {field : String} {owner : ClassTy} {n : Nat}
    (h : t.Climbs owner.name n) : ∀ {l : List String}, Ascends t.baseName? owner.name l →
    ∀ {fuel : Nat}, l.length ≤ fuel → ∃ ty?, t.fieldTypeWithin field fuel owner = .ok ty? ∧
      ty?.isSome = l.any fun a => t.declaresField a field := by
  obtain ⟨name, args⟩ := owner
  dsimp only at h ⊢
  induction h generalizing args with
  | @root name c hget hbase =>
    intro l hl fuel hlen
    obtain ⟨fuel, rfl⟩ : ∃ k, fuel = k + 1 := by
      cases hl <;> exact Nat.exists_eq_succ_of_ne_zero (by simp at hlen; omega)
    have hb : t.baseName? name = none := by rw [baseName?, hget, Option.bind_some, hbase]; rfl
    have hbaseOf : t.baseOf ⟨name, args⟩ = .ok none := by
      rw [baseOf, template_ok_iff.mpr hget]
      simp [Except.map, hbase]
    cases hl with
    | step hstep => cases hb.symm.trans hstep
    | last =>
      rw [fieldTypeWithin, template_ok_iff.mpr hget, List.any_cons, List.any_nil, Bool.or_false,
        declaresField_of_get? hget]
      dsimp only
      cases c.field? field with
      | some f => exact ⟨_, rfl, rfl⟩
      | none => exact ⟨none, by rw [hbaseOf], rfl⟩
  | @step name c base n hget hbase _ ih =>
    intro l hl fuel hlen
    obtain ⟨fuel, rfl⟩ : ∃ k, fuel = k + 1 := by
      cases hl <;> exact Nat.exists_eq_succ_of_ne_zero (by simp at hlen; omega)
    have hb : t.baseName? name = some base.name := by
      rw [baseName?, hget, Option.bind_some, hbase]
      rfl
    obtain ⟨rest, hrest, rfl⟩ := hl.of_step hb
    have hbaseOf : t.baseOf ⟨name, args⟩ =
        .ok (some (base.substitute (Bindings.zip c.generics args))) := by
      rw [baseOf, template_ok_iff.mpr hget]
      simp [Except.map, hbase]
    rw [fieldTypeWithin, template_ok_iff.mpr hget, List.any_cons, declaresField_of_get? hget]
    dsimp only
    cases c.field? field with
    | some f => exact ⟨_, rfl, by simp⟩
    | none =>
      rw [hbaseOf]
      obtain ⟨ty?, hty, hsome⟩ := ih _ hrest (Nat.le_of_succ_le_succ hlen)
      exact ⟨ty?, hty, by rw [hsome]; rfl⟩

theorem isSome_fieldType {owner : ClassTy} {n : Nat} (h : t.Climbs owner.name n)
    (field : String) : ∃ ty?, t.fieldType owner field = .ok ty? ∧
      ty?.isSome = t.hasField owner.name field := by
  obtain ⟨l, hl⟩ := h.ascends
  obtain ⟨ty?, hty, hsome⟩ := isSome_fieldTypeWithin h hl (length_le_height hl)
  exact ⟨ty?, hty, hsome.trans (hasField_eq_any hl).symm⟩

/-! ## Two tables -/

/-- Tables with the same names: of classes and namespaces, of bases, and of fields. -/
structure NamesAlike (t t' : ClassTable F) : Prop where
  imports : t'.imports = t.imports
  natives : t'.natives = t.natives
  bases : t'.baseName? = t.baseName?
  fields : ∀ className field, t'.declaresField className field = t.declaresField className field

theorem NamesAlike.refl (t : ClassTable F) : t.NamesAlike t := ⟨rfl, rfl, rfl, fun _ _ => rfl⟩

theorem NamesAlike.hasField_eq (h : t.NamesAlike t') {className : String} {l : List String}
    (hl : Ascends t.baseName? className l) (field : String) :
    t'.hasField className field = t.hasField className field := by
  have hl' : Ascends t'.baseName? className l := h.bases ▸ hl
  rw [hasField_eq_any hl, hasField_eq_any hl']
  simp only [h.fields]

/-- The table that the checker uses and that of the analysed program have the same names. -/
theorem namesAlike_of_analysed {p p₁ : Program} {t t' : ClassTable StandardFn}
    (h : build p standard = .ok t) (hexpand : p.expand t = .ok p₁)
    (h' : build p₁.regroup standard = .ok t') : t.NamesAlike t' := by
  have ht := resolves_of_build h NativeRegistry.standard_wellNamed
  obtain ⟨classes, hclasses, rfl⟩ := Program.expand_ok hexpand
  have hredeclares : List.Forall₂ (ClassDecl.Redeclares t.imports) p.classes
      (classes.map ClassDecl.regroup) :=
    List.forall₂_map_right_iff.mpr (hclasses.imp fun _ _ hd => ClassDecl.redeclares_expand ht hd)
  have himports : t'.imports = t.imports := by
    have hsame : ImportTable.build (Program.regroup { p with classes }) standard =
        ImportTable.build p standard :=
      imports_congr rfl (hredeclares.imp fun _ _ hd => ⟨hd.name, hd.generics⟩)
    exact Except.ok.inj ((imports_of_build h').symm.trans (hsame.trans (imports_of_build h)))
  refine ⟨himports, (natives_of_build h').trans (natives_of_build h).symm, ?_, ?_⟩
  · rw [baseName?_of_build h, baseName?_of_build h', himports]
    exact Program.bases_congr standard hredeclares
  · intro className field
    rw [Bool.eq_iff_iff, declaresField_iff h, declaresField_iff h']
    constructor
    · rintro ⟨d', hd', hname, hfield⟩
      obtain ⟨d, hd, hrel⟩ := exists_of_forall₂_mem hredeclares hd'
      exact ⟨d, hd, hrel.name ▸ hname, hrel.fields ▸ hfield⟩
    · rintro ⟨d, hd, hname, hfield⟩
      obtain ⟨d', hd', hrel⟩ := exists_of_forall₂_mem hredeclares.flip hd
      exact ⟨d', hd', hrel.name ▸ hname, hrel.fields ▸ hfield⟩

/-! ## Names that are no fields -/

/--
A field that a class does not have, but one that extends it, is declared by a class that extends it.
-/
theorem exists_declares_of_hasField {a b field : String} {l : List String}
    (hl : Ascends t.baseName? a l) (hb : b ∈ l) (hnone : t.hasField b field = false)
    (hfield : t.hasField a field = true) :
    ∃ c ∈ t.classes, t.inherits c.name b = true ∧ (c.field? field).isSome = true := by
  obtain ⟨rest, hrest, hsuffix⟩ := hl.of_mem hb
  rw [hasField_eq_any hl] at hfield
  obtain ⟨e, he, hdeclares⟩ := List.any_eq_true.mp hfield
  obtain ⟨c, hc, hsome⟩ := (Option.any_eq_true _ _).mp hdeclares
  obtain ⟨more, hmore, hsuffix'⟩ := hl.of_mem he
  refine ⟨c, get?_mem hc, ?_, hsome⟩
  -- The class with the field is below the other one, which would have the field if it were above.
  rw [get?_name hc]
  rcases List.suffix_or_suffix_of_suffix hsuffix hsuffix' with hin | hin
  · exact (inherits_iff_of_ascends hmore).mpr
      (hin.subset (List.mem_of_mem_head? hrest.head?_eq))
  · rw [hasField_eq_any hrest] at hnone
    refine absurd (List.any_eq_true.mpr ⟨e, hin.subset ?_, hdeclares⟩) (by rw [hnone]; simp)
    exact List.mem_of_mem_head? hmore.head?_eq

end ClassTable

end Middleweight
