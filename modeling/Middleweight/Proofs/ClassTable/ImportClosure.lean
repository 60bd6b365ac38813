import Middleweight.ClassTable.Imports
import Middleweight.ClassTable.Template
import Middleweight.Proofs.Basic
import Middleweight.Proofs.Native.Listing

/-!
# Full names stand for themselves

A name that an import table resolves stands for itself, for a primitive or for a native class; a
full name stands for itself. So resolving a second time changes nothing.

* `ImportTable.resolve?_cases` : what a name can stand for
* `ImportTable.resolve?_resolve?` : resolving twice is resolving once
-/

namespace Middleweight

variable {F : Type}

/-- No native class goes by the name of a primitive. -/
def NativeRegistry.LeavesPrimitives (natives : NativeRegistry F) : Prop :=
  ∀ c ∈ natives.classes, Primitive.ofName? c.name = none

namespace ImportTable

/-- An entry under which a primitive is written, or the simple name of a native class. -/
def IsSimple (natives : NativeRegistry F) (e : String × String) : Prop :=
  e ∈ primitiveAliases ∨ ∃ c ∈ natives.classes, e = (c.name, c.fullName)

variable {natives : NativeRegistry F} {p : Program} {t : ImportTable}

theorem isSimple_simpleNames {classes : List (NativeClass F)}
    (h : ∀ c ∈ classes, c ∈ natives.classes) : ∀ e ∈ simpleNames classes, IsSimple natives e := by
  intro e he
  obtain ⟨c, hc, rfl⟩ := List.mem_map.mp he
  exact .inr ⟨c, h c hc, rfl⟩

theorem isSimple_importedNames {i : Import} {names : List (String × String)}
    (h : importedNames natives i = .ok names) : ∀ e ∈ names, IsSimple natives e := by
  unfold importedNames at h
  split at h
  · next n hn _ =>
    cases h
    have hns : natives.namespace? i.dotted = some n := by rw [NativeRegistry.namespace?, hn]
    exact isSimple_simpleNames fun c hc => NativeRegistry.mem_classes_of_namespace? hns hc
  · next c hc _ =>
    cases h
    refine isSimple_simpleNames fun d hd => ?_
    rw [List.mem_singleton.mp hd]
    exact NativeRegistry.mem_classes_of_lookup hc
  · cases h

/-- Adding entries of a kind keeps a table of entries of that kind. -/
theorem forall_add {P : String × String → Prop} {es : List (String × String)}
    (hes : ∀ e ∈ es, P e) (ht : ∀ e ∈ t.names, P e) : ∀ e ∈ (t.add es).names, P e := by
  intro e he
  rcases List.mem_append.mp he with he | he
  · exact hes e (List.mem_reverse.mp he)
  · exact ht e he

theorem isSimple_implicit : ∀ e ∈ (implicit natives).names, IsSimple natives e := by
  have haliases : ∀ e ∈ ((⟨[]⟩ : ImportTable).add primitiveAliases).names, IsSimple natives e :=
    forall_add (fun e he => .inl he) (by simp)
  unfold implicit
  dsimp only
  split
  · next n hn =>
    exact forall_add (isSimple_simpleNames fun c hc =>
      NativeRegistry.mem_classes_of_namespace? hn hc) haliases
  · exact haliases

theorem isSimple_addImports : ∀ {is : List Import} {t t' : ImportTable},
    (∀ e ∈ t.names, IsSimple natives e) → addImports natives t is = .ok t' →
    ∀ e ∈ t'.names, IsSimple natives e := by
  intro is
  induction is with
  | nil =>
    intro t t' ht h
    cases h
    exact ht
  | cons i rest ih =>
    intro t t' ht h
    rw [addImports] at h
    split at h
    · next names hnames => exact ih (forall_add (isSimple_importedNames hnames) ht) h
    · cases h

/-- Imports come in front of what was there. -/
theorem names_addImports : ∀ {is : List Import} {t t' : ImportTable},
    addImports natives t is = .ok t' → ∃ added, t'.names = added ++ t.names := by
  intro is
  induction is with
  | nil =>
    intro t t' h
    cases h
    exact ⟨[], rfl⟩
  | cons i rest ih =>
    intro t t' h
    rw [addImports] at h
    split at h
    · next names _ =>
      obtain ⟨added, hadded⟩ := ih h
      exact ⟨added ++ names.reverse, by rw [hadded, add, List.append_assoc]⟩
    · cases h

theorem aliases_mem_implicit : ∀ e ∈ primitiveAliases, e ∈ (implicit natives).names := by
  intro e he
  unfold implicit
  dsimp only
  split
  · exact List.mem_append_right _ (List.mem_append_left _ (List.mem_reverse.mpr he))
  · exact List.mem_append_left _ (List.mem_reverse.mpr he)

/-! ## The parts of an import table -/

/-- The entries of full names: native ones first, then those of declared classes. -/
def fullNames (natives : NativeRegistry F) (p : Program) : List (String × String) :=
  (natives.classes.map fun c => (c.fullName, c.fullName)).reverse ++
    (p.classes.map fun c => (c.name.name, c.name.name)).reverse

/-- An import table: full names, and behind them simple ones with all aliases of primitives. -/
theorem build_ok (h : build p natives = .ok t) :
    ∃ simple, t.names = fullNames natives p ++ simple ∧ (∀ e ∈ simple, IsSimple natives e) ∧
      ∀ e ∈ primitiveAliases, e ∈ simple := by
  unfold build at h
  split at h
  · cases h
  · next t₁ h₁ =>
    cases h
    obtain ⟨added, hadded⟩ := names_addImports h₁
    refine ⟨t₁.names, by simp [add, fullNames], isSimple_addImports isSimple_implicit h₁, ?_⟩
    intro e he
    rw [hadded]
    exact List.mem_append_right _ (aliases_mem_implicit e he)

theorem mem_fullNames {e : String × String} (h : e ∈ fullNames natives p) :
    e.2 = e.1 ∧ ((∃ c ∈ natives.classes, e.1 = c.fullName) ∨
      ∃ d ∈ p.classes, e.1 = d.name.name) := by
  rcases List.mem_append.mp h with h | h
  · obtain ⟨c, hc, rfl⟩ := List.mem_map.mp (List.mem_reverse.mp h)
    exact ⟨rfl, .inl ⟨c, hc, rfl⟩⟩
  · obtain ⟨d, hd, rfl⟩ := List.mem_map.mp (List.mem_reverse.mp h)
    exact ⟨rfl, .inr ⟨d, hd, rfl⟩⟩

theorem alias_primitive {e : String × String} (h : e ∈ primitiveAliases) :
    ∃ q : Primitive, e.2 = q.name := by
  simp only [primitiveAliases, List.mem_cons, List.not_mem_nil, or_false] at h
  rcases h with rfl | rfl | rfl | rfl | rfl | rfl | rfl
  all_goals first
    | exact ⟨.int, rfl⟩
    | exact ⟨.float, rfl⟩
    | exact ⟨.boolean, rfl⟩

/-- The name of a primitive is an alias of that primitive and of no other. -/
theorem alias_of_name {e : String × String} (h : e ∈ primitiveAliases) {q : Primitive}
    (hq : e.1 = q.name) : e.2 = q.name := by
  simp only [primitiveAliases, List.mem_cons, List.not_mem_nil, or_false] at h
  rcases h with rfl | rfl | rfl | rfl | rfl | rfl | rfl <;> cases q <;> revert hq <;> decide

theorem name_mem_aliases (q : Primitive) : (q.name, q.name) ∈ primitiveAliases := by
  cases q <;> decide

/-! ## Resolving -/

/-- A name stands for itself, for a primitive or for a native class of that simple name. -/
theorem resolve?_cases (h : build p natives = .ok t) {name full : String}
    (hf : t.resolve? name = some full) :
    (full = name ∧ ((∃ c ∈ natives.classes, full = c.fullName) ∨
        ∃ d ∈ p.classes, full = d.name.name)) ∨
      (∃ q : Primitive, full = q.name) ∨ ∃ c ∈ natives.classes, full = c.fullName := by
  obtain ⟨simple, hnames, hsimple, -⟩ := build_ok h
  have hm : (name, full) ∈ t.names := mem_of_lookup hf
  rw [hnames] at hm
  rcases List.mem_append.mp hm with hm | hm
  · obtain ⟨heq, hcases⟩ := mem_fullNames hm
    cases heq
    exact .inl ⟨rfl, hcases⟩
  · rcases hsimple _ hm with ha | ⟨c, hc, he⟩
    · exact .inr (.inl (alias_primitive ha))
    · cases he
      exact .inr (.inr ⟨c, hc, rfl⟩)

/-- Native and declared classes have their full names. -/
theorem resolve?_of_mem_fullNames (h : build p natives = .ok t) {name : String}
    (hm : (name, name) ∈ fullNames natives p) : t.resolve? name = some name := by
  obtain ⟨simple, hnames, -, -⟩ := build_ok h
  have hl : (fullNames natives p).lookup name = some name :=
    lookup_eq_of_forall hm fun e he hk => (mem_fullNames he).1.trans hk
  rw [resolve?, hnames, List.lookup_append, hl]
  rfl

theorem resolve?_native (h : build p natives = .ok t) {c : NativeClass F}
    (hc : c ∈ natives.classes) : t.resolve? c.fullName = some c.fullName := by
  refine resolve?_of_mem_fullNames h (List.mem_append_left _ (List.mem_reverse.mpr ?_))
  exact List.mem_map.mpr ⟨c, hc, rfl⟩

theorem resolve?_declared (h : build p natives = .ok t) {d : ClassDecl} (hd : d ∈ p.classes) :
    t.resolve? d.name.name = some d.name.name := by
  refine resolve?_of_mem_fullNames h (List.mem_append_right _ (List.mem_reverse.mpr ?_))
  exact List.mem_map.mpr ⟨d, hd, rfl⟩

theorem resolve?_primitive (h : build p natives = .ok t) (hn : natives.LeavesPrimitives)
    (q : Primitive) : t.resolve? q.name = some q.name := by
  obtain ⟨simple, hnames, hsimple, haliases⟩ := build_ok h
  rw [resolve?, hnames]
  refine lookup_eq_of_forall (List.mem_append_right _ (haliases _ (name_mem_aliases q))) ?_
  intro e he hk
  rcases List.mem_append.mp he with he | he
  · exact (mem_fullNames he).1.trans hk
  · rcases hsimple e he with ha | ⟨c, hc, rfl⟩
    · exact alias_of_name ha hk
    · have hk : c.name = q.name := hk
      have hnone := hn c hc
      rw [hk, Primitive.ofName?_name] at hnone
      cases hnone

/-- What a name stands for stands for itself. -/
theorem resolve?_resolve? (h : build p natives = .ok t) (hn : natives.LeavesPrimitives)
    {name full : String} (hf : t.resolve? name = some full) : t.resolve? full = some full := by
  rcases resolve?_cases h hf with ⟨rfl, -⟩ | ⟨q, rfl⟩ | ⟨c, hc, rfl⟩
  · exact hf
  · exact resolve?_primitive h hn q
  · exact resolve?_native h hc

end ImportTable

end Middleweight
