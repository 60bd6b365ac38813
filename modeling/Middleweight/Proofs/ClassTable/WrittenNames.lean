import Middleweight.Native.Standard
import Middleweight.Proofs.ClassTable.Build
import Middleweight.Proofs.ClassTable.ImportClosure
import Middleweight.Syntax.Build

/-!
# What a written name stands for

An import table is filled from five places in turn. `ImportTable.meaning?` says without a table what
a name stands for: itself, if it is the name of a declared class or the full name of a native one;
else the class of that simple name that the last import to provide one provides; else the class of
that simple name in `java.lang`; else the primitive of which it is an alias.

* `ImportTable.resolve?_eq_meaning?` : a table gives every name its meaning
* `ClassTable.written_names_closed` : what names stand for is in the table and stands for itself
-/

namespace Middleweight

variable {F : Type}

namespace NativeRegistry

variable (natives : NativeRegistry F)

/-- The class of a simple name in the namespace of a path, the last one listed. -/
def classIn? (path name : String) : Option (NativeClass F) :=
  (natives.namespace? path).bind fun n => n.ownClasses.findRev? fun c => c.name = name

/-- The class of a simple name that an import provides. -/
def provided? (name : String) (i : Import) : Option (NativeClass F) :=
  if i.wildcard then natives.classIn? i.dotted name
  else (natives.class? i.dotted).filter fun c => c.name = name

end NativeRegistry

namespace ImportTable

variable {natives : NativeRegistry F} {p : Program} {t : ImportTable}

/-- The names of declared classes, and the full names of native ones. -/
def ownNames (natives : NativeRegistry F) (p : Program) : List String :=
  p.classes.map (fun d => d.name.name) ++ natives.classes.map NativeClass.fullName

/-- What a written name stands for. -/
def meaning? (natives : NativeRegistry F) (p : Program) (name : String) : Option String :=
  if name ∈ ownNames natives p then some name
  else
    ((p.imports.findSomeRev? (natives.provided? name)).map NativeClass.fullName).or
      (((natives.classIn? implicitNamespace name).map NativeClass.fullName).or
        (primitiveAliases.lookup name))

/-! ## Entries of classes -/

theorem lookup_simpleNames (classes : List (NativeClass F)) (name : String) :
    (simpleNames classes).lookup name =
      (classes.find? fun c => c.name = name).map NativeClass.fullName := by
  induction classes with
  | nil => rfl
  | cons c rest ih =>
    rw [simpleNames, List.map_cons, List.lookup_cons, List.find?_cons]
    by_cases h : c.name = name
    · simp [h]
    · rw [beq_eq_false_iff_ne.mpr (Ne.symm h), decide_eq_false h]
      exact ih

/-- Of the classes that are added together, the last one of a name counts. -/
theorem resolve?_add_simpleNames (t : ImportTable) (classes : List (NativeClass F))
    (name : String) : (t.add (simpleNames classes)).resolve? name =
      ((classes.findRev? fun c => c.name = name).map NativeClass.fullName).or
        (t.resolve? name) := by
  have hreverse : (simpleNames classes).reverse = simpleNames classes.reverse :=
    List.map_reverse.symm
  rw [resolve?, add, List.lookup_append, hreverse, lookup_simpleNames,
    List.findRev?_eq_find?_reverse]
  rfl

/-! ## The parts of a table -/

theorem resolve?_primitives (name : String) :
    ((⟨[]⟩ : ImportTable).add primitiveAliases).resolve? name = primitiveAliases.lookup name := by
  rw [resolve?, add, List.append_nil]
  exact lookup_of_perm (List.reverse_perm _).symm (by decide) name

theorem resolve?_implicit (name : String) : (implicit natives).resolve? name =
    ((natives.classIn? implicitNamespace name).map NativeClass.fullName).or
      (primitiveAliases.lookup name) := by
  rw [implicit, NativeRegistry.classIn?]
  cases natives.namespace? implicitNamespace with
  | none => exact resolve?_primitives name
  | some n => exact (resolve?_add_simpleNames _ _ name).trans (by rw [resolve?_primitives]; rfl)

/-- An import brings the classes that it provides. -/
theorem importedNames_ok {i : Import} {names : List (String × String)}
    (h : importedNames natives i = .ok names) : ∃ classes : List (NativeClass F),
      names = simpleNames classes ∧ ∀ name : String,
        classes.findRev? (fun c => c.name = name) = natives.provided? name i := by
  unfold importedNames at h
  split at h
  · next n hn hw =>
    cases h
    refine ⟨n.ownClasses, rfl, fun name => ?_⟩
    rw [NativeRegistry.provided?, if_pos hw, NativeRegistry.classIn?, NativeRegistry.namespace?, hn]
    rfl
  · next c hc hw =>
    cases h
    refine ⟨[c], rfl, fun name => ?_⟩
    rw [NativeRegistry.provided?, if_neg (by simp [hw]), NativeRegistry.class?, hc]
    rfl
  · cases h

/-- Imports override what was there, and later ones override earlier ones. -/
theorem resolve?_addImports (name : String) : ∀ {is : List Import} {t t' : ImportTable},
    addImports natives t is = .ok t' → t'.resolve? name =
      ((is.findSomeRev? (natives.provided? name)).map NativeClass.fullName).or
        (t.resolve? name) := by
  intro is
  induction is with
  | nil =>
    intro t t' h
    cases h
    rfl
  | cons i rest ih =>
    intro t t' h
    rw [addImports] at h
    split at h
    · next names hnames =>
      obtain ⟨classes, rfl, hprovided⟩ := importedNames_ok hnames
      rw [ih h, resolve?_add_simpleNames, hprovided, List.findSomeRev?]
      cases rest.findSomeRev? (natives.provided? name) <;> rfl
    · cases h

theorem lookup_fullNames (name : String) : (fullNames natives p).lookup name =
    if name ∈ ownNames natives p then some name else none := by
  have hkeys : (name, name) ∈ fullNames natives p ↔ name ∈ ownNames natives p := by
    simp [fullNames, ownNames, or_comm]
  split
  · next hname =>
    exact lookup_eq_of_forall (hkeys.mpr hname) fun e he hk => (mem_fullNames he).1.trans hk
  · next hname =>
    rw [List.lookup_eq_none_iff]
    rintro ⟨key, full⟩ he
    rw [bne_iff_ne]
    rintro rfl
    have hfull : full = name := (mem_fullNames he).1
    subst hfull
    exact hname (hkeys.mp he)

/-- An import table gives every name its meaning. -/
theorem resolve?_eq_meaning? (h : build p natives = .ok t) (name : String) :
    t.resolve? name = meaning? natives p name := by
  unfold build at h
  split at h
  · cases h
  · next t₁ h₁ =>
    cases h
    have hparts : ((t₁.add (p.classes.map fun c => (c.name.name, c.name.name))).add
        (natives.classes.map fun c => (c.fullName, c.fullName))).resolve? name =
        ((fullNames natives p).lookup name).or (t₁.resolve? name) := by
      rw [resolve?, add, add, ← List.append_assoc, List.lookup_append]
      rfl
    rw [hparts, lookup_fullNames, resolve?_addImports name h₁, resolve?_implicit, meaning?]
    split <;> rfl

end ImportTable

namespace ClassTable

/-- If no native class goes by the name of a primitive, then what a name stands for is a class of
the table and stands for itself; and every name stands for what it means. -/
theorem written_names_closed {natives : NativeRegistry F} {p : Program} {t : ClassTable F}
    (h : build p natives = .ok t) (hn : natives.LeavesPrimitives) :
    (∀ name full, t.imports.resolve? name = some full →
      (∃ c, t.get? full = some c) ∧ t.imports.resolve? full = some full) ∧
    ∀ name, t.imports.resolve? name = ImportTable.meaning? natives p name := by
  have himports := imports_of_build h
  refine ⟨fun name full hf => ⟨?_, ImportTable.resolve?_resolve? himports hn hf⟩,
    ImportTable.resolve?_eq_meaning? himports⟩
  obtain ⟨n, hn⟩ := arity?_of_resolve? h hf
  obtain ⟨c, hc, -⟩ := Option.map_eq_some_iff.mp hn
  exact ⟨c, hc⟩

open Build in
/-- Two imports that both provide a list; the later one also provides a string. -/
def shadowProgram : Program :=
  program [{ name := ident "Main" }] [importPath "java.util.*", importPath "demo.*"]

/-- The standard library, and classes that go by the names of some of its classes. -/
def shadowNatives : NativeRegistry StandardFn :=
  NativeRegistry.ofClasses (NativeClass.standard ++ [NativeClass.ofName "demo" "List",
    NativeClass.ofName "demo" "String", NativeClass.ofName "demo" "long"])

theorem written_names_closed_shadows : shadowNatives.LeavesPrimitives ∧
    ∃ t, build shadowProgram shadowNatives = .ok t ∧
      ["List", "String", "long", "double", "Object", "Main", "Map"].map t.imports.resolve? =
        [some "demo.List", some "demo.String", some "demo.long", some "float",
          some "java.lang.Object", some "Main", none] ∧
      (∃ c, t.get? "demo.List" = some c) ∧ t.imports.resolve? "demo.List" = some "demo.List" := by
  have hn : shadowNatives.LeavesPrimitives := by
    unfold NativeRegistry.LeavesPrimitives
    decide +kernel
  have hsome : (build shadowProgram shadowNatives).toOption.isSome = true := by decide +kernel
  obtain ⟨t, htable⟩ := Option.isSome_iff_exists.mp hsome
  have ht : build shadowProgram shadowNatives = .ok t := ok_of_toOption htable
  obtain ⟨hclosed, hmeaning⟩ := written_names_closed ht hn
  have hnames : ["List", "String", "long", "double", "Object", "Main", "Map"].map
      (ImportTable.meaning? shadowNatives shadowProgram) =
        [some "demo.List", some "demo.String", some "demo.long", some "float",
          some "java.lang.Object", some "Main", none] := by decide +kernel
  have hlist : t.imports.resolve? "List" = some "demo.List" := by
    rw [hmeaning]
    exact (List.cons.inj hnames).1
  exact ⟨hn, t, ht, funext hmeaning ▸ hnames, hclosed _ _ hlist⟩

end ClassTable

end Middleweight
