import Mathlib.Data.List.Perm.Basic
import Middleweight.Proofs.Analysis.ExpandedRun
import Middleweight.Proofs.Analysis.Idempotence
import Middleweight.Proofs.ClassTable.Order
import Middleweight.Proofs.Syntax.Procedural

/-!
# The order of classes and analysis

Analysis accepts a program whatever the order of its classes: all it asks of other classes it asks
of their table, which does not depend on the order, and everything else is checked class by class.
The analysed classes come in the order of the program. A run starts from the first class that has a
main method, so the order may be seen where there is more than one; otherwise the runs of programs
that differ in the order of their classes look the same.

* `Program.Analysed.of_perm` : analysis of the same classes in another order
* `Engine.reportWithin_of_perm` : runs of the same classes in another order
* `class_order_irrelevant` : both, for the order given by a list of places
-/

namespace Middleweight

variable {F : Type}

/-! ## Analysis, class by class -/

/-- What analysis of a program with a given table asks for, and what it gives. -/
structure Program.Analysed (natives : NativeRegistry F) (t : ClassTable F) (p p' : Program) :
    Prop where
  build : ClassTable.build p natives = .ok t
  source : p'.source = p.source
  imports : p'.imports = p.imports
  classes : List.Forall₂ (fun c c' => (ClassDecl.expand t c).map ClassDecl.regroup = .ok c')
    p.classes p'.classes
  main : p'.mains.length = 1
  fields : ∀ c ∈ p'.classes, FieldDecl.checkDistinct c.name.name [] c.fields = .ok ()
  check : ∀ c ∈ p'.classes, ClassDecl.check t c = .ok ()

theorem Program.analyse_ok_iff_analysed {natives : NativeRegistry F} {p p' : Program} :
    p.analyse natives = .ok p' ↔ ∃ t, p.Analysed natives t p' := by
  rw [analyse_ok_iff]
  constructor
  · intro h
    obtain ⟨t, p₁, hbuild, hexpand, rfl, hmain, hfields, hcheck⟩ := analyseFindings_ok h
    obtain ⟨classes, hclasses, rfl⟩ := Program.expand_ok hexpand
    refine ⟨t, hbuild, rfl, rfl, ?_, checkMain_ok_iff.mp hmain, forM_ok_iff.mp hfields,
      forM_ok_iff.mp hcheck⟩
    unfold Program.regroup
    rw [List.forall₂_map_right_iff]
    exact hclasses.imp fun c c' hc => by rw [hc]; rfl
  · rintro ⟨t, hbuild, hsource, himports, hclasses, hmain, hfields, hcheck⟩
    -- The expanded classes, before their operators are regrouped.
    obtain ⟨cs, hcs, heq⟩ : ∃ cs, List.Forall₂ (fun c c' => ClassDecl.expand t c = .ok c')
        p.classes cs ∧ cs.map ClassDecl.regroup = p'.classes := by
      generalize p.classes = as, p'.classes = bs at hclasses
      clear hbuild hmain hfields hcheck hsource himports
      induction hclasses with
      | nil => exact ⟨[], .nil, rfl⟩
      | cons hc _ ih =>
        obtain ⟨c₁, hc₁, rfl⟩ := ok_of_map hc
        obtain ⟨cs, hcs, rfl⟩ := ih
        exact ⟨c₁ :: cs, .cons hc₁ hcs, rfl⟩
    have hp' : ({ p with classes := cs } : Program).regroup = p' := by
      obtain ⟨source, imports, classes⟩ := p'
      cases hsource
      cases himports
      cases heq
      rfl
    have hexpand : p.expand t = .ok { p with classes := cs } := by
      unfold Program.expand
      rw [mapM_ok_iff.mpr hcs]
      rfl
    rw [analyseFindings, hbuild, typed_ok_bind, hexpand]
    show (do
      ({ p with classes := cs } : Program).regroup.checkMain
      ({ p with classes := cs } : Program).regroup.checkFields
      ({ p with classes := cs } : Program).regroup.check t
      return ({ p with classes := cs } : Program).regroup) = Except.ok p'
    have hfields' : p'.checkFields = .ok () := forM_ok_iff.mpr hfields
    have hcheck' : p'.check t = .ok () := forM_ok_iff.mpr hcheck
    rw [hp', checkMain_ok_iff.mpr hmain, hfields', hcheck']
    rfl

namespace Program.Analysed

variable {natives : NativeRegistry F} {t : ClassTable F} {p p' q q' : Program}

/-- Analysis of the same classes in another order asks for the same. -/
theorem of_perm (h : p.Analysed natives t p') (himports : q.imports = p.imports)
    (hperm : p.classes.Perm q.classes) (hsource' : q'.source = q.source)
    (himports' : q'.imports = q.imports) (hperm' : p'.classes.Perm q'.classes)
    (hclasses : List.Forall₂ (fun c c' => (ClassDecl.expand t c).map ClassDecl.regroup = .ok c')
      q.classes q'.classes) : ∃ t', q.Analysed natives t' q' := by
  obtain ⟨t', hbuild, hmatch⟩ := ClassTable.build_of_perm himports hperm h.build
  refine ⟨t', hbuild, hsource', himports', ?_, ?_, fun c hc => ?_, fun c hc => ?_⟩
  · refine hclasses.imp fun c c' hc => ?_
    rw [ClassDecl.expand_congr fun _ => TypeExpr.expand_eq_of_matches hmatch]
    exact hc
  · have hmains : p'.mains.Perm q'.mains := hperm'.flatMap_right _
    rw [← hmains.length_eq]
    exact h.main
  · exact h.fields c (hperm'.mem_iff.mpr hc)
  · rw [hmatch.classCheck_eq]
    exact h.check c (hperm'.mem_iff.mpr hc)

/-- The same classes in another order are accepted. -/
theorem exists_of_perm (h : p.Analysed natives t p') (himports : q.imports = p.imports)
    (hperm : p.classes.Perm q.classes) : ∃ t' q', q.Analysed natives t' q' := by
  obtain ⟨classes, hclasses, hperm'⟩ := List.perm_comp_forall₂ hperm.symm h.classes
  let r : Program := { q with classes }
  obtain ⟨t', h'⟩ : ∃ t', q.Analysed natives t' r :=
    h.of_perm himports hperm rfl rfl hperm'.symm hclasses
  exact ⟨t', r, h'⟩

end Program.Analysed

/-! ## Orders given by places -/

/-- The classes of a program in the order of a list of places. -/
def Program.reordered (ns : List Nat) (p : Program) : Program :=
  { p with classes := ns.filterMap fun i => p.classes[i]? }

theorem filterMap_range_getElem? {α : Type} (l : List α) :
    (List.range l.length).filterMap (fun i => l[i]?) = l := by
  induction l with
  | nil => rfl
  | cons a rest ih =>
    rw [List.length_cons, List.range_succ_eq_map, List.filterMap_cons, List.getElem?_cons_zero,
      List.filterMap_map]
    exact congrArg (a :: ·) ih

theorem Program.perm_reordered {p : Program} {ns : List Nat}
    (hns : ns.Perm (List.range p.classes.length)) : p.classes.Perm (p.reordered ns).classes := by
  have h := hns.filterMap fun i => p.classes[i]?
  rw [filterMap_range_getElem?] at h
  exact h.symm

theorem Program.forall₂_reordered {R : ClassDecl → ClassDecl → Prop} {p p' : Program}
    (h : List.Forall₂ R p.classes p'.classes) (ns : List Nat) :
    List.Forall₂ R (p.reordered ns).classes (p'.reordered ns).classes := by
  unfold reordered
  induction ns with
  | nil => exact .nil
  | cons i rest ih =>
    rw [List.filterMap_cons, List.filterMap_cons]
    rcases rel_elim (forall₂_getElem? h i) with ⟨h1, h2⟩ | ⟨c, c', h1, h2, hc⟩
    · rw [h1, h2]
      exact ih
    · rw [h1, h2]
      exact .cons hc ih

/-- An analysed program, its classes reordered, is what analysis gives for the reordered program. -/
theorem Program.analyse_reordered {natives : NativeRegistry F} {p p' : Program} {ns : List Nat}
    (hns : ns.Perm (List.range p.classes.length)) (h : p.analyse natives = .ok p') :
    (p.reordered ns).analyse natives = .ok (p'.reordered ns) := by
  obtain ⟨t, h⟩ := analyse_ok_iff_analysed.mp h
  have hns' : ns.Perm (List.range p'.classes.length) := by
    rw [← h.classes.length_eq]
    exact hns
  exact analyse_ok_iff_analysed.mpr (h.of_perm rfl (perm_reordered hns) h.source h.imports
    (perm_reordered hns') (forall₂_reordered h.classes ns))

theorem Program.analyse_of_reordered {natives : NativeRegistry F} {p q' : Program} {ns : List Nat}
    (hns : ns.Perm (List.range p.classes.length)) (h : (p.reordered ns).analyse natives = .ok q') :
    ∃ p', p.analyse natives = .ok p' := by
  obtain ⟨t, h⟩ := analyse_ok_iff_analysed.mp h
  have himports : p.imports = (p.reordered ns).imports := rfl
  obtain ⟨t', p', h'⟩ := h.exists_of_perm himports (perm_reordered hns).symm
  exact ⟨p', analyse_ok_iff_analysed.mpr ⟨t', h'⟩⟩

/-! ## Runs -/

/-- Where no more than one method can start a program, the order of classes does not matter. -/
theorem Program.entryOf_of_perm {p q : Program} (hperm : p.classes.Perm q.classes)
    (hone : p.entries.length ≤ 1) : Engine.entryOf q = Engine.entryOf p := by
  let starts (c : ClassDecl) : Bool := c.methods.any MethodDecl.isEntry
  have hlength : ∀ cs : List ClassDecl, (cs.filter starts).length ≤
      (cs.flatMap fun c => c.methods.filter MethodDecl.isEntry).length := by
    intro cs
    induction cs with
    | nil => exact Nat.le_refl 0
    | cons c rest ih =>
      rw [List.filter_cons, List.flatMap_cons, List.length_append]
      split
      · next hc =>
        obtain ⟨m, hm, hentry⟩ := List.any_eq_true.mp hc
        have hpos := List.length_pos_of_mem (List.mem_filter.mpr ⟨hm, hentry⟩)
        rw [List.length_cons]
        omega
      · exact Nat.le_trans ih (Nat.le_add_left _ _)
  -- At most one class has a method to start with, and a list that short has only one order.
  have hle : (p.classes.filter starts).length ≤ 1 := Nat.le_trans (hlength p.classes) hone
  have hsame : q.classes.filter starts = p.classes.filter starts := by
    have hfilter := (hperm.filter starts).symm
    match hp : p.classes.filter starts, hle with
    | [], _ => exact List.perm_nil.mp (hp ▸ hfilter)
    | [c], _ => exact List.perm_singleton.mp (hp ▸ hfilter)
  unfold Engine.entryOf
  rw [← List.head?_filter, ← List.head?_filter]
  exact congrArg (fun l => (l.head?).map fun c => c.name.name) hsame

/--
Programs with the same classes, one of which is the start of both: an engine can be made for neither
of them, or their runs look the same.
-/
theorem Engine.reportWithin_of_perm {p q : Program} (hsource : q.source = p.source)
    (himports : q.imports = p.imports) (hperm : p.classes.Perm q.classes)
    (hone : p.entries.length ≤ 1) :
    ((∃ e, Engine.new p NativeRegistry.standard = .error e) ∧
      ∃ e, Engine.new q NativeRegistry.standard = .error e) ∨
    ∃ eng eng', Engine.new p NativeRegistry.standard = .ok eng ∧
      Engine.new q NativeRegistry.standard = .ok eng' ∧ ∀ observed sink n,
        { eng' with observed, sink : Engine StandardFn }.reportWithin n =
          { eng with observed, sink : Engine StandardFn }.reportWithin n := by
  unfold Engine.new
  cases hbuild : ClassTable.build p NativeRegistry.standard with
  | error e =>
    cases hbuild' : ClassTable.build q NativeRegistry.standard with
    | error e' => exact .inl ⟨⟨_, rfl⟩, _, rfl⟩
    | ok t =>
      obtain ⟨t', ht', -⟩ := ClassTable.build_of_perm himports.symm hperm.symm hbuild'
      cases hbuild.symm.trans ht'
  | ok t =>
    obtain ⟨t', hbuild', hmatch⟩ := ClassTable.build_of_perm himports hperm hbuild
    rw [hbuild']
    refine .inr ⟨_, _, rfl, rfl, fun observed sink => ?_⟩
    -- The engines differ in the order of their tables only; each body is the same in both.
    let P : EnginePair StandardFn :=
      { left := ⟨t, p.source, Engine.entryOf p, observed, sink, callBudget⟩
        right := ⟨t', q.source, Engine.entryOf q, observed, sink, callBudget⟩
        bodies := fun _ b b' => b' = b
        tables := hmatch
        source_eq := hsource
        entry_eq := Program.entryOf_of_perm hperm hone
        observed_eq := rfl
        sink_eq := rfl }
    exact EnginePair.reportWithin_eq (EnginePair.standard_respects P)
      (EnginePair.bodiesRun_self rfl) ⟨⟨rfl, rfl⟩, rfl, rfl⟩

/-- An analysed program whose generic parameters have plain names has an engine. -/
theorem Engine.exists_of_analysed {p p' : Program} (hplain : p.PlainGenerics)
    (h : p.analyse NativeRegistry.standard = .ok p') :
    ∃ eng, Engine.new p' NativeRegistry.standard = .ok eng := by
  have hagain := Program.analyseFindings_analysed NativeRegistry.standard_wellNamed hplain
    (Program.analyse_ok_iff.mp h)
  obtain ⟨t, -, hbuild, -⟩ := Program.analyseFindings_ok hagain
  exact ⟨_, by rw [Engine.new, hbuild]⟩

/--
The order of classes does not matter. Whatever their order, the same programs are accepted, and the
analysed classes come in that order. Where there is one method to start with, the two analysed
programs run alike within every budget, whatever is observed and wherever output goes; or neither
can be run, which takes a generic parameter that is named as a primitive type or by a dotted name.
-/
theorem class_order_irrelevant {p : Program} {ns : List Nat}
    (hns : ns.Perm (List.range p.classes.length)) :
    (∀ q', (p.reordered ns).analyse NativeRegistry.standard = .ok q' ↔
      ∃ p', p.analyse NativeRegistry.standard = .ok p' ∧ q' = p'.reordered ns) ∧
    ∀ p', p.analyse NativeRegistry.standard = .ok p' → p.entries.length ≤ 1 →
      (¬ p.PlainGenerics ∧ (∃ e, Engine.new p' NativeRegistry.standard = .error e) ∧
        ∃ e, Engine.new (p'.reordered ns) NativeRegistry.standard = .error e) ∨
      ∃ eng eng', Engine.new p' NativeRegistry.standard = .ok eng ∧
        Engine.new (p'.reordered ns) NativeRegistry.standard = .ok eng' ∧ ∀ observed sink n,
          { eng' with observed, sink : Engine StandardFn }.reportWithin n =
            { eng with observed, sink : Engine StandardFn }.reportWithin n := by
  refine ⟨fun q' => ⟨fun hq => ?_, ?_⟩, fun p' hp hone => ?_⟩
  · obtain ⟨p', hp⟩ := Program.analyse_of_reordered hns hq
    exact ⟨p', hp, Except.ok.inj (hq.symm.trans (Program.analyse_reordered hns hp))⟩
  · rintro ⟨p', hp, rfl⟩
    exact Program.analyse_reordered hns hp
  · obtain ⟨t, hanalysed⟩ := Program.analyse_ok_iff_analysed.mp hp
    have hperm : p'.classes.Perm (p'.reordered ns).classes := by
      refine Program.perm_reordered ?_
      rw [← hanalysed.classes.length_eq]
      exact hns
    have hone' : p'.entries.length ≤ 1 := by
      rw [Program.length_entries_analysed (Program.analyse_ok_iff.mp hp)]
      exact hone
    have hsource : (p'.reordered ns).source = p'.source := rfl
    have himports : (p'.reordered ns).imports = p'.imports := rfl
    refine (Engine.reportWithin_of_perm hsource himports hperm hone').imp_left ?_
    rintro ⟨⟨e, he⟩, he'⟩
    -- With plain names the analysed program would be accepted again, and so have a table.
    refine ⟨fun hplain => ?_, ⟨e, he⟩, he'⟩
    obtain ⟨eng, heng⟩ := Engine.exists_of_analysed hplain hp
    cases he.symm.trans heng

open Build in
/-- The first class uses the others, and the second extends the third. -/
def forwardProgram : Program :=
  program
    [{ name := ident "Main",
       methods := [mainMethod
         [localVariable "Animal" "a" (some (new "Cat" [])),
          expr (println (call (var "a") "sound" []))]] },
     { name := ident "Cat", base := some (ty "Animal"),
       methods := [method "sound" (some "String") [] [returns (some (string "meow"))]] },
     { name := ident "Animal",
       methods := [method "sound" (some "String") [] [returns (some (string "?"))]] }]

theorem class_order_irrelevant_forward : ∃ p' eng',
    forwardProgram.analyse NativeRegistry.standard = .ok p' ∧
    (forwardProgram.reordered [2, 0, 1]).analyse NativeRegistry.standard =
      .ok (p'.reordered [2, 0, 1]) ∧
    Engine.new (p'.reordered [2, 0, 1]) NativeRegistry.standard = .ok eng' ∧
    { eng' with observed := false, sink := {} : Engine StandardFn }.report.outcome = .ok () ∧
    { eng' with observed := false, sink := {} : Engine StandardFn }.report.output = "meow\n" := by
  have hlaunches : forwardProgram.launches (fun _ => false) (fun eng =>
      let r := { eng with observed := false, sink := {} : Engine StandardFn }.report
      r.outcome.toBool && r.output == "meow\n") = true := by
    decide +kernel
  have hone : forwardProgram.entries.length ≤ 1 := by decide +kernel
  have hns : [2, 0, 1].Perm (List.range forwardProgram.classes.length) := by decide
  obtain ⟨p', hp, hnew⟩ := Program.launches_iff.mp hlaunches
  obtain ⟨haccepts, hruns⟩ := class_order_irrelevant hns
  obtain ⟨eng, hnew, hpasses⟩ := hnew.resolve_left (by simp)
  obtain ⟨houtcome, houtput⟩ := Bool.and_eq_true_iff.mp hpasses
  rcases hruns p' hp hone with ⟨-, ⟨e, he⟩, -⟩ | ⟨eng₁, eng', hnew₁, hnew', hreport⟩
  · cases hnew.symm.trans he
  · cases hnew.symm.trans hnew₁
    have hsame : { eng' with observed := false, sink := {} : Engine StandardFn }.report =
        { eng with observed := false, sink := {} : Engine StandardFn }.report := by
      have hbudget : eng'.budget = eng.budget :=
        (Engine.budget_of_new hnew').trans (Engine.budget_of_new hnew).symm
      rw [Engine.report_eq_reportWithin, Engine.report_eq_reportWithin]
      exact (congrArg (Engine.reportWithin _) hbudget).trans (hreport false {} eng.budget)
    refine ⟨p', eng', hp, (haccepts _).mpr ⟨p', hp, rfl⟩, hnew', ?_, ?_⟩
    · rw [hsame]
      revert houtcome
      generalize { eng with observed := false, sink := {} : Engine StandardFn }.report.outcome = o
      cases o with
      | error e => exact fun h => nomatch h
      | ok u => exact fun _ => rfl
    · rw [hsame]
      exact beq_iff_eq.mp houtput

open Build in
/--
Two classes with a parameter that is named as a class of the library. Analysis writes the full name
of that class in the types of the fields, where it now stands for the parameter.
-/
def storeysProgram : Program :=
  let storey (name : String) (line : UInt32) : ClassDecl :=
    { name := ident name, generics := [ident "java.util.List"],
      fields := [{ ty := { name := "List", generics := [ty "Integer"], span := ⟨line, 5⟩ },
                   name := ident "items" }] }
  program
    [storey "Attic" 1, storey "Barn" 2, { name := ident "Main", methods := [mainMethod []] }]
    [importPath "java.util.List"]

/-- Where an engine cannot be made, the order of classes decides which of them is to blame. -/
theorem class_order_blames : ∃ p' q' e e', storeysProgram.entries.length = 1 ∧
    storeysProgram.analyse NativeRegistry.standard = .ok p' ∧
    (storeysProgram.reordered [1, 0, 2]).analyse NativeRegistry.standard = .ok q' ∧
    Engine.new p' NativeRegistry.standard = .error e ∧
    Engine.new q' NativeRegistry.standard = .error e' ∧
    e.location = ⟨"<memory>", ⟨1, 5⟩⟩ ∧ e'.location = ⟨"<memory>", ⟨2, 5⟩⟩ := by
  have hattic : storeysProgram.launches (·.location == ⟨"<memory>", ⟨1, 5⟩⟩) (fun _ => false) =
      true := by
    decide +kernel
  have hbarn : (storeysProgram.reordered [1, 0, 2]).launches (·.location == ⟨"<memory>", ⟨2, 5⟩⟩)
      (fun _ => false) = true := by
    decide +kernel
  obtain ⟨p', hp, hattic⟩ := Program.launches_iff.mp hattic
  obtain ⟨q', hq, hbarn⟩ := Program.launches_iff.mp hbarn
  obtain ⟨e, hnew, hlocation⟩ := hattic.resolve_right (by simp)
  obtain ⟨e', hnew', hlocation'⟩ := hbarn.resolve_right (by simp)
  exact ⟨p', q', e, e', by decide +kernel, hp, hq, hnew, hnew', beq_iff_eq.mp hlocation,
    beq_iff_eq.mp hlocation'⟩

end Middleweight
