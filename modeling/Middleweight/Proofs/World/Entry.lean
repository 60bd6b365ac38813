import Middleweight.Proofs.Analysis.Entry
import Middleweight.Proofs.Analysis.ExpandedRun
import Middleweight.Proofs.World.Activity

/-!
# How runs begin

A run calls `main` on the first class that has a static method of that name without parameters, and
so begins with that method if the class has no other such method. The checker has looked for `main`
with one more condition: it returns nothing. So a run begins with the method that the checker means
unless a class before it, or the same class, has another `main` that returns a value.

* `Engine.Begins` : the member that a run invokes first
* `Engine.begins_iff` : with which method a run begins
* `main_begins_iff` : when that is the main method of the program
-/

namespace Middleweight

open NativeRegistry (standard)

variable {F : Type}

/-- The member that an activity runs. -/
def Activity.member? : Activity F → Option (Member F)
  | .method s _ _ _ | .constructor s _ _ _ _ _ => some s.member
  | _ => none

/--
The method with which a run of a program begins: the only one that can start the program in the
first class that has any.
-/
def Program.startMethod? (p : Program) : Option (ClassDecl × MethodDecl) :=
  match p.classes.find? fun c => c.methods.any MethodDecl.isEntry with
  | none => none
  | some d =>
    match d.methods.filter MethodDecl.isEntry with
    | [m] => some (d, m)
    | _ => none

theorem Program.startMethod?_eq_some_iff {p : Program} {d : ClassDecl} {m : MethodDecl} :
    p.startMethod? = some (d, m) ↔
      p.classes.find? (fun c => c.methods.any MethodDecl.isEntry) = some d ∧
        d.methods.filter MethodDecl.isEntry = [m] := by
  unfold startMethod?
  cases p.classes.find? fun c => c.methods.any MethodDecl.isEntry with
  | none => simp
  | some d₀ =>
    dsimp only
    split
    · next m₀ hone =>
      rw [Option.some.injEq, Prod.mk.injEq, Option.some.injEq]
      constructor
      · rintro ⟨rfl, rfl⟩
        exact ⟨rfl, hone⟩
      · rintro ⟨rfl, hm⟩
        exact ⟨rfl, List.singleton_inj.mp (hone.symm.trans hm)⟩
    · next hnone =>
      constructor
      · rintro ⟨⟩
      · rintro ⟨⟨⟩, hm⟩
        exact absurd hm (hnone m)

theorem Program.mem_of_startMethod? {p : Program} {d : ClassDecl} {m : MethodDecl}
    (h : p.startMethod? = some (d, m)) : d ∈ p.classes ∧ m ∈ d.methods := by
  obtain ⟨hfind, hone⟩ := startMethod?_eq_some_iff.mp h
  have hm : m ∈ d.methods.filter MethodDecl.isEntry := hone ▸ List.mem_singleton_self m
  exact ⟨List.mem_of_find?_eq_some hfind, (List.mem_filter.mp hm).1⟩

theorem Program.isMain_of_mem_mains {p : Program} {m : MethodDecl} (h : m ∈ p.mains) :
    m.isMain = true := by
  obtain ⟨d, -, hm⟩ := List.mem_flatMap.mp h
  exact (List.mem_filter.mp hm).2

/-- A run of an engine invokes a member, and no other before it. -/
def Engine.Begins [HostFunctions F] (eng : Engine F) (member : Member F) : Prop :=
  ∃ M, Relation.ReflTransGen (fun M N => M.activity.member? = none ∧ Leads eng M N)
    ⟨eng.budget, .operation .run, {}⟩ M ∧ M.activity.member? = some member

namespace Engine

theorem begins_of_entry_none [HostFunctions F] {eng : Engine F} (hentry : eng.entry = none)
    {member : Member F} : eng.Begins member ↔ False := by
  refine iff_false_intro ?_
  rintro ⟨M, hreach, hmember⟩
  generalize eng.budget = k at hreach
  rcases hreach.cases_head with rfl | ⟨_, ⟨-, hrun⟩, -⟩
  · cases hmember
  cases hrun with
  | run hentry' => cases hentry.symm.trans hentry'

/-- A run begins with the method that a call of `main` finds in the class where the engine starts. -/
theorem begins_iff_resolveMethod [HostFunctions F] {eng : Engine F} {name full : String}
    {view : RuntimeClass F} {m₁ : Machine F} (hbudget : 0 < eng.budget)
    (hentry : eng.entry = some name)
    (hresolve : eng.table.imports.resolve? name = some full)
    (hview : eng.staticView full {} (eng.pushFrame ⟨"Global", eng.location {}⟩ {}) = .ok view m₁)
    {member : Member F} : eng.Begins member ↔
      ∃ s, eng.table.runtimeMembers.resolveMethod eng.table view "main" true [] = .ok (.found s) ∧
        s.member = member := by
  obtain ⟨n, hn⟩ := Nat.exists_eq_add_one.mpr hbudget
  constructor
  · rintro ⟨M, hreach, hmember⟩
    generalize eng.budget = k at hreach
    -- Until a member is invoked, each moment of a run has only one moment to lead to.
    rcases hreach.cases_head with rfl | ⟨_, ⟨-, hrun⟩, hreach⟩
    · cases hmember
    cases hrun with
    | run hentry' =>
      cases hentry.symm.trans hentry'
      rcases hreach.cases_head with rfl | ⟨_, ⟨-, hcall⟩, hreach⟩
      · cases hmember
      cases hcall with
      | callStatic hresolve' hview' =>
        cases hresolve.symm.trans hresolve'
        cases hview.symm.trans hview'
        rw [hn] at hreach
        rcases hreach.cases_head with rfl | ⟨_, ⟨-, hfound⟩, hreach⟩
        · cases hmember
        cases hfound with
        | call hfound =>
          rcases hreach.cases_head with rfl | ⟨_, ⟨hnone, -⟩, -⟩
          · exact ⟨_, hfound, Option.some.inj hmember⟩
          · cases hnone
  · rintro ⟨s, hfound, rfl⟩
    have hcall : Leads eng ⟨eng.budget, .call view .null "main" true [] [] {}, m₁⟩
        ⟨n, .method s .null [] {}, m₁⟩ := by
      rw [hn]
      exact .call hfound
    exact ⟨_, .head ⟨rfl, .run hentry⟩ (.head ⟨rfl, .callStatic hresolve hview⟩
      (.single ⟨rfl, hcall⟩)), rfl⟩

/-- A run of a checked program begins with its start method, if there is one. -/
theorem begins_iff {p : Program} {eng : Engine StandardFn} (hbudget : 0 < eng.budget)
    (hbuild : ClassTable.build p standard = .ok eng.table) (hcheck : p.check eng.table = .ok ())
    (hentry : eng.entry = entryOf p) {member : Member StandardFn} : eng.Begins member ↔
      ∃ d m, p.startMethod? = some (d, m) ∧ member = .ofMethod d.name.name m := by
  simp only [Program.startMethod?_eq_some_iff]
  cases hfind : p.classes.find? fun c => c.methods.any MethodDecl.isEntry with
  | none =>
    have hentry : eng.entry = none := hentry.trans (congrArg (Option.map _) hfind)
    rw [begins_of_entry_none hentry]
    simp
  | some d =>
    have hd := List.mem_of_find?_eq_some hfind
    have hany := List.find?_some (p := fun c : ClassDecl => c.methods.any MethodDecl.isEntry) hfind
    have hentry : eng.entry = some d.name.name := hentry.trans (congrArg (Option.map _) hfind)
    obtain ⟨cls, hmade, hcls⟩ := ClassTable.get?_declared hbuild hd
    obtain ⟨base, fields, -, -, heq⟩ := ClassTable.declaredTemplate_ok hmade
    have hresolve := ImportTable.resolve?_declared (ClassTable.imports_of_build hbuild) hd
    obtain ⟨n, hn⟩ := ClassTable.climbs_of_build hbuild hcls
    obtain ⟨view, hview⟩ := hn.exists_views
    have hown : view.own.template = cls := by
      cases hview with
      | root hget _ => exact Option.some.inj (hget.symm.trans hcls)
      | derived hget _ _ => exact Option.some.inj (hget.symm.trans hcls)
    have hfresh : Machine.Valid eng.table True [] {} := .fresh
    obtain ⟨r, -, hstatic⟩ :=
      staticView_eq (hfresh.pushFrame eng ⟨"Global", eng.location {}⟩).remembers d.name.name {}
    rw [hview.viewFor_eq] at hstatic
    rw [begins_iff_resolveMethod hbudget hentry hresolve hstatic]
    obtain ⟨cls', -, -, -, hchecks⟩ := ClassDecl.check_ok (forM_ok_iff.mp hcheck d hd)
    obtain ⟨cs, hcs, happ⟩ := ClassTable.applicables_main d.name.name view.params hchecks
    have hmethods : eng.table.runtimeMembers.methods view "main" true = .ok cs := by
      show eng.table.signatures view.params (view.own.template.methodsNamed "main" true) = .ok cs
      rw [hown, heq]
      exact hcs
    rw [MemberSource.resolveMethod_main_iff (Nat.succ_pos _) hmethods happ hany]
    constructor
    · rintro ⟨m, hone, rfl⟩
      exact ⟨d, m, ⟨rfl, hone⟩, rfl⟩
    · rintro ⟨_, m, ⟨⟨⟩, hone⟩, rfl⟩
      exact ⟨m, hone, rfl⟩

end Engine

/-- An analysed program has an engine, and its runs begin with the start method of the program. -/
theorem Program.begins_of_analysed {p p' : Program} (hplain : p.PlainGenerics)
    (h : p.analyse standard = .ok p') :
    ∃ eng, Engine.new p' standard = .ok eng ∧ ∀ observed sink member,
      ({ eng with observed, sink } : Engine StandardFn).Begins member ↔
        ∃ d m, p'.startMethod? = some (d, m) ∧ member = .ofMethod d.name.name m := by
  have hagain := Program.analyseFindings_analysed NativeRegistry.standard_wellNamed hplain
    (Program.analyse_ok_iff.mp h)
  obtain ⟨t, -, hbuild, -, -, -, -, hcheck⟩ := Program.analyseFindings_ok hagain
  refine ⟨{ table := t, source := p'.source, entry := Engine.entryOf p' }, by rw [Engine.new, hbuild],
    fun observed sink member => ?_⟩
  let eng : Engine StandardFn := ⟨t, p'.source, Engine.entryOf p', observed, sink, callBudget⟩
  have hbuild : ClassTable.build p' standard = .ok eng.table := hbuild
  exact Engine.begins_iff (Nat.succ_pos _) hbuild hcheck rfl

/-- Only one class of an analysed program can declare a method that begins a run. -/
theorem Program.eq_of_ofMethod {p : Program} {eng : Engine StandardFn}
    (hnew : Engine.new p standard = .ok eng) {d d' : ClassDecl} (hd : d ∈ p.classes)
    (hd' : d' ∈ p.classes) {m m' : MethodDecl}
    (h : Member.ofMethod (F := StandardFn) d.name.name m = .ofMethod d'.name.name m') : d = d' := by
  have hbuild : ClassTable.build p standard = .ok eng.table :=
    Engine.Serves.build ⟨eng, hnew, rfl⟩
  exact List.inj_on_of_nodup_map (ClassTable.nodup_declared hbuild) hd hd'
    (congrArg Member.owner h)

/--
A run of a program that analysis accepts begins with the main method of the program exactly when
that is its start method: no class before the one of the main method has a static method `main`
without parameters, whatever such a method returns, and that class has no other. The generic
parameters of the program have plain names, none that a primitive has or with a dot in it: others
could capture the full names that analysis writes, and the class table of the analysed program would
not be that of the program as written.
-/
theorem main_begins_iff {p p' : Program} (hplain : p.PlainGenerics)
    (h : p.analyse standard = .ok p') :
    ∃ eng m, Engine.new p' standard = .ok eng ∧ p'.mains = [m] ∧ ∀ observed sink,
      (∃ d ∈ p'.classes, m ∈ d.methods ∧
        ({ eng with observed, sink } : Engine StandardFn).Begins (.ofMethod d.name.name m)) ↔
      ∃ d, p'.startMethod? = some (d, m) := by
  obtain ⟨eng, hnew, hbegins⟩ := Program.begins_of_analysed hplain h
  obtain ⟨-, -, -, -, -, hmain, -, -⟩ := Program.analyseFindings_ok (Program.analyse_ok_iff.mp h)
  obtain ⟨m, hmains⟩ := List.length_eq_one_iff.mp (Program.checkMain_ok_iff.mp hmain)
  have hismain := Program.isMain_of_mem_mains (hmains ▸ List.mem_singleton_self m)
  refine ⟨eng, m, hnew, hmains, fun observed sink => ?_⟩
  simp only [hbegins]
  constructor
  · rintro ⟨d, hd, hm, d₀, m₀, hstart, hmember⟩
    obtain ⟨hd₀, hm₀⟩ := Program.mem_of_startMethod? hstart
    obtain rfl := Program.eq_of_ofMethod hnew hd hd₀ hmember
    obtain ⟨-, hone⟩ := Program.startMethod?_eq_some_iff.mp hstart
    have hmem := List.mem_filter.mpr ⟨hm, (Bool.and_eq_true_iff.mp hismain).1⟩
    rw [hone] at hmem
    exact ⟨d, List.mem_singleton.mp hmem ▸ hstart⟩
  · rintro ⟨d, hstart⟩
    obtain ⟨hd, hm⟩ := Program.mem_of_startMethod? hstart
    exact ⟨d, hd, hm, d, m, hstart, rfl⟩

open Build in
/-- A class with a `main` that has a parameter, and after it the class with the main method. -/
def echoProgram : Program :=
  program
    [{ name := ident "Echo",
       methods := [staticMethod "main" (some "String") [param "String" "s"]
         [returns (some (var "s"))]] },
     { name := ident "Main",
       methods := [mainMethod [expr (println (call (var "Echo") "main" [string "Hello"]))]] }]

theorem main_begins_iff_echo : ∃ (p' : Program) (eng : Engine StandardFn) (m : MethodDecl),
    echoProgram.PlainGenerics ∧ echoProgram.analyse standard = .ok p' ∧
    Engine.new p' standard = .ok eng ∧ p'.mains = [m] ∧
    ∃ d ∈ p'.classes, m ∈ d.methods ∧ eng.Begins (.ofMethod d.name.name m) := by
  have hplain : echoProgram.PlainGenerics := by decide +kernel
  have hstarts : echoProgram.accepts (fun p' => p'.startMethod?.any fun s => s.2.isMain) = true := by
    decide +kernel
  obtain ⟨p', hanalyse, hstarts⟩ := Program.accepts_iff.mp hstarts
  obtain ⟨eng, m, hnew, hmains, hbegins⟩ := main_begins_iff hplain hanalyse
  obtain ⟨⟨d, m₀⟩, hstart, hismain⟩ := (Option.any_eq_true _ _).mp hstarts
  obtain ⟨hd, hm⟩ := Program.mem_of_startMethod? hstart
  have hmem : m₀ ∈ p'.mains := List.mem_flatMap.mpr ⟨d, hd, List.mem_filter.mpr ⟨hm, hismain⟩⟩
  rw [hmains] at hmem
  obtain rfl := List.mem_singleton.mp hmem
  exact ⟨p', eng, m₀, hplain, hanalyse, hnew, hmains,
    (hbegins eng.observed eng.sink).mpr ⟨d, hstart⟩⟩

open Build in
/-- A class whose `main` returns a number, and after it the class with the main method. -/
def probeProgram : Program :=
  program
    [{ name := ident "Probe",
       methods := [staticMethod "main" (some "int") []
         [expr (println (string "Probe")), returns (some (int 1))]] },
     { name := ident "Main", methods := [mainMethod [expr (println (string "Main"))]] }]

/-- A run may begin with a `main` that the checker does not take for the main method. -/
theorem probe_begins : ∃ (p' : Program) (eng : Engine StandardFn) (m n : MethodDecl),
    probeProgram.analyse standard = .ok p' ∧ Engine.new p' standard = .ok eng ∧ p'.mains = [m] ∧
    n.returnType.isSome = true ∧ eng.Begins (.ofMethod "Probe" n) ∧
    ¬ ∃ d ∈ p'.classes, m ∈ d.methods ∧ eng.Begins (.ofMethod d.name.name m) := by
  have hplain : probeProgram.PlainGenerics := by decide +kernel
  have hstarts : probeProgram.accepts (fun p' => p'.startMethod?.any fun s =>
      s.1.name.name == "Probe" && s.2.returnType.isSome) = true := by
    decide +kernel
  obtain ⟨p', hanalyse, hstarts⟩ := Program.accepts_iff.mp hstarts
  obtain ⟨eng, hnew, hbegins⟩ := Program.begins_of_analysed hplain hanalyse
  obtain ⟨-, -, -, -, -, hmain, -, -⟩ :=
    Program.analyseFindings_ok (Program.analyse_ok_iff.mp hanalyse)
  obtain ⟨m, hmains⟩ := List.length_eq_one_iff.mp (Program.checkMain_ok_iff.mp hmain)
  obtain ⟨⟨d, n⟩, hstart, htest⟩ := (Option.any_eq_true _ _).mp hstarts
  obtain ⟨hname, hreturns⟩ := Bool.and_eq_true_iff.mp htest
  have hname : d.name.name = "Probe" := eq_of_beq hname
  have hbegins := hbegins eng.observed eng.sink
  refine ⟨p', eng, m, n, hanalyse, hnew, hmains, hreturns,
    (hbegins _).mpr ⟨d, n, hstart, by rw [hname]⟩, ?_⟩
  rintro ⟨d', -, -, hother⟩
  obtain ⟨d₀, n₀, hstart₀, hmember⟩ := (hbegins _).mp hother
  cases hstart.symm.trans hstart₀
  -- The main method returns nothing, and the method with which the run begins does.
  have hvoid := Program.isMain_of_mem_mains (hmains ▸ List.mem_singleton_self m)
  have hnone : m.returnType = none :=
    Option.isNone_iff_eq_none.mp (Bool.and_eq_true_iff.mp hvoid).2
  have hsame : m.returnType = n.returnType := congrArg Member.returnType hmember
  rw [← hsame, hnone] at hreturns
  cases hreturns

end Middleweight
