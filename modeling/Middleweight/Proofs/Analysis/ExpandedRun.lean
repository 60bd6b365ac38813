import Middleweight.Analysis.Basic
import Middleweight.Proofs.Analysis.Expansion
import Middleweight.Proofs.Engine.RunAgreement
import Middleweight.Syntax.Build

/-!
# Expanded programs run as written ones

A written type means a class through the parameters in scope, the imports and the arguments it is
given. Expansion changes the name only, to the full name of the class that the imports give; so the
expanded type means the same class in the table of the expanded program, and the two programs are
run by engines over matching tables.

* `EnginePair.sameMeaning_expand` : a type and its expansion mean matching classes
* `run_expand` : the runs of a program and of its expansion look the same
-/

namespace Middleweight

variable {F : Type}

/-! ## The meaning of expanded types -/

namespace EnginePair

variable {P : EnginePair F} {g : List String}

/-- Names that stand for one class give matching classes with the same arguments. -/
theorem classNamed_alike {name name' : String}
    (h : P.left.table.imports.resolve? name' = P.left.table.imports.resolve? name)
    (hknown : (P.left.table.imports.resolve? name).isSome ∨ name' = name) (args : List Ty)
    (span : Span) :
    Alike P.Classes (P.left.table.classNamed name args span)
      (P.right.table.classNamed name' args span) := by
  unfold ClassTable.classNamed
  rw [P.tables.resolve?_eq, h]
  cases hfull : P.left.table.imports.resolve? name with
  | some full => exact P.tables.classFor_alike _ span
  | none =>
    rcases hknown with hknown | rfl
    · simp [hfull] at hknown
    · exact .error _

/-- A name without arguments means matching classes, a parameter in scope or not. -/
theorem bareMeaning_alike (params : TypeParams) (name : String) (span : Span) :
    Alike P.Classes (P.left.table.meaning params ⟨name, [], span⟩)
      (P.right.table.meaning params ⟨name, [], span⟩) := by
  rw [ClassTable.meaning, ClassTable.meaning, ClassTable.meanings, ClassTable.meanings]
  cases params.get? name with
  | some ty => exact P.tables.classFor_alike ty span
  | none => exact classNamed_alike rfl (.inr rfl) [] span

mutual

/-- A type and its expansion mean matching classes. -/
theorem sameMeaning_expand (ht : P.left.table.Resolves) (hg : ∀ n ∈ g, IsPlain n) :
    ∀ {e e' : TypeExpr}, e.expand P.left.table g = .ok e' → P.SameMeaning g e e'
  | ⟨name, generics, span⟩, e', h => by
    intro params hp
    rcases TypeExpr.expand_ok h with ⟨-, hnil, rfl⟩ | ⟨hn, full, args, hf, -, hargs, rfl⟩
    · change generics = [] at hnil
      subst hnil
      exact bareMeaning_alike params name span
    · have hnone := TypeExpr.get?_of_notMem hp hn
      have hnone' := TypeExpr.get?_of_notMem hp (TypeExpr.notMem_full ht hg hn hf)
      have hmeanings := meanings_expandAll ht hg hargs hp
      dsimp only at hnone hf hmeanings ⊢
      rw [ClassTable.meaning_of_get?_none hnone, ClassTable.meaning_of_get?_none hnone', hmeanings]
      cases P.left.table.meanings params generics with
      | error e => exact .error e
      | ok tys => exact classNamed_alike ((ht.twice hf).trans hf.symm) (.inl (by rw [hf]; rfl)) tys span

theorem meanings_expandAll (ht : P.left.table.Resolves) (hg : ∀ n ∈ g, IsPlain n) :
    ∀ {es es' : List TypeExpr}, TypeExpr.expandAll P.left.table g es = .ok es' →
    ∀ {params : TypeParams}, params.Within g →
    P.right.table.meanings params es' = P.left.table.meanings params es
  | [], es', h, params, _ => by
    rw [TypeExpr.expandAll] at h
    cases h
    rw [ClassTable.meanings, ClassTable.meanings]
  | e :: rest, es', h, params, hp => by
    rw [TypeExpr.expandAll] at h
    split at h
    · cases h
    · next e₁ he =>
      split at h
      · cases h
      · next rest₁ hrest =>
        cases h
        rw [ClassTable.meanings, ClassTable.meanings, meanings_expandAll ht hg hrest hp]
        rcases (sameMeaning_expand ht hg he params hp).elim with
          ⟨err, h1, h2⟩ | ⟨c, c', h1, h2, hc⟩
        · rw [h1, h2]
        · rw [h1, h2]
          simp only [hc.asTy_eq]

end

mutual

/-- Over matching tables a written type means matching classes. -/
theorem sameMeaning_self : ∀ (e : TypeExpr) (g : List String), P.SameMeaning g e e
  | ⟨name, generics, span⟩, _ => by
    intro params _
    have hnamed (tys : List Ty) : Alike P.Classes (P.left.table.classNamed name tys span)
        (P.right.table.classNamed name tys span) := classNamed_alike rfl (.inr rfl) tys span
    rw [ClassTable.meaning, ClassTable.meaning, meanings_self generics params]
    cases generics.isEmpty with
    | false =>
      cases P.left.table.meanings params generics with
      | error e => exact .error e
      | ok tys => exact hnamed tys
    | true =>
      cases params.get? name with
      | some ty => exact P.tables.classFor_alike ty span
      | none =>
        cases P.left.table.meanings params generics with
        | error e => exact .error e
        | ok tys => exact hnamed tys

theorem meanings_self : ∀ (es : List TypeExpr) (params : TypeParams),
    P.right.table.meanings params es = P.left.table.meanings params es
  | [], _ => by rw [ClassTable.meanings, ClassTable.meanings]
  | e :: rest, params => by
    have hmeaning := sameMeaning_self e (params.map Prod.fst)
    have hwithin : params.Within (params.map Prod.fst) :=
      TypeParams.within_iff.mpr fun _ he => List.mem_map_of_mem he
    rw [ClassTable.meanings, ClassTable.meanings, meanings_self rest params]
    rcases (hmeaning params hwithin).elim with ⟨err, h1, h2⟩ | ⟨c, c', h1, h2, hc⟩
    · rw [h1, h2]
    · rw [h1, h2]
      simp only [hc.asTy_eq]

end

/-- The same body runs alike on both sides. -/
theorem bodiesRun_self (hbodies : P.bodies = fun _ b b' => b' = b) : P.BodiesRun := by
  intro g b b' h
  rw [hbodies] at h
  cases h
  have hmeaning : ∀ e, P.SameMeaning g e e := fun e => sameMeaning_self e g
  cases b with
  | native f => exact .native f
  | declared body super =>
    refine .declared (Stmt.allRetyped_refl hmeaning body) ?_
    cases super with
    | none => exact .none
    | some es => exact .some (Expr.allRetyped_refl hmeaning es)

/-- Bodies and their expansions run alike. -/
theorem bodiesRun_of_expandedTo (ht : P.left.table.Resolves)
    (hbodies : P.bodies = ExpandedTo P.left.table id id) : P.BodiesRun := by
  intro g b b' h
  rw [hbodies] at h
  cases b with
  | native f =>
    cases b' with
    | native f' =>
      cases h
      exact .native f
    | declared b' s' => cases h
  | declared b s =>
    cases b' with
    | native f' => cases h
    | declared b' s' =>
      obtain ⟨hg, ⟨b₁, hb, rfl⟩, s₁, hs, rfl⟩ := h
      have hmeaning : ∀ a c, TypeExpr.expand P.left.table g a = .ok c → P.SameMeaning g a c :=
        fun _ _ => sameMeaning_expand ht hg
      exact .declared (Stmt.allRetyped_of_expandAll hmeaning hb)
        (Expr.retyped_of_expandSuper hmeaning hs)

end EnginePair

/-! ## What can be seen of a run -/

/-- What can be seen of a run that has ended. -/
structure RunReport (F : Type) where
  /-- Success, or why and where it stopped. -/
  outcome : Except (Stop F) Unit
  output : String
  /-- What an observer was told, the latest first. -/
  events : List Event

namespace Engine

variable [HostFunctions F]

/-- Runs the main method from the start. -/
def report (eng : Engine F) : RunReport F :=
  match eng.run {} with
  | .ok _ m => ⟨.ok (), m.output, m.events⟩
  | .error e m => ⟨.error e.reported, m.output, m.events⟩

/-- Runs the main method from the start, within a budget of calls. -/
def reportWithin (eng : Engine F) (n : Nat) : RunReport F :=
  match eng.runWithin n {} with
  | .ok _ m => ⟨.ok (), m.output, m.events⟩
  | .error e m => ⟨.error e.reported, m.output, m.events⟩

theorem report_eq_reportWithin (eng : Engine F) : eng.report = eng.reportWithin eng.budget := by
  unfold report reportWithin
  rw [run_eq_runWithin]

end Engine

/--
Whether a program is accepted, and then either making an engine of the analysed program fails in one
way, or the engine that is made passes a test.
-/
def Program.launches (p : Program) (fails : RuntimeError StandardFn → Bool)
    (passes : Engine StandardFn → Bool) : Bool :=
  match p.analyse NativeRegistry.standard with
  | .error _ => false
  | .ok p' =>
    match Engine.new p' NativeRegistry.standard with
    | .error e => fails e
    | .ok eng => passes eng

theorem Program.launches_iff {p : Program} {fails : RuntimeError StandardFn → Bool}
    {passes : Engine StandardFn → Bool} : p.launches fails passes = true ↔
      ∃ p', p.analyse NativeRegistry.standard = .ok p' ∧
        ((∃ e, Engine.new p' NativeRegistry.standard = .error e ∧ fails e = true) ∨
          ∃ eng, Engine.new p' NativeRegistry.standard = .ok eng ∧ passes eng = true) := by
  unfold launches
  cases p.analyse NativeRegistry.standard with
  | error e => simp
  | ok p' =>
    dsimp only
    cases hnew : Engine.new p' NativeRegistry.standard with
    | error e => simp [hnew]
    | ok eng => simp [hnew]

/-- An accepted program whose engine passes a test. -/
theorem Program.passes_of_launches {p : Program} {passes : Engine StandardFn → Bool}
    (h : p.launches (fun _ => false) passes = true) : ∃ p' eng,
      p.analyse NativeRegistry.standard = .ok p' ∧
        Engine.new p' NativeRegistry.standard = .ok eng ∧ passes eng = true := by
  obtain ⟨p', hanalyse, ⟨_, -, hfails⟩ | ⟨eng, hnew, hpasses⟩⟩ := launches_iff.mp h
  · cases hfails
  · exact ⟨p', eng, hanalyse, hnew, hpasses⟩

/-- Two engines that start afresh with one budget report the same. -/
theorem EnginePair.reportWithin_eq [HostFunctions F] {P : EnginePair F} (hhost : P.HostRespects)
    (hbodies : P.BodiesRun)
    (hplain : (P.start = {} ∧ P.start' = {}) ∧ P.early = .neither ∧ P.spare = none) (n : Nat) :
    P.right.reportWithin n = P.left.reportWithin n := by
  obtain ⟨⟨hleft, hright⟩, hearly, hspare⟩ := hplain
  have hstart : P.Machines .empty [] {} {} :=
    ⟨.empty, .empty, False.elim, fun _ => .unread, rfl,
      ⟨"", by rw [hleft]; rfl, by rw [hright]; rfl⟩, ⟨[], by rw [hleft]; rfl, by rw [hright]; rfl⟩,
      ⟨.global, .cons ⟨.nil, rfl, .empty, .empty⟩ .nil⟩, TypeParams.Within.nil⟩
  have hbudgets : P.Budgets n n := by rw [Budgets, hearly]
  have h := agree_runWithin hhost hbodies (sparesMade_of_none hspare) hbudgets {} {} hstart
  have hends : ∀ {V g} {m m' : Machine F}, P.Machines V g m m' →
      m'.output = m.output ∧ m'.events = m.events := by
    intro V g m m' hm
    obtain ⟨text, ho, ho'⟩ := hm.output
    obtain ⟨told, he, he'⟩ := hm.events
    rw [ho, ho', he, he', hleft, hright]
    exact ⟨rfl, rfl⟩
  unfold Engine.reportWithin
  generalize P.left.runWithin _ {} = r, P.right.runWithin _ {} = r' at h
  cases h with
  | ok hV hab hm => simp only [hends hm]
  | error hV he hm => simp only [he, hends hm]
  | left h => simp [hearly] at h
  | right h => simp [hearly] at h

/-! ## Expansion keeps runs -/

theorem ClassDecl.any_isEntry_expand {t : ClassTable F} {d d' : ClassDecl}
    (h : d.expand t = .ok d') :
    d'.name = d.name ∧ d'.methods.any MethodDecl.isEntry = d.methods.any MethodDecl.isEntry := by
  obtain ⟨base, fields, constructors, methods, -, -, -, hm, rfl⟩ := ClassDecl.expand_ok h
  refine ⟨rfl, ?_⟩
  clear h
  dsimp only
  generalize d.methods = ms at hm
  induction hm with
  | nil => rfl
  | cons hk _ ih => rw [List.any_cons, List.any_cons, ih, MethodDecl.isEntry_expand hk]

/-- Expansion keeps the class that a program starts with. -/
theorem Program.entryOf_expand {t : ClassTable F} {p p' : Program} (h : p.expand t = .ok p') :
    Engine.entryOf p' = Engine.entryOf p := by
  obtain ⟨classes, hc, rfl⟩ := Program.expand_ok h
  clear h
  unfold Engine.entryOf
  dsimp only
  generalize p.classes = ds at hc
  induction hc with
  | nil => rfl
  | @cons d d' rest rest' hd _ ih =>
    obtain ⟨hname, hany⟩ := ClassDecl.any_isEntry_expand hd
    rw [List.find?_cons, List.find?_cons, hany]
    cases d.methods.any MethodDecl.isEntry with
    | true => exact congrArg (fun n : Identifier => some n.name) hname
    | false => exact ih

theorem ClassDecl.mapBodies_id (c : ClassDecl) : c.mapBodies id id = c := by
  simp [mapBodies]

/--
A program and its expansion run alike: both have engines, and whatever is observed, wherever output
goes and whatever the budget is, the two runs end in the same way, write the same and tell an
observer the same. Reports say nothing of the syntax of programs: an observer learns of a statement
its place and its depth, and a message about the target of `++` or `--` does not show that target, in
which types stand as they are written, so as short names before expansion and as full names after it.
-/
theorem run_expand {p p' : Program} {t : ClassTable StandardFn} (hplain : p.PlainGenerics)
    (hbuild : ClassTable.build p NativeRegistry.standard = .ok t) (hexpand : p.expand t = .ok p') :
    ∃ eng eng', Engine.new p NativeRegistry.standard = .ok eng ∧
      Engine.new p' NativeRegistry.standard = .ok eng' ∧
      ∀ observed sink budget,
        { eng' with observed, sink, budget : Engine StandardFn }.report =
          { eng with observed, sink, budget : Engine StandardFn }.report := by
  have ht := ClassTable.resolves_of_build hbuild NativeRegistry.standard_wellNamed
  have hsuper : (id none : Option (List Expr)) = none := rfl
  obtain ⟨t', hbuild', hmatch⟩ := ClassTable.build_expanded hbuild ht hplain id hsuper hexpand
  have hsame : p'.classes.map (ClassDecl.mapBodies id id) = p'.classes := by
    rw [show ClassDecl.mapBodies id id = id from funext ClassDecl.mapBodies_id, List.map_id]
  rw [hsame] at hbuild'
  have hsource : p'.source = p.source := by
    obtain ⟨classes, -, rfl⟩ := Program.expand_ok hexpand
    rfl
  refine ⟨_, _, by rw [Engine.new, hbuild], by rw [Engine.new, hbuild'],
    fun observed sink budget => ?_⟩
  let P : EnginePair StandardFn :=
    { left := ⟨t, p.source, Engine.entryOf p, observed, sink, budget⟩
      right := ⟨t', p'.source, Engine.entryOf p', observed, sink, budget⟩
      bodies := ExpandedTo t id id
      tables := hmatch
      source_eq := hsource
      entry_eq := Program.entryOf_expand hexpand
      observed_eq := rfl
      sink_eq := rfl }
  have hbodies : P.BodiesRun := EnginePair.bodiesRun_of_expandedTo ht rfl
  rw [Engine.report_eq_reportWithin, Engine.report_eq_reportWithin]
  exact EnginePair.reportWithin_eq (EnginePair.standard_respects P) hbodies
    ⟨⟨rfl, rfl⟩, rfl, rfl⟩ budget

open Build in
/--
Short names in every kind of place: a parameter that has the name of a class, an imported generic
class, a cast and a test; and a local list, so that the same name is looked up more than once.
-/
def shelfProgram : Program :=
  program
    [{ name := ident "Shelf", generics := [ident "Integer"], fields := [field "List<Integer>" "items"],
       constructors := [constructor [] [assign "items" (new "List<Integer>" [])]],
       methods := [method "add" none [param "Integer" "x"]
         [localVariable "List<Integer>" "all" (some (cast "List<Integer>" (var "items"))),
          expr (call (var "all") "add" [cast "Integer" (var "x")])]] },
     { name := ident "Main",
       methods := [mainMethod
         [localVariable "Shelf<String>" "s" (some (new "Shelf<String>" [])),
          expr (call (var "s") "add" [string "a"]),
          ifElse (instanceOf (var "s") "Shelf<String>") [expr (println (string "kept"))] none]] }]
    [importPath "java.util.*"]

theorem run_expand_shelf : ∃ t p' eng eng', shelfProgram.PlainGenerics ∧
    ClassTable.build shelfProgram NativeRegistry.standard = .ok t ∧
    shelfProgram.expand t = .ok p' ∧
    Engine.new shelfProgram NativeRegistry.standard = .ok eng ∧
    Engine.new p' NativeRegistry.standard = .ok eng' ∧
    { eng' with observed := true, sink := {}, budget := callBudget : Engine StandardFn }.report =
      { eng with observed := true, sink := {}, budget := callBudget : Engine StandardFn }.report := by
  have hplain : shelfProgram.PlainGenerics := by decide +kernel
  have h : (match ClassTable.build shelfProgram NativeRegistry.standard with
      | .ok t => (shelfProgram.expand t).toBool
      | .error _ => false) = true := by decide +kernel
  cases ht : ClassTable.build shelfProgram NativeRegistry.standard with
  | error e => simp [ht] at h
  | ok t =>
    cases hp : shelfProgram.expand t with
    | error e => simp [ht, hp, Except.toBool] at h
    | ok p' =>
      obtain ⟨eng, eng', hnew, hnew', hreport⟩ := run_expand hplain ht hp
      exact ⟨t, p', eng, eng', hplain, rfl, hp, hnew, hnew', hreport true {} callBudget⟩

end Middleweight
