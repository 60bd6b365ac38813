import Middleweight.Proofs.Syntax.Monomorphic

/-!
# Ordinary names

The names of a program are ordinary when none of its classes, parameters and locals is named `this`,
and no loop declares a local where it goes on, after its body. Analysis leaves these names as they
are.

* `Stmt.plainUpdatesIn` : no loop declares a local where it goes on
* `Program.HasOrdinaryNames` : programs with ordinary names
* `Program.HasOrdinaryNames.analysed` : analysis keeps them
-/

namespace Middleweight

variable {F : Type}

theorem Stmt.ordinaryLocals_thenBranch {test : Expr} {body : List Stmt}
    {other : Option (List Stmt)} {span : Span} (h : (ifElse test body other span).OrdinaryLocals) :
    OrdinaryLocalsIn body := by
  cases other with
  | none =>
    rw [OrdinaryLocals] at h
    exact h
  | some elseBranch =>
    rw [OrdinaryLocals] at h
    exact h.1

/-! ## Updates of loops -/

namespace Stmt

mutual

/-- No update of a `for` loop in a statement, at any depth, declares a local. -/
def plainUpdates : Stmt → Bool
  | ifElse _ thenBranch none _ => plainUpdatesIn thenBranch
  | ifElse _ thenBranch (some elseBranch) _ =>
    plainUpdatesIn thenBranch && plainUpdatesIn elseBranch
  | whileLoop _ body _ | block body _ => plainUpdatesIn body
  | forLoop init _ update body _ =>
    init.plainUpdates && !update.isLocal && update.plainUpdates && plainUpdatesIn body
  | localVariable _ _ _ _ | assign _ _ _ _ | fieldAssign _ _ _ _ _ | expression _ _
  | returns _ _ => true

/-- No update in any of the statements does. -/
def plainUpdatesIn : List Stmt → Bool
  | [] => true
  | s :: rest => s.plainUpdates && plainUpdatesIn rest

end

mutual

/-- Statements with ordinary locals declare none where a loop goes on. -/
theorem OrdinaryLocals.plainUpdates : ∀ {s : Stmt}, s.OrdinaryLocals → s.plainUpdates = true
  | ifElse _ thenBranch none _, h => by
    rw [OrdinaryLocals] at h
    rw [Stmt.plainUpdates]
    exact h.plainUpdatesIn
  | ifElse _ thenBranch (some elseBranch) _, h => by
    rw [OrdinaryLocals] at h
    rw [Stmt.plainUpdates, h.1.plainUpdatesIn, h.2.plainUpdatesIn]
    rfl
  | whileLoop _ body _, h => by
    rw [OrdinaryLocals] at h
    rw [Stmt.plainUpdates]
    exact h.plainUpdatesIn
  | block body _, h => by
    rw [OrdinaryLocals] at h
    rw [Stmt.plainUpdates]
    exact h.plainUpdatesIn
  | forLoop init _ update body _, h => by
    rw [OrdinaryLocals] at h
    obtain ⟨hinit, hlocal, hupdate, hbody⟩ := h
    rw [Stmt.plainUpdates, hinit.plainUpdates, hlocal, hupdate.plainUpdates, hbody.plainUpdatesIn]
    rfl
  | localVariable _ _ _ _, _ | assign _ _ _ _, _ | fieldAssign _ _ _ _ _, _
  | expression _ _, _ | returns _ _, _ => by rw [Stmt.plainUpdates]

theorem OrdinaryLocalsIn.plainUpdatesIn : ∀ {ss : List Stmt}, OrdinaryLocalsIn ss →
    plainUpdatesIn ss = true
  | [], _ => by rw [Stmt.plainUpdatesIn]
  | s :: rest, h => by
    rw [OrdinaryLocalsIn] at h
    rw [Stmt.plainUpdatesIn, h.1.plainUpdates, h.2.plainUpdatesIn]
    rfl

end

end Stmt

/-! ## Programs -/

/-- Ordinary parameters and locals of a member. -/
structure OrdinaryBody (parameters : List Parameter) (body : List Stmt) : Prop where
  parameters : ∀ q ∈ parameters, q.name.name ≠ "this"
  locals : Stmt.OrdinaryLocalsIn body

/-- A program of classes with ordinary names and ordinary members. -/
structure Program.HasOrdinaryNames (p : Program) : Prop where
  classes : ∀ c ∈ p.classes, c.name.name ≠ "this"
  constructors : ∀ c ∈ p.classes, ∀ k ∈ c.constructors, OrdinaryBody k.parameters k.body
  methods : ∀ c ∈ p.classes, ∀ m ∈ c.methods, OrdinaryBody m.parameters m.body

instance (parameters : List Parameter) (body : List Stmt) :
    Decidable (OrdinaryBody parameters body) :=
  decidable_of_iff ((∀ q ∈ parameters, q.name.name ≠ "this") ∧ Stmt.OrdinaryLocalsIn body)
    ⟨fun ⟨hq, hl⟩ => ⟨hq, hl⟩, fun h => ⟨h.parameters, h.locals⟩⟩

instance (p : Program) : Decidable p.HasOrdinaryNames :=
  decidable_of_iff ((∀ c ∈ p.classes, c.name.name ≠ "this") ∧
      (∀ c ∈ p.classes, ∀ k ∈ c.constructors, OrdinaryBody k.parameters k.body) ∧
      ∀ c ∈ p.classes, ∀ m ∈ c.methods, OrdinaryBody m.parameters m.body)
    ⟨fun ⟨hc, hk, hm⟩ => ⟨hc, hk, hm⟩, fun h => ⟨h.classes, h.constructors, h.methods⟩⟩

/-- The names of a monomorphic program are ordinary. -/
theorem Program.IsMonomorphic.hasOrdinaryNames {p : Program} (h : p.IsMonomorphic) :
    p.HasOrdinaryNames where
  classes c hc := (h.classes c hc).name.1
  constructors c hc k hk :=
    have hk := (h.classes c hc).constructors k hk
    ⟨hk.parameters, hk.locals⟩
  methods c hc m hm :=
    have hm := (h.classes c hc).methods m hm
    ⟨hm.parameters, hm.locals⟩

/-! ## Analysis -/

/-- Expansion keeps the names of parameters and locals. -/
theorem OrdinaryBody.expand {t : ClassTable F} {g : List String} {qs qs' : List Parameter}
    {ss ss' : List Stmt} (h : OrdinaryBody qs ss)
    (hqs : List.Forall₂ (fun q q' => q.expand t g = .ok q') qs qs')
    (hss : Stmt.expandAll t g ss = .ok ss') : OrdinaryBody qs' ss' :=
  ⟨Parameter.names_of_expand hqs h.parameters, Stmt.ordinaryLocalsIn_of_expandAll hss h.locals⟩

/-- Expansion changes types only. -/
theorem Program.HasOrdinaryNames.expand {t : ClassTable F} {p p' : Program}
    (h : p.HasOrdinaryNames) (hp : p.expand t = .ok p') : p'.HasOrdinaryNames := by
  obtain ⟨classes, hclasses, rfl⟩ := Program.expand_ok hp
  refine ⟨fun c' hc' => ?_, fun c' hc' k' hk' => ?_, fun c' hc' m' hm' => ?_⟩ <;>
  obtain ⟨c, hc, hexpand⟩ := exists_of_forall₂_mem hclasses hc' <;>
  obtain ⟨base, fields, constructors, methods, -, -, hks, hms, rfl⟩ := ClassDecl.expand_ok hexpand
  · exact h.classes c hc
  · obtain ⟨k, hk, hexpand⟩ := exists_of_forall₂_mem hks hk'
    obtain ⟨parameters, superArguments, body, hq, -, hb, rfl⟩ := ConstructorDecl.expand_ok hexpand
    exact (h.constructors c hc k hk).expand hq hb
  · obtain ⟨m, hm, hexpand⟩ := exists_of_forall₂_mem hms hm'
    obtain ⟨returnType, parameters, body, -, hq, hb, rfl⟩ := MethodDecl.expand_ok hexpand
    exact (h.methods c hc m hm).expand hq hb

/-- Regrouping changes no names. -/
theorem Program.HasOrdinaryNames.regroup {p : Program} (h : p.HasOrdinaryNames) :
    p.regroup.HasOrdinaryNames := by
  refine ⟨fun c' hc' => ?_, fun c' hc' k' hk' => ?_, fun c' hc' m' hm' => ?_⟩ <;>
  obtain ⟨c, hc, rfl⟩ := List.mem_map.mp hc'
  · exact h.classes c hc
  · obtain ⟨k, hk, rfl⟩ := List.mem_map.mp hk'
    have hk := h.constructors c hc k hk
    exact ⟨hk.parameters, Stmt.ordinaryLocalsIn_regroupAll hk.locals⟩
  · obtain ⟨m, hm, rfl⟩ := List.mem_map.mp hm'
    have hm := h.methods c hc m hm
    exact ⟨hm.parameters, Stmt.ordinaryLocalsIn_regroupAll hm.locals⟩

/-- Analysis keeps names ordinary. -/
theorem Program.HasOrdinaryNames.analysed {natives : NativeRegistry F} {p p' : Program}
    (h : p.HasOrdinaryNames) (hp : p.analyseFindings natives = .ok p') : p'.HasOrdinaryNames := by
  obtain ⟨t, p₁, -, hexpand, rfl, -⟩ := Program.analyseFindings_ok hp
  exact (h.expand hexpand).regroup

end Middleweight
