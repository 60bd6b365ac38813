import Middleweight.Proofs.Analysis.Idempotence
import Middleweight.Proofs.Syntax.Retyped

/-!
# Procedural programs

A program is procedural when its classes are no more than names for groups of static methods:
nothing in it is generic, its classes have neither fields nor constructors, and its bodies neither
construct nor cast. Its locals are ordinary: none is named `this`, and none is declared where a loop
goes on.

* `Program.IsProcedural.analysed` : analysis keeps a program procedural
-/

namespace Middleweight

variable {F : Type}

/-! ## Locals of bodies -/

namespace Stmt

/-- Whether a statement declares a local. -/
def isLocal : Stmt → Bool
  | localVariable .. => true
  | _ => false

mutual

/-- No local is named `this`, and no loop declares one in its update. -/
def OrdinaryLocals : Stmt → Prop
  | localVariable _ name _ _ => name.name ≠ "this"
  | ifElse _ thenBranch none _ => OrdinaryLocalsIn thenBranch
  | ifElse _ thenBranch (some elseBranch) _ =>
    OrdinaryLocalsIn thenBranch ∧ OrdinaryLocalsIn elseBranch
  | whileLoop _ body _ => OrdinaryLocalsIn body
  | forLoop init _ update body _ =>
    init.OrdinaryLocals ∧ update.isLocal = false ∧ update.OrdinaryLocals ∧ OrdinaryLocalsIn body
  | block body _ => OrdinaryLocalsIn body
  | assign .. => True
  | fieldAssign .. => True
  | expression .. => True
  | returns .. => True

def OrdinaryLocalsIn : List Stmt → Prop
  | [] => True
  | s :: rest => s.OrdinaryLocals ∧ OrdinaryLocalsIn rest

end

mutual

/-- Whether the locals of a statement are ordinary can be decided. -/
instance decidableOrdinaryLocals : (s : Stmt) → Decidable s.OrdinaryLocals
  | localVariable _ name _ _ => inferInstanceAs (Decidable (name.name ≠ "this"))
  | ifElse _ thenBranch none _ => decidableOrdinaryLocalsIn thenBranch
  | ifElse _ thenBranch (some elseBranch) _ =>
    @instDecidableAnd _ _ (decidableOrdinaryLocalsIn thenBranch)
      (decidableOrdinaryLocalsIn elseBranch)
  | whileLoop _ body _ => decidableOrdinaryLocalsIn body
  | forLoop init _ update body _ =>
    @instDecidableAnd _ _ (decidableOrdinaryLocals init)
      (@instDecidableAnd _ _ (inferInstanceAs (Decidable (update.isLocal = false)))
        (@instDecidableAnd _ _ (decidableOrdinaryLocals update) (decidableOrdinaryLocalsIn body)))
  | block body _ => decidableOrdinaryLocalsIn body
  | assign .. => .isTrue trivial
  | fieldAssign .. => .isTrue trivial
  | expression .. => .isTrue trivial
  | returns .. => .isTrue trivial

instance decidableOrdinaryLocalsIn : (ss : List Stmt) → Decidable (OrdinaryLocalsIn ss)
  | [] => .isTrue trivial
  | s :: rest => @instDecidableAnd _ _ (decidableOrdinaryLocals s) (decidableOrdinaryLocalsIn rest)

end

/-- Renaming the types of a statement leaves its kind. -/
theorem isLocal_of_retyped {R : TypeExpr → TypeExpr → Prop} {s s' : Stmt} (h : s.Retyped R s') :
    s'.isLocal = s.isLocal := by
  cases h <;> rfl

mutual

/-- Other types leave the locals as they are. -/
theorem ordinaryLocals_of_retyped {R : TypeExpr → TypeExpr → Prop} : ∀ {s s' : Stmt},
    s.Retyped R s' → s.OrdinaryLocals → s'.OrdinaryLocals
  | _, _, .localVariable _ _ _ _, ho => by
    rw [OrdinaryLocals] at ho ⊢
    exact ho
  | _, _, .assign _ _ _ _, _ => by rw [OrdinaryLocals]; trivial
  | _, _, .fieldAssign _ _ _ _ _, _ => by rw [OrdinaryLocals]; trivial
  | _, _, .expression _ _, _ => by rw [OrdinaryLocals]; trivial
  | _, _, .ifThen _ _ ha, ho => by
    rw [OrdinaryLocals] at ho ⊢
    exact ordinaryLocalsIn_of_allRetyped ha ho
  | _, _, .ifElse _ _ ha hb, ho => by
    rw [OrdinaryLocals] at ho ⊢
    exact ⟨ordinaryLocalsIn_of_allRetyped ha ho.1, ordinaryLocalsIn_of_allRetyped hb ho.2⟩
  | _, _, .whileLoop _ _ hb, ho => by
    rw [OrdinaryLocals] at ho ⊢
    exact ordinaryLocalsIn_of_allRetyped hb ho
  | _, _, .forLoop _ hi _ hu hb, ho => by
    rw [OrdinaryLocals] at ho ⊢
    obtain ⟨hi', hlocal, hu', hb'⟩ := ho
    exact ⟨ordinaryLocals_of_retyped hi hi', (isLocal_of_retyped hu).trans hlocal,
      ordinaryLocals_of_retyped hu hu', ordinaryLocalsIn_of_allRetyped hb hb'⟩
  | _, _, .returns _ _, _ => by rw [OrdinaryLocals]; trivial
  | _, _, .block _ hb, ho => by
    rw [OrdinaryLocals] at ho ⊢
    exact ordinaryLocalsIn_of_allRetyped hb ho

theorem ordinaryLocalsIn_of_allRetyped {R : TypeExpr → TypeExpr → Prop} :
    ∀ {ss ss' : List Stmt}, AllRetyped R ss ss' → OrdinaryLocalsIn ss → OrdinaryLocalsIn ss'
  | _, _, .nil, ho => ho
  | _, _, .cons hs hss, ho => by
    rw [OrdinaryLocalsIn] at ho ⊢
    exact ⟨ordinaryLocals_of_retyped hs ho.1, ordinaryLocalsIn_of_allRetyped hss ho.2⟩

end

theorem isLocal_regroup (s : Stmt) : s.regroup.isLocal = s.isLocal := by
  cases s with
  | ifElse c a b span => cases b <;> simp only [regroup, isLocal]
  | _ => simp only [regroup, isLocal]

mutual

/-- Regrouping leaves the locals as they are. -/
theorem ordinaryLocals_regroup : ∀ {s : Stmt}, s.OrdinaryLocals → s.regroup.OrdinaryLocals
  | localVariable _ _ _ _, ho => by
    rw [regroup, OrdinaryLocals]
    rwa [OrdinaryLocals] at ho
  | assign _ _ _ _, _ => by rw [regroup, OrdinaryLocals]; trivial
  | fieldAssign _ _ _ _ _, _ => by rw [regroup, OrdinaryLocals]; trivial
  | expression _ _, _ => by rw [regroup, OrdinaryLocals]; trivial
  | ifElse _ _ none _, ho => by
    rw [regroup, OrdinaryLocals]
    rw [OrdinaryLocals] at ho
    exact ordinaryLocalsIn_regroupAll ho
  | ifElse _ _ (some _) _, ho => by
    rw [regroup, OrdinaryLocals]
    rw [OrdinaryLocals] at ho
    exact ⟨ordinaryLocalsIn_regroupAll ho.1, ordinaryLocalsIn_regroupAll ho.2⟩
  | whileLoop _ _ _, ho => by
    rw [regroup, OrdinaryLocals]
    rw [OrdinaryLocals] at ho
    exact ordinaryLocalsIn_regroupAll ho
  | forLoop _ _ update _ _, ho => by
    rw [regroup, OrdinaryLocals]
    rw [OrdinaryLocals] at ho
    obtain ⟨hi, hlocal, hu, hb⟩ := ho
    exact ⟨ordinaryLocals_regroup hi, (isLocal_regroup update).trans hlocal,
      ordinaryLocals_regroup hu, ordinaryLocalsIn_regroupAll hb⟩
  | returns _ _, _ => by rw [regroup, OrdinaryLocals]; trivial
  | block _ _, ho => by
    rw [regroup, OrdinaryLocals]
    rw [OrdinaryLocals] at ho
    exact ordinaryLocalsIn_regroupAll ho

theorem ordinaryLocalsIn_regroupAll : ∀ {ss : List Stmt}, OrdinaryLocalsIn ss →
    OrdinaryLocalsIn (regroupAll ss)
  | [], ho => by rwa [regroupAll]
  | _ :: _, ho => by
    rw [regroupAll, OrdinaryLocalsIn]
    rw [OrdinaryLocalsIn] at ho
    exact ⟨ordinaryLocals_regroup ho.1, ordinaryLocalsIn_regroupAll ho.2⟩

end

end Stmt

/-! ## Declarations -/

/-- A type is written for something else than to construct or to cast. -/
def TypeUse.MakesNothing (use : TypeUse) (_ : TypeExpr) : Prop := use ≠ .construction ∧ use ≠ .cast

/-- A static method without generic parameters, and with ordinary locals. -/
structure MethodDecl.IsProcedural (m : MethodDecl) : Prop where
  isStatic : m.isStatic = true
  generics : m.generics = []
  parameters : ∀ q ∈ m.parameters, q.name.name ≠ "this"
  locals : Stmt.OrdinaryLocalsIn m.body

/-- A class that has static methods and nothing else. -/
structure ClassDecl.IsProcedural (c : ClassDecl) : Prop where
  generics : c.generics = []
  fields : c.fields = []
  constructors : c.constructors = []
  methods : ∀ m ∈ c.methods, m.IsProcedural

/-- The methods with which a program could start. -/
def Program.entries (p : Program) : List MethodDecl :=
  p.classes.flatMap fun c => c.methods.filter MethodDecl.isEntry

/-- The methods of a class with which a program could start are among all of them. -/
theorem Program.sublist_entries {p : Program} {c : ClassDecl} (hc : c ∈ p.classes) :
    (c.methods.filter MethodDecl.isEntry).Sublist p.entries := by
  unfold Program.entries
  rw [List.flatMap_def]
  exact List.sublist_flatten_of_mem (List.mem_map_of_mem hc)

/-- A program of static methods that neither construct nor cast, and of which one is its start. -/
structure Program.IsProcedural (p : Program) : Prop where
  classes : ∀ c ∈ p.classes, c.IsProcedural
  makesNothing : p.EachType fun _ => TypeUse.MakesNothing
  entries : p.entries.length ≤ 1

/-! ### Deciding -/

instance (use : TypeUse) (ty : TypeExpr) : Decidable (use.MakesNothing ty) :=
  inferInstanceAs (Decidable (use ≠ .construction ∧ use ≠ .cast))

/-- The conditions on a method can be decided. -/
instance (m : MethodDecl) : Decidable m.IsProcedural :=
  decidable_of_iff (m.isStatic = true ∧ m.generics = [] ∧
      (∀ q ∈ m.parameters, q.name.name ≠ "this") ∧ Stmt.OrdinaryLocalsIn m.body)
    ⟨fun ⟨hs, hg, hq, hl⟩ => ⟨hs, hg, hq, hl⟩,
      fun h => ⟨h.isStatic, h.generics, h.parameters, h.locals⟩⟩

instance (c : ClassDecl) : Decidable c.IsProcedural :=
  decidable_of_iff (c.generics = [] ∧ c.fields = [] ∧ c.constructors = [] ∧
      ∀ m ∈ c.methods, m.IsProcedural)
    ⟨fun ⟨hg, hf, hk, hm⟩ => ⟨hg, hf, hk, hm⟩,
      fun h => ⟨h.generics, h.fields, h.constructors, h.methods⟩⟩

/-- The conditions on a program can be decided. -/
instance (p : Program) : Decidable p.IsProcedural :=
  decidable_of_iff ((∀ c ∈ p.classes, c.IsProcedural) ∧
      p.EachType (fun _ => TypeUse.MakesNothing) ∧ p.entries.length ≤ 1)
    ⟨fun ⟨hc, hm, he⟩ => ⟨hc, hm, he⟩, fun h => ⟨h.classes, h.makesNothing, h.entries⟩⟩

/-! ## Expansion -/

section Expansion

variable {t : ClassTable F} {g : List String}

/-- Expansion of types keeps a procedural method procedural. -/
theorem MethodDecl.IsProcedural.expand {m m' : MethodDecl} (h : m.IsProcedural)
    (hm : m.expand t g = .ok m') : m'.IsProcedural := by
  obtain ⟨returnType, parameters, body, -, hp, hb, rfl⟩ := MethodDecl.expand_ok hm
  refine ⟨h.isStatic, h.generics, fun q' hq' => ?_, ?_⟩
  · obtain ⟨q, hmem, hexp⟩ := exists_of_forall₂_mem hp hq'
    rw [(Parameter.expand_ok hexp).1]
    exact h.parameters q hmem
  · have hretyped := Stmt.allRetyped_of_expandAll (R := fun _ _ => True) (fun _ _ _ => trivial) hb
    exact Stmt.ordinaryLocalsIn_of_allRetyped hretyped h.locals

theorem ClassDecl.IsProcedural.expand {c c' : ClassDecl} (h : c.IsProcedural)
    (hc : c.expand t = .ok c') : c'.IsProcedural := by
  obtain ⟨base, fields, constructors, methods, -, hf, hk, hm, rfl⟩ := ClassDecl.expand_ok hc
  rw [h.fields] at hf
  rw [h.constructors] at hk
  cases hf
  cases hk
  refine ⟨h.generics, rfl, rfl, fun m' hm' => ?_⟩
  obtain ⟨m, hmem, hexp⟩ := exists_of_forall₂_mem hm hm'
  exact (h.methods m hmem).expand hexp

/-- Expansion makes no entry method and loses none. -/
theorem ClassDecl.length_entries_expand {c c' : ClassDecl} (hc : c.expand t = .ok c') :
    (c'.methods.filter MethodDecl.isEntry).length =
      (c.methods.filter MethodDecl.isEntry).length := by
  obtain ⟨base, fields, constructors, methods, -, -, -, hm, rfl⟩ := ClassDecl.expand_ok hc
  clear hc
  dsimp only
  generalize c.methods = ms at hm
  induction hm with
  | nil => rfl
  | cons hk _ ih =>
    rw [List.filter_cons, List.filter_cons, MethodDecl.isEntry_expand hk]
    split <;> simp [ih]

theorem Program.length_entries_expand {p p' : Program} (hp : p.expand t = .ok p') :
    p'.entries.length = p.entries.length := by
  obtain ⟨classes, hc, rfl⟩ := Program.expand_ok hp
  clear hp
  unfold Program.entries
  dsimp only
  generalize p.classes = cs at hc
  induction hc with
  | nil => rfl
  | cons hk _ ih =>
    rw [List.flatMap_cons, List.flatMap_cons, List.length_append, List.length_append, ih,
      ClassDecl.length_entries_expand hk]

/-- Expansion of types keeps a procedural program procedural. -/
theorem Program.IsProcedural.expand {p p' : Program} (h : p.IsProcedural)
    (hp : p.expand t = .ok p') : p'.IsProcedural := by
  have hstep : ∀ (g : List String) (use : TypeUse) (ty ty' : TypeExpr), use.MakesNothing ty →
      ty.expand t g = .ok ty' → use.MakesNothing ty' := fun _ _ _ _ huse _ => huse
  refine ⟨fun c' hc' => ?_, h.makesNothing.expand hstep hp, ?_⟩
  · obtain ⟨classes, hc, rfl⟩ := Program.expand_ok hp
    obtain ⟨c, hmem, hexp⟩ := exists_of_forall₂_mem hc hc'
    exact (h.classes c hmem).expand hexp
  · rw [Program.length_entries_expand hp]
    exact h.entries

end Expansion

/-! ## Regrouping -/

theorem MethodDecl.IsProcedural.regroup {m : MethodDecl} (h : m.IsProcedural) :
    m.regroup.IsProcedural :=
  ⟨h.isStatic, h.generics, h.parameters, Stmt.ordinaryLocalsIn_regroupAll h.locals⟩

theorem ClassDecl.IsProcedural.regroup {c : ClassDecl} (h : c.IsProcedural) :
    c.regroup.IsProcedural where
  generics := h.generics
  fields := h.fields
  constructors := by rw [ClassDecl.regroup, h.constructors]; rfl
  methods := by
    intro m hm
    obtain ⟨m₀, hm₀, rfl⟩ := List.mem_map.mp hm
    exact (h.methods m₀ hm₀).regroup

/-- Regrouping makes no entry method and loses none. -/
theorem Program.length_entries_regroup (p : Program) :
    p.regroup.entries.length = p.entries.length := by
  have hmethods : ∀ ms : List MethodDecl,
      ((ms.map MethodDecl.regroup).filter MethodDecl.isEntry).length =
        (ms.filter MethodDecl.isEntry).length := by
    intro ms
    rw [List.filter_map, List.length_map]
    rfl
  obtain ⟨source, imports, classes⟩ := p
  unfold Program.entries Program.regroup
  dsimp only
  induction classes with
  | nil => rfl
  | cons c rest ih =>
    rw [List.map_cons, List.flatMap_cons, List.flatMap_cons, List.length_append,
      List.length_append, ih]
    exact congrArg (· + _) (hmethods c.methods)

/-- Regrouping keeps a procedural program procedural. -/
theorem Program.IsProcedural.regroup {p : Program} (h : p.IsProcedural) :
    p.regroup.IsProcedural := by
  refine ⟨fun c hc => ?_, h.makesNothing.regroup, ?_⟩
  · obtain ⟨c₀, hc₀, rfl⟩ := List.mem_map.mp hc
    exact (h.classes c₀ hc₀).regroup
  · rw [Program.length_entries_regroup]
    exact h.entries

/-! ## Analysis -/

/-- The check of the entry method asks for exactly one `main`. -/
theorem Program.checkMain_ok_iff {p : Program} : p.checkMain = .ok () ↔ p.mains.length = 1 := by
  unfold checkMain
  split
  · next hnone =>
    rw [hnone]
    exact ⟨fun h => (nomatch h), fun h => (nomatch h)⟩
  · next hone =>
    rw [hone]
    exact ⟨fun _ => rfl, fun _ => rfl⟩
  · next hseveral =>
    rw [hseveral]
    exact ⟨fun h => (nomatch h), fun h => by simp at h⟩

/-- A procedural program declares no parameters, so none of them shadows a class. -/
theorem Program.IsProcedural.plainGenerics {p : Program} (h : p.IsProcedural) :
    p.PlainGenerics := by
  intro c hc
  refine ⟨fun n hn => ?_, fun m hm n hn => ?_⟩
  · rw [(h.classes c hc).generics] at hn
    cases hn
  · rw [((h.classes c hc).methods m hm).generics] at hn
    cases hn

/-- Analysis makes no entry method and loses none. -/
theorem Program.length_entries_analysed {natives : NativeRegistry F} {p p' : Program}
    (hp : p.analyseFindings natives = .ok p') : p'.entries.length = p.entries.length := by
  obtain ⟨t, p₁, -, hexpand, rfl, -⟩ := Program.analyseFindings_ok hp
  rw [length_entries_regroup, length_entries_expand hexpand]

/-- Analysis keeps a program procedural. -/
theorem Program.IsProcedural.analysed {natives : NativeRegistry F} {p p' : Program}
    (h : p.IsProcedural) (hp : p.analyseFindings natives = .ok p') : p'.IsProcedural := by
  obtain ⟨t, p₁, -, hexpand, rfl, -⟩ := Program.analyseFindings_ok hp
  exact (h.expand hexpand).regroup

end Middleweight
