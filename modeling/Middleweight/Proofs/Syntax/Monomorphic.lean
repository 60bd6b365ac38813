import Middleweight.Proofs.Syntax.Procedural

/-!
# Monomorphic programs

A program is monomorphic when it declares no generic parameters and casts nothing. Its names are
ordinary: no class is named `this` or like the type of `null`, no local or parameter is named
`this`, and no loop declares a local where it goes on. Other than procedural programs, such programs
have fields, constructors and methods of instances, and their bodies make objects.

* `Program.IsMonomorphic.analysed` : analysis keeps a program monomorphic
-/

namespace Middleweight

variable {F : Type}

/-- A type is written for something else than to cast. -/
def TypeUse.CastsNothing (use : TypeUse) (_ : TypeExpr) : Prop := use ≠ .cast

/-- A constructor with ordinary locals. -/
structure ConstructorDecl.IsMonomorphic (k : ConstructorDecl) : Prop where
  parameters : ∀ q ∈ k.parameters, q.name.name ≠ "this"
  locals : Stmt.OrdinaryLocalsIn k.body

/-- A method without generic parameters, and with ordinary locals. -/
structure MethodDecl.IsMonomorphic (m : MethodDecl) : Prop where
  generics : m.generics = []
  parameters : ∀ q ∈ m.parameters, q.name.name ≠ "this"
  locals : Stmt.OrdinaryLocalsIn m.body

/-- A class without generic parameters, with an ordinary name and ordinary members. -/
structure ClassDecl.IsMonomorphic (c : ClassDecl) : Prop where
  name : c.name.name ≠ "this" ∧ c.name.name ≠ Ty.nullName
  generics : c.generics = []
  constructors : ∀ k ∈ c.constructors, k.IsMonomorphic
  methods : ∀ m ∈ c.methods, m.IsMonomorphic

/-- A program of classes without generic parameters, in which nothing is cast. -/
structure Program.IsMonomorphic (p : Program) : Prop where
  classes : ∀ c ∈ p.classes, c.IsMonomorphic
  castsNothing : p.EachType fun _ => TypeUse.CastsNothing

/-! ## Deciding -/

instance (use : TypeUse) (ty : TypeExpr) : Decidable (use.CastsNothing ty) :=
  inferInstanceAs (Decidable (use ≠ .cast))

/-- The conditions on a constructor can be decided. -/
instance (k : ConstructorDecl) : Decidable k.IsMonomorphic :=
  decidable_of_iff ((∀ q ∈ k.parameters, q.name.name ≠ "this") ∧ Stmt.OrdinaryLocalsIn k.body)
    ⟨fun ⟨hq, hl⟩ => ⟨hq, hl⟩, fun h => ⟨h.parameters, h.locals⟩⟩

/-- The conditions on a method can be decided. -/
instance (m : MethodDecl) : Decidable m.IsMonomorphic :=
  decidable_of_iff (m.generics = [] ∧ (∀ q ∈ m.parameters, q.name.name ≠ "this") ∧
      Stmt.OrdinaryLocalsIn m.body)
    ⟨fun ⟨hg, hq, hl⟩ => ⟨hg, hq, hl⟩, fun h => ⟨h.generics, h.parameters, h.locals⟩⟩

/-- The conditions on a class can be decided. -/
instance (c : ClassDecl) : Decidable c.IsMonomorphic :=
  decidable_of_iff ((c.name.name ≠ "this" ∧ c.name.name ≠ Ty.nullName) ∧ c.generics = [] ∧
      (∀ k ∈ c.constructors, k.IsMonomorphic) ∧ ∀ m ∈ c.methods, m.IsMonomorphic)
    ⟨fun ⟨hn, hg, hk, hm⟩ => ⟨hn, hg, hk, hm⟩,
      fun h => ⟨h.name, h.generics, h.constructors, h.methods⟩⟩

/-- The conditions on a program can be decided. -/
instance (p : Program) : Decidable p.IsMonomorphic :=
  decidable_of_iff ((∀ c ∈ p.classes, c.IsMonomorphic) ∧
      p.EachType fun _ => TypeUse.CastsNothing)
    ⟨fun ⟨hc, hm⟩ => ⟨hc, hm⟩, fun h => ⟨h.classes, h.castsNothing⟩⟩

/-! ## Expansion -/

section Expansion

variable {t : ClassTable F} {g : List String}

/-- Expansion keeps the names of parameters. -/
theorem Parameter.names_of_expand {qs qs' : List Parameter}
    (h : List.Forall₂ (fun q q' => q.expand t g = .ok q') qs qs')
    (hqs : ∀ q ∈ qs, q.name.name ≠ "this") : ∀ q ∈ qs', q.name.name ≠ "this" := by
  intro q' hq'
  obtain ⟨q, hq, hexp⟩ := exists_of_forall₂_mem h hq'
  rw [(Parameter.expand_ok hexp).1]
  exact hqs q hq

/-- Expansion keeps the locals of bodies. -/
theorem Stmt.ordinaryLocalsIn_of_expandAll {ss ss' : List Stmt} (h : expandAll t g ss = .ok ss')
    (hss : OrdinaryLocalsIn ss) : OrdinaryLocalsIn ss' :=
  ordinaryLocalsIn_of_allRetyped
    (allRetyped_of_expandAll (R := fun _ _ => True) (fun _ _ _ => trivial) h) hss

theorem ConstructorDecl.IsMonomorphic.expand {k k' : ConstructorDecl} (h : k.IsMonomorphic)
    (hk : k.expand t g = .ok k') : k'.IsMonomorphic := by
  obtain ⟨parameters, superArguments, body, hp, -, hb, rfl⟩ := ConstructorDecl.expand_ok hk
  exact ⟨Parameter.names_of_expand hp h.parameters, Stmt.ordinaryLocalsIn_of_expandAll hb h.locals⟩

theorem MethodDecl.IsMonomorphic.expand {m m' : MethodDecl} (h : m.IsMonomorphic)
    (hm : m.expand t g = .ok m') : m'.IsMonomorphic := by
  obtain ⟨returnType, parameters, body, -, hp, hb, rfl⟩ := MethodDecl.expand_ok hm
  exact ⟨h.generics, Parameter.names_of_expand hp h.parameters,
    Stmt.ordinaryLocalsIn_of_expandAll hb h.locals⟩

theorem ClassDecl.IsMonomorphic.expand {c c' : ClassDecl} (h : c.IsMonomorphic)
    (hc : c.expand t = .ok c') : c'.IsMonomorphic := by
  obtain ⟨base, fields, constructors, methods, -, -, hk, hm, rfl⟩ := ClassDecl.expand_ok hc
  refine ⟨h.name, h.generics, fun k' hk' => ?_, fun m' hm' => ?_⟩
  · obtain ⟨k, hmem, hexp⟩ := exists_of_forall₂_mem hk hk'
    exact (h.constructors k hmem).expand hexp
  · obtain ⟨m, hmem, hexp⟩ := exists_of_forall₂_mem hm hm'
    exact (h.methods m hmem).expand hexp

/-- Expansion of types keeps a monomorphic program monomorphic. -/
theorem Program.IsMonomorphic.expand {p p' : Program} (h : p.IsMonomorphic)
    (hp : p.expand t = .ok p') : p'.IsMonomorphic := by
  have hstep : ∀ (g : List String) (use : TypeUse) (ty ty' : TypeExpr), use.CastsNothing ty →
      ty.expand t g = .ok ty' → use.CastsNothing ty' := fun _ _ _ _ huse _ => huse
  refine ⟨fun c' hc' => ?_, h.castsNothing.expand hstep hp⟩
  obtain ⟨classes, hc, rfl⟩ := Program.expand_ok hp
  obtain ⟨c, hmem, hexp⟩ := exists_of_forall₂_mem hc hc'
  exact (h.classes c hmem).expand hexp

end Expansion

/-! ## Regrouping -/

theorem ConstructorDecl.IsMonomorphic.regroup {k : ConstructorDecl} (h : k.IsMonomorphic) :
    k.regroup.IsMonomorphic :=
  ⟨h.parameters, Stmt.ordinaryLocalsIn_regroupAll h.locals⟩

theorem MethodDecl.IsMonomorphic.regroup {m : MethodDecl} (h : m.IsMonomorphic) :
    m.regroup.IsMonomorphic :=
  ⟨h.generics, h.parameters, Stmt.ordinaryLocalsIn_regroupAll h.locals⟩

theorem ClassDecl.IsMonomorphic.regroup {c : ClassDecl} (h : c.IsMonomorphic) :
    c.regroup.IsMonomorphic where
  name := h.name
  generics := h.generics
  constructors := by
    intro k hk
    obtain ⟨k₀, hk₀, rfl⟩ := List.mem_map.mp hk
    exact (h.constructors k₀ hk₀).regroup
  methods := by
    intro m hm
    obtain ⟨m₀, hm₀, rfl⟩ := List.mem_map.mp hm
    exact (h.methods m₀ hm₀).regroup

/-- Regrouping keeps a monomorphic program monomorphic. -/
theorem Program.IsMonomorphic.regroup {p : Program} (h : p.IsMonomorphic) :
    p.regroup.IsMonomorphic := by
  refine ⟨fun c hc => ?_, h.castsNothing.regroup⟩
  obtain ⟨c₀, hc₀, rfl⟩ := List.mem_map.mp hc
  exact (h.classes c₀ hc₀).regroup

/-! ## Analysis -/

/-- A monomorphic program declares no parameters, so none of them shadows a class. -/
theorem Program.IsMonomorphic.plainGenerics {p : Program} (h : p.IsMonomorphic) :
    p.PlainGenerics := by
  intro c hc
  refine ⟨fun n hn => ?_, fun m hm n hn => ?_⟩
  · rw [(h.classes c hc).generics] at hn
    cases hn
  · rw [((h.classes c hc).methods m hm).generics] at hn
    cases hn

/-- Analysis keeps a program monomorphic. -/
theorem Program.IsMonomorphic.analysed {natives : NativeRegistry F} {p p' : Program}
    (h : p.IsMonomorphic) (hp : p.analyseFindings natives = .ok p') : p'.IsMonomorphic := by
  obtain ⟨t, p₁, -, hexpand, rfl, -⟩ := Program.analyseFindings_ok hp
  exact (h.expand hexpand).regroup

end Middleweight
