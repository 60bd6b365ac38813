import Middleweight.Native.Standard
import Middleweight.Proofs.ClassTable.Build
import Middleweight.Proofs.ClassTable.Match
import Middleweight.Proofs.Syntax.TypeUses

/-!
# Expanded names lower as written ones

Expansion replaces a written name by the full name it stands for. A full name stands for itself, and
it is no generic parameter in scope: a declared class is written under its own name, all other full
names are dotted or belong to primitives. So an expanded type lowers to what it lowered to before
and expands to itself, and the table of an expanded program matches that of the program as written.

* `TypeExpr.sameLowering_expand` : an expanded type lowers alike
* `TypeExpr.expand_expand` : an expanded type stays
* `ClassDecl.expand_congr` : expansion with another table that answers alike for types
* `ClassTable.build_expanded` : the table of the expanded program
-/

namespace Middleweight

variable {F : Type} {t : ClassTable F}

/-! ## Full names -/

/-- A name that only a class declared under it can have as its full name. -/
def IsPlain (name : String) : Prop := Primitive.ofName? name = none ∧ '.' ∉ name.toList

instance (name : String) : Decidable (IsPlain name) :=
  inferInstanceAs (Decidable (_ ∧ _))

/-- What is needed of names: full ones stand for themselves, are classes, and capture nothing. -/
structure ClassTable.Resolves (t : ClassTable F) : Prop where
  twice : ∀ {n full}, t.imports.resolve? n = some full → t.imports.resolve? full = some full
  known : ∀ {n full}, t.imports.resolve? n = some full → ∃ k, t.arity? full = some k
  plain : ∀ {n full}, t.imports.resolve? n = some full → IsPlain full → full = n

/-- Native classes with dotted names, none of which has the simple name of a primitive. -/
structure NativeRegistry.WellNamed (natives : NativeRegistry F) : Prop where
  leavesPrimitives : natives.LeavesPrimitives
  dotted : ∀ c ∈ natives.classes, '.' ∈ c.fullName.toList

/-- A table that is built with well named native classes resolves names as expansion needs it. -/
theorem ClassTable.resolves_of_build {p : Program} {natives : NativeRegistry F}
    (h : ClassTable.build p natives = .ok t) (hn : natives.WellNamed) : t.Resolves where
  twice := ImportTable.resolve?_resolve? (imports_of_build h) hn.leavesPrimitives
  known := ClassTable.arity?_of_resolve? h
  plain := by
    intro n full hf hplain
    rcases ImportTable.resolve?_cases (imports_of_build h) hf with ⟨rfl, -⟩ | ⟨q, rfl⟩ | ⟨c, hc, rfl⟩
    · rfl
    · have := hplain.1
      rw [Primitive.ofName?_name] at this
      cases this
    · exact absurd (hn.dotted c hc) hplain.2

/-- The generic parameters of a class and of its methods have plain names. -/
structure ClassDecl.PlainGenerics (c : ClassDecl) : Prop where
  own : ∀ n ∈ c.generics.map Identifier.name, IsPlain n
  methods : ∀ m ∈ c.methods, ∀ n ∈ m.generics.map Identifier.name, IsPlain n

/-- The generic parameters in a program have plain names. -/
def Program.PlainGenerics (p : Program) : Prop := ∀ c ∈ p.classes, c.PlainGenerics

instance (c : ClassDecl) : Decidable c.PlainGenerics :=
  decidable_of_iff ((∀ n ∈ c.generics.map Identifier.name, IsPlain n) ∧
      ∀ m ∈ c.methods, ∀ n ∈ m.generics.map Identifier.name, IsPlain n)
    ⟨fun h => ⟨h.1, h.2⟩, fun h => ⟨h.own, h.methods⟩⟩

instance (p : Program) : Decidable p.PlainGenerics :=
  inferInstanceAs (Decidable (∀ c ∈ p.classes, c.PlainGenerics))

theorem MethodDecl.plain_visible {m : MethodDecl} {g : List String} (hg : ∀ n ∈ g, IsPlain n)
    (hm : ∀ n ∈ m.generics.map Identifier.name, IsPlain n) :
    ∀ n ∈ m.visibleGenerics g, IsPlain n := by
  intro n hn
  unfold MethodDecl.visibleGenerics at hn
  rcases List.mem_append.mp hn with hn | hn
  · split at hn
    · cases hn
    · exact hg n hn
  · exact hm n hn

/-! ## Types -/

namespace TypeExpr

variable {g : List String}

/--
A name that is expanded is imported and written with as many arguments as its class has parameters.
-/
theorem expandedName_ok {name full : String} {given : Nat} {span : Span}
    (h : expandedName t name given span = .ok full) :
    t.imports.resolve? name = some full ∧ (t.arity? full).getD 0 = given := by
  unfold expandedName at h
  split at h
  · cases h
  · next hres =>
    dsimp only at h
    split at h
    · next harity =>
      cases h
      exact ⟨hres, harity⟩
    · cases h

/-- Expansion keeps a parameter, and gives any other name the full name of its class. -/
theorem expand_ok {e e' : TypeExpr} (h : e.expand t g = .ok e') :
    (e.name ∈ g ∧ e.generics = [] ∧ e' = e) ∨
    (e.name ∉ g ∧ ∃ full args, t.imports.resolve? e.name = some full ∧
      (t.arity? full).getD 0 = e.generics.length ∧ expandAll t g e.generics = .ok args ∧
      e' = ⟨full, args, e.span⟩) := by
  obtain ⟨name, generics, span⟩ := e
  rw [expand] at h
  split at h
  · next hg =>
    split at h
    · next hempty =>
      cases h
      exact .inl ⟨hg, List.isEmpty_iff.mp hempty, rfl⟩
    · cases h
  · next hg =>
    split at h
    · cases h
    · next full hfull =>
      split at h
      · cases h
      · next args hargs =>
        cases h
        obtain ⟨hres, harity⟩ := expandedName_ok hfull
        exact .inr ⟨hg, full, args, hres, harity, hargs, rfl⟩

theorem length_expandAll : ∀ {es es' : List TypeExpr}, expandAll t g es = .ok es' →
    es'.length = es.length := by
  intro es
  induction es with
  | nil =>
    intro es' h
    rw [expandAll] at h
    cases h
    rfl
  | cons e rest ih =>
    intro es' h
    rw [expandAll] at h
    split at h
    · cases h
    · split at h
      · cases h
      · next rest' hrest =>
        cases h
        rw [List.length_cons, List.length_cons, ih hrest]

/-- A full name is no parameter, as parameters are plain. -/
theorem notMem_full (ht : t.Resolves) (hg : ∀ n ∈ g, IsPlain n) {n full : String} (hn : n ∉ g)
    (hf : t.imports.resolve? n = some full) : full ∉ g := by
  intro hm
  rw [ht.plain hf (hg full hm)] at hm
  exact hn hm

theorem get?_of_notMem {params : TypeParams} (hp : params.Within g) {n : String} (hn : n ∉ g) :
    params.get? n = none :=
  Option.not_isSome_iff_eq_none.mp fun h => hn (hp n h)

/-- A name with as many arguments as its class has parameters names that class. -/
theorem className_of_resolve? (ht : t.Resolves) {n full : String} {args : List TypeExpr}
    {span : Span} (hf : t.imports.resolve? n = some full)
    (ha : (t.arity? full).getD 0 = args.length) :
    t.lowering.className ⟨n, args, span⟩ = .ok full := by
  obtain ⟨k, hk⟩ := ht.known hf
  have hk' : t.lowering.arity full = some k := hk
  rw [hk, Option.getD_some] at ha
  rw [LoweringContext.className]
  simp only [show t.lowering.imports = t.imports from rfl, hf, hk', ha, if_true]

mutual

/-- An expanded type lowers to what it lowered to before. -/
theorem sameLowering_expand (ht : t.Resolves) (hg : ∀ n ∈ g, IsPlain n) : ∀ {e e' : TypeExpr},
    e.expand t g = .ok e' → t.lowering.SameLowering g e e'
  | ⟨name, generics, span⟩, e', h => by
    intro params hp
    rcases expand_ok h with ⟨-, -, rfl⟩ | ⟨hn, full, args, hf, ha, hargs, rfl⟩
    · rfl
    · have hclass : t.lowering.className ⟨name, generics, span⟩ = .ok full :=
        className_of_resolve? ht hf ha
      have hclass' : t.lowering.className ⟨full, args, span⟩ = .ok full :=
        className_of_resolve? ht (ht.twice hf) (ha.trans (length_expandAll hargs).symm)
      have hlower := lowerAll_expandAll ht hg hargs hp
      have hnone := get?_of_notMem hp hn
      have hnone' := get?_of_notMem hp (notMem_full ht hg hn hf)
      dsimp only at hnone hargs hlower ⊢
      rw [LoweringContext.lower, LoweringContext.lower, hnone, hnone', hclass, hclass', hlower]

theorem lowerAll_expandAll (ht : t.Resolves) (hg : ∀ n ∈ g, IsPlain n) :
    ∀ {es es' : List TypeExpr}, expandAll t g es = .ok es' → ∀ {params : TypeParams},
    params.Within g → t.lowering.lowerAll params es' = t.lowering.lowerAll params es
  | [], es', h, params, _ => by
    rw [expandAll] at h
    cases h
    rfl
  | e :: rest, es', h, params, hp => by
    rw [expandAll] at h
    split at h
    · cases h
    · next e₁ he =>
      split at h
      · cases h
      · next rest₁ hrest =>
        cases h
        rw [LoweringContext.lowerAll, LoweringContext.lowerAll,
          sameLowering_expand ht hg he params hp, lowerAll_expandAll ht hg hrest hp]

end

mutual

/-- An expanded type expands to itself. -/
theorem expand_expand (ht : t.Resolves) (hg : ∀ n ∈ g, IsPlain n) : ∀ {e e' : TypeExpr},
    e.expand t g = .ok e' → e'.expand t g = .ok e'
  | ⟨name, generics, span⟩, e', h => by
    rcases expand_ok h with ⟨-, -, rfl⟩ | ⟨hn, full, args, hf, ha, hargs, rfl⟩
    · exact h
    · have hargs' := expandAll_expandAll ht hg hargs
      have hname : expandedName t full args.length span = .ok full := by
        unfold expandedName
        simp only [ht.twice hf]
        rw [if_pos (ha.trans (length_expandAll hargs).symm)]
      rw [expand, if_neg (notMem_full ht hg hn hf)]
      dsimp only
      rw [hname, hargs']

theorem expandAll_expandAll (ht : t.Resolves) (hg : ∀ n ∈ g, IsPlain n) :
    ∀ {es es' : List TypeExpr}, expandAll t g es = .ok es' → expandAll t g es' = .ok es'
  | [], es', h => by
    rw [expandAll] at h
    cases h
    rw [expandAll]
  | e :: rest, es', h => by
    rw [expandAll] at h
    split at h
    · cases h
    · next e₁ he =>
      split at h
      · cases h
      · next rest₁ hrest =>
        cases h
        rw [expandAll, expand_expand ht hg he, expandAll_expandAll ht hg hrest]

end

mutual

/-- Expansion asks a table for imports and numbers of parameters only. -/
theorem expand_congr {t' : ClassTable F}
    (hnames : ∀ name, t'.imports.resolve? name = t.imports.resolve? name)
    (harity : ∀ name, t'.arity? name = t.arity? name) :
    ∀ e : TypeExpr, e.expand t' g = e.expand t g
  | ⟨name, generics, span⟩ => by
    have hname : expandedName t' name generics.length span =
        expandedName t name generics.length span := by
      unfold expandedName
      simp only [hnames, harity]
    rw [expand, expand, hname, expandAll_congr hnames harity generics]

theorem expandAll_congr {t' : ClassTable F}
    (hnames : ∀ name, t'.imports.resolve? name = t.imports.resolve? name)
    (harity : ∀ name, t'.arity? name = t.arity? name) :
    ∀ es : List TypeExpr, expandAll t' g es = expandAll t g es
  | [] => by rw [expandAll, expandAll]
  | e :: rest => by
    rw [expandAll, expandAll, expand_congr hnames harity e, expandAll_congr hnames harity rest]

end

/-- Matching tables expand alike. -/
theorem expand_eq_of_matches {RB : BodyRelation F} {t' : ClassTable F} (h : t.Matches RB t')
    (e : TypeExpr) : e.expand t' g = e.expand t g :=
  expand_congr h.resolve?_eq h.arity?_eq e

end TypeExpr

/-! ## Declarations -/

section Alike

variable {t' : ClassTable F}
  (h : ∀ (g : List String) (e : TypeExpr), e.expand t' g = e.expand t g) (g : List String)

include h

namespace Expr

omit h g in
mutual

/-- An expression is expanded with the same result where each type is. -/
theorem expand_congr (h : ∀ (g : List String) (e : TypeExpr), e.expand t' g = e.expand t g)
    (g : List String) : ∀ e : Expr, e.expand t' g = e.expand t g
  | literal _ _ => by rw [expand, expand]
  | var _ => by rw [expand, expand]
  | binary lhs op rhs span => by rw [expand, expand, expand_congr h g lhs, expand_congr h g rhs]
  | unary op e span => by rw [expand, expand, expand_congr h g e]
  | step op before e span => by rw [expand, expand, expand_congr h g e]
  | ternary c a b span => by
    rw [expand, expand, expand_congr h g c, expand_congr h g a, expand_congr h g b]
  | new ty args span => by rw [expand, expand, h, expandAll_congr h g args]
  | field e name span => by rw [expand, expand, expand_congr h g e]
  | call e method args span => by
    rw [expand, expand, expand_congr h g e, expandAll_congr h g args]
  | cast ty e span => by rw [expand, expand, h, expand_congr h g e]
  | instanceOf e ty span => by rw [expand, expand, h, expand_congr h g e]
  | group e span => by rw [expand, expand, expand_congr h g e]

theorem expandAll_congr (h : ∀ (g : List String) (e : TypeExpr), e.expand t' g = e.expand t g)
    (g : List String) : ∀ es : List Expr, expandAll t' g es = expandAll t g es
  | [] => by rw [expandAll, expandAll]
  | e :: rest => by rw [expandAll, expandAll, expand_congr h g e, expandAll_congr h g rest]

end

theorem expandOption_congr (e? : Option Expr) : expandOption t' g e? = expandOption t g e? := by
  cases e? with
  | none => rfl
  | some e => rw [expandOption, expandOption, expand_congr h]

theorem expandSuper_congr (es? : Option (List Expr)) :
    expandSuper t' g es? = expandSuper t g es? := by
  cases es? with
  | none => rfl
  | some es => rw [expandSuper, expandSuper, expandAll_congr h]

end Expr

namespace Stmt

omit h g in
mutual

/-- A statement is expanded with the same result where each type is. -/
theorem expand_congr (h : ∀ (g : List String) (e : TypeExpr), e.expand t' g = e.expand t g)
    (g : List String) : ∀ s : Stmt, s.expand t' g = s.expand t g
  | localVariable ty name value span => by
    rw [expand, expand, h, Expr.expandOption_congr h]
  | assign target op e span => by rw [expand, expand, Expr.expand_congr h]
  | fieldAssign receiver field op e span => by
    rw [expand, expand, Expr.expand_congr h g receiver, Expr.expand_congr h g e]
  | expression e span => by rw [expand, expand, Expr.expand_congr h]
  | ifElse c a none span => by rw [expand, expand, Expr.expand_congr h, expandAll_congr h g a]
  | ifElse c a (some b) span => by
    rw [expand, expand, Expr.expand_congr h, expandAll_congr h g a, expandAll_congr h g b]
  | whileLoop c body span => by rw [expand, expand, Expr.expand_congr h, expandAll_congr h g body]
  | forLoop init c update body span => by
    rw [expand, expand, expand_congr h g init, Expr.expand_congr h, expand_congr h g update,
      expandAll_congr h g body]
  | returns value span => by rw [expand, expand, Expr.expandOption_congr h]
  | block body span => by rw [expand, expand, expandAll_congr h g body]

theorem expandAll_congr (h : ∀ (g : List String) (e : TypeExpr), e.expand t' g = e.expand t g)
    (g : List String) : ∀ ss : List Stmt, expandAll t' g ss = expandAll t g ss
  | [] => by rw [expandAll, expandAll]
  | s :: rest => by rw [expandAll, expandAll, expand_congr h g s, expandAll_congr h g rest]

end

end Stmt

theorem TypeExpr.expandOption_congr (e? : Option TypeExpr) :
    expandOption t' g e? = expandOption t g e? := by
  cases e? with
  | none => rfl
  | some e => rw [expandOption, expandOption, h]

omit g in
/-- A class is expanded with the same result where each type is. -/
theorem ClassDecl.expand_congr (c : ClassDecl) : c.expand t' = c.expand t := by
  have hparameter : ∀ g, Parameter.expand t' g = Parameter.expand t g := fun g =>
    funext fun q => by rw [Parameter.expand, Parameter.expand, h]
  have hfield : ∀ g, FieldDecl.expand t' g = FieldDecl.expand t g := fun g =>
    funext fun f => by rw [FieldDecl.expand, FieldDecl.expand, h]
  have hconstructor : ∀ g, ConstructorDecl.expand t' g = ConstructorDecl.expand t g := fun g =>
    funext fun k => by
      rw [ConstructorDecl.expand, ConstructorDecl.expand, hparameter, Expr.expandSuper_congr h,
        Stmt.expandAll_congr h]
  have hmethod : ∀ g, MethodDecl.expand t' g = MethodDecl.expand t g := fun g =>
    funext fun m => by
      unfold MethodDecl.expand
      simp only [TypeExpr.expandOption_congr h, hparameter, Stmt.expandAll_congr h]
  unfold ClassDecl.expand
  simp only [TypeExpr.expandOption_congr h, hfield, hconstructor, hmethod]

end Alike

/-! ## Bodies -/

/-- Changes the bodies of the members of a class and leaves the rest. -/
def ClassDecl.mapBodies (onBody : List Stmt → List Stmt)
    (onSuper : Option (List Expr) → Option (List Expr)) (c : ClassDecl) : ClassDecl :=
  { c with
    constructors := c.constructors.map fun k =>
      { k with superArguments := onSuper k.superArguments, body := onBody k.body }
    methods := c.methods.map fun m => { m with body := onBody m.body } }

/-- A body that is another one expanded, under parameters with plain names, and then changed. -/
def ExpandedTo (t : ClassTable F) (onBody : List Stmt → List Stmt)
    (onSuper : Option (List Expr) → Option (List Expr)) : BodyRelation F
  | _, .native f, .native f' => f' = f
  | g, .declared b s, .declared b' s' =>
    (∀ n ∈ g, IsPlain n) ∧ (∃ b₁, Stmt.expandAll t g b = .ok b₁ ∧ b' = onBody b₁) ∧
      ∃ s₁, Expr.expandSuper t g s = .ok s₁ ∧ s' = onSuper s₁
  | _, _, _ => False

/-! ## Templates of expanded classes -/

namespace ClassTable

variable {g : List String}

/-- A base clause and its expansion are lowered to one base. -/
theorem lowerBase_expand (ht : t.Resolves) (hg : ∀ n ∈ g, IsPlain n) (name : String)
    {params : TypeParams} (hp : params.Within g) {e e' : Option TypeExpr}
    (he : Option.Rel (fun a b => TypeExpr.expand t g a = .ok b) e e') :
    t.lowering.lowerBase name params e' = t.lowering.lowerBase name params e := by
  rcases rel_elim he with ⟨rfl, rfl⟩ | ⟨a, b, rfl, rfl, hab⟩
  · rfl
  · rcases TypeExpr.expand_ok hab with ⟨-, -, rfl⟩ | ⟨hn, full, args, hf, ha, hargs, rfl⟩
    · rfl
    · have hnone := TypeExpr.get?_of_notMem hp hn
      have hnone' := TypeExpr.get?_of_notMem hp (TypeExpr.notMem_full ht hg hn hf)
      have hclass : t.lowering.className a = .ok full :=
        TypeExpr.className_of_resolve? ht hf ha
      have hclass' : t.lowering.className ⟨full, args, a.span⟩ = .ok full :=
        TypeExpr.className_of_resolve? ht (ht.twice hf)
          (ha.trans (TypeExpr.length_expandAll hargs).symm)
      simp only [LoweringContext.lowerBase, hnone, hnone', LoweringContext.lowerClass, hclass,
        hclass', TypeExpr.lowerAll_expandAll ht hg hargs hp]

/-- Fields and their expansions are lowered to the same fields. -/
theorem lowerFields_expand (ht : t.Resolves) (hg : ∀ n ∈ g, IsPlain n) {params : TypeParams}
    (hp : params.Within g) {fs fs' : List FieldDecl}
    (hfs : List.Forall₂ (fun f f' => FieldDecl.expand t g f = .ok f') fs fs') :
    lowerFields t.lowering params fs' = lowerFields t.lowering params fs := by
  induction hfs with
  | nil => rfl
  | @cons f f' rest rest' hf _ ih =>
    obtain ⟨hname, hspan, hty⟩ := FieldDecl.expand_ok hf
    rw [lowerFields, lowerFields, TypeExpr.sameLowering_expand ht hg hty params hp, ih, hname, hspan]

theorem writtenParams_expand (ht : t.Resolves) (hg : ∀ n ∈ g, IsPlain n)
    {qs qs' : List Parameter}
    (hq : List.Forall₂ (fun q q' => Parameter.expand t g q = .ok q') qs qs') :
    List.Forall₂ (fun a b => b.1 = a.1 ∧ t.lowering.SameLowering g a.2 b.2)
      (Member.writtenParams qs) (Member.writtenParams qs') := by
  unfold Member.writtenParams
  induction hq with
  | nil => exact .nil
  | cons h _ ih =>
    obtain ⟨hname, hty⟩ := Parameter.expand_ok h
    exact .cons ⟨congrArg Identifier.name hname, TypeExpr.sameLowering_expand ht hg hty⟩ ih

variable {onBody : List Stmt → List Stmt} {onSuper : Option (List Expr) → Option (List Expr)}

/-- A constructor matches its expansion, whatever is done to its body. -/
theorem ofConstructor_matches (ht : t.Resolves) (hg : ∀ n ∈ g, IsPlain n) (owner : String)
    {k k' : ConstructorDecl} (hk : k.expand t g = .ok k') :
    Member.Matches t.lowering (ExpandedTo t onBody onSuper) g (.ofConstructor owner k)
      (.ofConstructor owner
        { k' with superArguments := onSuper k'.superArguments, body := onBody k'.body }) := by
  obtain ⟨parameters, superArguments, body, hp, hs, hb, rfl⟩ := ConstructorDecl.expand_ok hk
  have hv : (Member.ofConstructor owner k : Member F).visible g = g := List.append_nil g
  refine ⟨rfl, rfl, rfl, rfl, rfl, ?_, .none, ?_, rfl⟩
  · rw [hv]
    exact writtenParams_expand ht hg hp
  · rw [hv]
    exact ⟨hg, ⟨body, hb, rfl⟩, ⟨superArguments, hs, rfl⟩⟩

/-- A method matches its expansion, whatever is done to its body. -/
theorem ofMethod_matches (ht : t.Resolves) (hg : ∀ n ∈ g, IsPlain n) (hs : onSuper none = none)
    (owner : String) {m m' : MethodDecl} (hplain : ∀ n ∈ m.generics.map Identifier.name, IsPlain n)
    (hm : m.expand t g = .ok m') :
    Member.Matches t.lowering (ExpandedTo t onBody onSuper) g (.ofMethod owner m)
      (.ofMethod owner { m' with body := onBody m'.body }) := by
  obtain ⟨returnType, parameters, body, hr, hp, hb, rfl⟩ := MethodDecl.expand_ok hm
  have hvisible := MethodDecl.plain_visible hg hplain
  refine ⟨rfl, rfl, rfl, rfl, rfl, writtenParams_expand ht hvisible hp, ?_, ?_, rfl⟩
  · rcases rel_elim hr with ⟨h1, h2⟩ | ⟨a, b, h1, h2, hab⟩
    · simp only [Member.ofMethod, h1, h2]
      exact .none
    · simp only [Member.ofMethod, h1, h2]
      exact .some (TypeExpr.sameLowering_expand ht hvisible hab)
  · exact ⟨hvisible, ⟨body, hb, rfl⟩, ⟨none, rfl, hs.symm⟩⟩

/-- The template of an expanded class matches that of the class. -/
theorem declaredTemplate_expand (ht : t.Resolves) (hs : onSuper none = none) {d d' : ClassDecl}
    (hplain : d.PlainGenerics) (hd : d.expand t = .ok d') {c : Template F}
    (hc : declaredTemplate t.lowering d = .ok c) :
    ∃ c', declaredTemplate t.lowering (d'.mapBodies onBody onSuper) = .ok c' ∧
      c.Matches t.lowering (ExpandedTo t onBody onSuper) c' := by
  obtain ⟨base, fields, constructors, methods, hb, hf, hk, hm, rfl⟩ := ClassDecl.expand_ok hd
  obtain ⟨lowered, slots, hbase, hfields, rfl⟩ := declaredTemplate_ok hc
  have hwithin := TypeParams.within_unbound (d.generics.map Identifier.name)
  have hbase' := (lowerBase_expand ht hplain.own d.name.name hwithin hb).trans hbase
  have hfields' := (lowerFields_expand ht hplain.own hwithin hf).trans hfields
  refine ⟨_, declaredTemplate_eq hbase' hfields', rfl, rfl, rfl, rfl, ?_, ?_, ?_, rfl, rfl⟩
  · simp only [ClassDecl.mapBodies, List.forall₂_map_left_iff, List.forall₂_map_right_iff]
    exact hk.imp fun k k' h => ofConstructor_matches ht hplain.own _ h
  · simp only [ClassDecl.mapBodies, List.forall₂_map_left_iff, List.forall₂_map_right_iff]
    exact (forall₂_with_mem hm).imp fun m m' ⟨hmem, _, h⟩ =>
      ofMethod_matches ht hplain.own hs _ (hplain.methods m hmem) h
  · intro m hmem b s _
    obtain ⟨k, -, rfl⟩ := List.mem_map.mp hmem
    rfl

/-! ## The table of an expanded program -/

theorem forall₂_ofNative {ctx : LoweringContext} {RB : BodyRelation F}
    (hRB : ∀ g f, RB g (.native f) (.native f)) (g : List String) (owner : String)
    (ms : List (NativeMember F)) :
    List.Forall₂ (Member.Matches ctx RB g) (ms.map (Member.ofNative owner))
      (ms.map (Member.ofNative owner)) := by
  rw [List.forall₂_same]
  intro m hm
  obtain ⟨n, -, rfl⟩ := List.mem_map.mp hm
  exact Member.matches_refl (hRB _ _)

/-- Primitive and native classes match themselves. -/
theorem matches_self {ctx : LoweringContext} {RB : BodyRelation F}
    (hRB : ∀ g f, RB g (.native f) (.native f)) {natives : NativeRegistry F}
    {ws : List (Template F)}
    (hws : putAll (nativeTemplate ctx) primitiveTemplates natives.classes = .ok ws) :
    List.Forall₂ (Template.Matches ctx RB) ws ws := by
  rw [List.forall₂_same]
  intro c hc
  rcases mem_putAll hws hc with hm | ⟨n, hn, hmake⟩
  · simp only [primitiveTemplates_eq, List.mem_cons, List.not_mem_nil, or_false] at hm
    rcases hm with rfl | rfl | rfl
    · exact ⟨rfl, rfl, rfl, rfl, .nil, .nil, by simp [Template.ofPrimitive], rfl, rfl⟩
    · exact ⟨rfl, rfl, rfl, rfl, .nil, .nil, by simp [Template.ofPrimitive], rfl, rfl⟩
    · exact ⟨rfl, rfl, rfl, rfl, .nil, .nil, by simp [Template.ofPrimitive], rfl, rfl⟩
  · obtain ⟨base, -, rfl⟩ := nativeTemplate_ok hmake
    refine ⟨rfl, rfl, rfl, rfl, forall₂_ofNative hRB _ _ _, forall₂_ofNative hRB _ _ _, ?_, rfl,
      rfl⟩
    intro m hm b s hbody
    obtain ⟨n, -, rfl⟩ := List.mem_map.mp hm
    cases hbody

/-- Putting matching classes into matching lists keeps the lists matching. -/
theorem put_matches {ctx : LoweringContext} {RB : BodyRelation F} {c c' : Template F}
    (hc : c.Matches ctx RB c') {cs cs' : List (Template F)}
    (hcs : List.Forall₂ (Template.Matches ctx RB) cs cs') :
    List.Forall₂ (Template.Matches ctx RB) (put c cs) (put c' cs') := by
  refine .cons hc ?_
  rw [hc.name]
  induction hcs with
  | nil => exact .nil
  | cons hd _ ih =>
    rw [List.filter_cons, List.filter_cons, hd.name]
    split
    · exact .cons hd ih
    · exact ih

/-- So does putting in a list of classes, as long as each can be made on both sides. -/
theorem putAll_matches {ctx : LoweringContext} {RB : BodyRelation F} {α : Type}
    {make : α → Except TypeError (Template F)} {as as' : List α}
    (has : List.Forall₂ (fun a a' => ∀ c, make a = .ok c →
      ∃ c', make a' = .ok c' ∧ c.Matches ctx RB c') as as') :
    ∀ {cs cs' ds : List (Template F)}, List.Forall₂ (Template.Matches ctx RB) cs cs' →
    putAll make cs as = .ok ds →
    ∃ ds', putAll make cs' as' = .ok ds' ∧ List.Forall₂ (Template.Matches ctx RB) ds ds' := by
  induction has with
  | nil =>
    intro cs cs' ds hcs h
    cases h
    exact ⟨cs', rfl, hcs⟩
  | @cons a a' rest rest' ha _ ih =>
    intro cs cs' ds hcs h
    rw [putAll] at h
    split at h
    · cases h
    · next c hc =>
      obtain ⟨c', hc', hm⟩ := ha c hc
      rw [putAll, hc']
      exact ih (put_matches hm hcs) h

/-- Declarations of the same names and numbers of parameters give the same imports and arities. -/
theorem declaredArities_congr {ds ds' : List ClassDecl}
    (h : List.Forall₂ (fun d d' => d'.name = d.name ∧ d'.generics = d.generics) ds ds') :
    ∀ known, declaredArities known ds' = declaredArities known ds := by
  induction h with
  | nil => intro known; rfl
  | cons hd _ ih =>
    intro known
    rw [declaredArities, declaredArities, hd.1, hd.2]
    simp only [ih]

/-- Imports are built from the names and arities of the classes declared. -/
theorem imports_congr {p p' : Program} {natives : NativeRegistry F}
    (himports : p'.imports = p.imports)
    (h : List.Forall₂ (fun d d' => d'.name = d.name ∧ d'.generics = d.generics) p.classes
      p'.classes) : ImportTable.build p' natives = ImportTable.build p natives := by
  have hnames : (p'.classes.map fun c => (c.name.name, c.name.name)) =
      p.classes.map fun c => (c.name.name, c.name.name) := by
    generalize p.classes = ds, p'.classes = ds' at h
    induction h with
    | nil => rfl
    | cons hd _ ih => rw [List.map_cons, List.map_cons, ih, hd.1]
  unfold ImportTable.build
  rw [himports, hnames]

theorem checkAcyclic_congr {RB : BodyRelation F} {t' : ClassTable F} (ht : t.Matches RB t')
    {ds ds' : List ClassDecl}
    (h : List.Forall₂ (fun d d' => d'.name = d.name ∧ d'.generics = d.generics) ds ds') :
    t'.checkAcyclic ds' = t.checkAcyclic ds := by
  induction h with
  | nil => rfl
  | cons hd _ ih => rw [checkAcyclic, checkAcyclic, ht.height_eq, ht.revisits_eq, hd.1, ih]

/-- Programs whose classes have matching templates have matching tables. -/
theorem build_matches {p p' : Program} {natives : NativeRegistry F} {RB : BodyRelation F}
    (hRB : ∀ g f, RB g (.native f) (.native f)) (h : build p natives = .ok t)
    (himports : p'.imports = p.imports)
    (hnames : List.Forall₂ (fun d d' => d'.name = d.name ∧ d'.generics = d.generics) p.classes
      p'.classes)
    (hmake : List.Forall₂ (fun d d' => ∀ c, declaredTemplate t.lowering d = .ok c →
      ∃ c', declaredTemplate t.lowering d' = .ok c' ∧ c.Matches t.lowering RB c') p.classes
      p'.classes) :
    ∃ t', build p' natives = .ok t' ∧ t.Matches RB t' := by
  obtain ⟨hnatives, himp, ⟨arities, ha⟩, ⟨ws, hws, hcs⟩, hacyclic⟩ := build_ok_iff.mp h
  obtain ⟨cs', hcs', hmatch⟩ := putAll_matches hmake (matches_self hRB hws) hcs
  have ht : t.Matches RB ⟨cs', t.imports, natives⟩ := .of_classes rfl hnatives.symm hmatch
  have hlowering : (⟨cs', t.imports, natives⟩ : ClassTable F).lowering = t.lowering :=
    congrArg (LoweringContext.mk t.imports) (funext ht.arity?_eq)
  refine ⟨_, build_ok_iff.mpr ⟨rfl, ?_, ⟨arities, ?_⟩, ⟨ws, ?_, ?_⟩, ?_⟩, ht⟩
  · exact (imports_congr himports hnames).trans himp
  · exact (declaredArities_congr hnames _).trans ha
  · rw [hlowering]
    exact hws
  · rw [hlowering]
    exact hcs'
  · exact (checkAcyclic_congr ht hnames).trans hacyclic

/-- The table of an expanded program, its bodies changed in any way, matches that of the program. -/
theorem build_expanded {p p' : Program} {natives : NativeRegistry F}
    (h : build p natives = .ok t) (ht : t.Resolves) (hplain : p.PlainGenerics)
    (onBody : List Stmt → List Stmt) {onSuper : Option (List Expr) → Option (List Expr)}
    (hs : onSuper none = none) (hp : p.expand t = .ok p') :
    ∃ t', build { p' with classes := p'.classes.map (ClassDecl.mapBodies onBody onSuper) } natives =
      .ok t' ∧ t.Matches (ExpandedTo t onBody onSuper) t' := by
  obtain ⟨classes, hc, rfl⟩ := Program.expand_ok hp
  refine build_matches (fun _ _ => rfl) h rfl ?_ ?_
  · rw [List.forall₂_map_right_iff]
    refine hc.imp fun d d' hd => ?_
    obtain ⟨base, fields, constructors, methods, -, -, -, -, rfl⟩ := ClassDecl.expand_ok hd
    exact ⟨rfl, rfl⟩
  · rw [List.forall₂_map_right_iff]
    exact (forall₂_with_mem hc).imp fun d d' ⟨hmem, _, hd⟩ _ hmade =>
      declaredTemplate_expand ht hs (hplain d hmem) hd hmade

end ClassTable

/-! ## The standard library -/

/-- The standard classes have dotted names, none with the simple name of a primitive. -/
theorem NativeRegistry.standard_wellNamed : NativeRegistry.standard.WellNamed where
  leavesPrimitives := by
    have h : ∀ c ∈ NativeRegistry.standard.classes, Primitive.ofName? c.name = none := by
      decide +kernel
    exact h
  dotted := by decide +kernel

end Middleweight
