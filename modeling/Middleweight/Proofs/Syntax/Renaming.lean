import Mathlib.Logic.Equiv.Basic
import Middleweight.Proofs.Syntax.Retyped
import Middleweight.Proofs.Types.Renaming

/-!
# Renaming a generic parameter of a method

The name of a generic parameter stands among the parameters of its method and wherever a type in the
method names it: in the types of the method's parameters, in its return type, and in its body. A
renaming replaces it in all these places. A name that a program does not mention at all is free for
that.

* `MethodDecl.renameGeneric`, `Program.renameGeneric` : one parameter of one method gets another name
* `Program.names`, `Program.parameterNames` : the names that a program mentions, and those of its
  parameters
* `Program.Renamed` : programs that differ in the names of parameters of methods
* `Program.renamed_renameGeneric` : one parameter gets a name of its own
-/

namespace Middleweight

/-! ## Renaming -/

namespace TypeExpr

mutual

/-- A written type with other names. -/
def rename (f : String → String) : TypeExpr → TypeExpr
  | ⟨name, args, span⟩ => ⟨f name, renameAll f args, span⟩

def renameAll (f : String → String) : List TypeExpr → List TypeExpr
  | [] => []
  | t :: rest => t.rename f :: renameAll f rest

end

end TypeExpr

namespace Expr

mutual

/-- An expression with other names in its types. -/
def renameTypes (f : String → String) : Expr → Expr
  | literal value span => literal value span
  | var name => var name
  | binary lhs op rhs span => binary (lhs.renameTypes f) op (rhs.renameTypes f) span
  | unary op operand span => unary op (operand.renameTypes f) span
  | step op before target span => step op before (target.renameTypes f) span
  | ternary condition thenValue elseValue span =>
    ternary (condition.renameTypes f) (thenValue.renameTypes f) (elseValue.renameTypes f) span
  | new ty arguments span => new (ty.rename f) (renameTypesIn f arguments) span
  | field receiver name span => field (receiver.renameTypes f) name span
  | call receiver method arguments span =>
    call (receiver.renameTypes f) method (renameTypesIn f arguments) span
  | cast ty e span => cast (ty.rename f) (e.renameTypes f) span
  | instanceOf e ty span => instanceOf (e.renameTypes f) (ty.rename f) span
  | group e span => group (e.renameTypes f) span

def renameTypesIn (f : String → String) : List Expr → List Expr
  | [] => []
  | e :: rest => e.renameTypes f :: renameTypesIn f rest

end

end Expr

namespace Stmt

mutual

/-- A statement with other names in its types. -/
def renameTypes (f : String → String) : Stmt → Stmt
  | localVariable ty name value span =>
    localVariable (ty.rename f) name (value.map (Expr.renameTypes f)) span
  | assign target op value span => assign target op (value.renameTypes f) span
  | fieldAssign receiver field op value span =>
    fieldAssign (receiver.renameTypes f) field op (value.renameTypes f) span
  | expression e span => expression (e.renameTypes f) span
  | ifElse condition thenBranch none span =>
    ifElse (condition.renameTypes f) (renameTypesIn f thenBranch) none span
  | ifElse condition thenBranch (some elseBranch) span =>
    ifElse (condition.renameTypes f) (renameTypesIn f thenBranch)
      (some (renameTypesIn f elseBranch)) span
  | whileLoop condition body span => whileLoop (condition.renameTypes f) (renameTypesIn f body) span
  | forLoop init condition update body span =>
    forLoop (init.renameTypes f) (condition.renameTypes f) (update.renameTypes f)
      (renameTypesIn f body) span
  | returns value span => returns (value.map (Expr.renameTypes f)) span
  | block statements span => block (renameTypesIn f statements) span

def renameTypesIn (f : String → String) : List Stmt → List Stmt
  | [] => []
  | s :: rest => s.renameTypes f :: renameTypesIn f rest

end

end Stmt

/-- A method with another name for one of its generic parameters. -/
def MethodDecl.renameGeneric (old new : String) (m : MethodDecl) : MethodDecl :=
  let f := fun name => if name = old then new else name
  { m with
    generics := m.generics.map fun g => { g with name := f g.name }
    returnType := m.returnType.map (TypeExpr.rename f)
    parameters := m.parameters.map fun p => { p with ty := p.ty.rename f }
    body := Stmt.renameTypesIn f m.body }

/-- A program with another name for a generic parameter of a method, by the places of both. -/
def Program.renameGeneric (p : Program) (classIndex methodIndex : Nat) (old new : String) : Program :=
  { p with
    classes := p.classes.modify classIndex fun c =>
      { c with methods := c.methods.modify methodIndex (MethodDecl.renameGeneric old new) } }

/-! ## Names -/

mutual

/-- The names in a written type. -/
def TypeExpr.names : TypeExpr → List String
  | ⟨name, args, _⟩ => name :: TypeExpr.allNames args

def TypeExpr.allNames : List TypeExpr → List String
  | [] => []
  | t :: rest => t.names ++ TypeExpr.allNames rest

end

mutual

/-- The names in an expression. -/
def Expr.names : Expr → List String
  | .literal _ _ => []
  | .var name => [name.name]
  | .binary lhs _ rhs _ => lhs.names ++ rhs.names
  | .unary _ e _ | .step _ _ e _ | .group e _ => e.names
  | .ternary c a b _ => c.names ++ a.names ++ b.names
  | .new ty args _ => ty.names ++ Expr.allNames args
  | .field e name _ => e.names ++ [name.name]
  | .call e name args _ => e.names ++ name.name :: Expr.allNames args
  | .cast ty e _ | .instanceOf e ty _ => ty.names ++ e.names

def Expr.allNames : List Expr → List String
  | [] => []
  | e :: rest => e.names ++ Expr.allNames rest

end

mutual

/-- The names in a statement. -/
def Stmt.names : Stmt → List String
  | .localVariable ty name value _ => ty.names ++ name.name :: (value.map Expr.names).getD []
  | .assign target _ e _ => target.name :: e.names
  | .fieldAssign receiver name _ e _ => receiver.names ++ name.name :: e.names
  | .expression e _ => e.names
  | .ifElse c body none _ => c.names ++ Stmt.allNames body
  | .ifElse c body (some other) _ => c.names ++ Stmt.allNames body ++ Stmt.allNames other
  | .whileLoop c body _ => c.names ++ Stmt.allNames body
  | .forLoop init c update body _ => init.names ++ c.names ++ update.names ++ Stmt.allNames body
  | .returns e _ => (e.map Expr.names).getD []
  | .block body _ => Stmt.allNames body

def Stmt.allNames : List Stmt → List String
  | [] => []
  | s :: rest => s.names ++ Stmt.allNames rest

end

/-- The names that a parameter mentions, its own and those of its type. -/
def Parameter.names (p : Parameter) : List String := p.name.name :: p.ty.names

/-- The names that a constructor mentions. -/
def ConstructorDecl.names (k : ConstructorDecl) : List String :=
  k.parameters.flatMap Parameter.names ++ Expr.allNames (k.superArguments.getD []) ++
    Stmt.allNames k.body

/-- The names that a method mentions, its generic parameters among them. -/
def MethodDecl.names (m : MethodDecl) : List String :=
  m.name.name :: m.generics.map Identifier.name ++ (m.returnType.map TypeExpr.names).getD [] ++
    m.parameters.flatMap Parameter.names ++ Stmt.allNames m.body

/-- The names that a class mentions, its generic parameters among them. -/
def ClassDecl.names (c : ClassDecl) : List String :=
  c.name.name :: c.generics.map Identifier.name ++ (c.base.map TypeExpr.names).getD [] ++
    c.fields.flatMap (fun f => f.name.name :: f.ty.names) ++
    c.constructors.flatMap ConstructorDecl.names ++ c.methods.flatMap MethodDecl.names

/-- The names that a program mentions, in its imports and in its classes. -/
def Program.names (p : Program) : List String :=
  p.imports.flatMap (fun i => i.dotted :: i.path.map Identifier.name) ++
    p.classes.flatMap ClassDecl.names

/-- The names of the generic parameters of a class and of its methods. -/
def ClassDecl.parameterNames (c : ClassDecl) : List String :=
  c.generics.map Identifier.name ++ c.methods.flatMap fun m => m.generics.map Identifier.name

/-- The names of all generic parameters in a program. -/
def Program.parameterNames (p : Program) : List String := p.classes.flatMap ClassDecl.parameterNames

/-! ## Programs that follow a renaming -/

/-- A method of a class with given parameters, and the same with other names for its own. -/
structure MethodDecl.Renamed (σ : String → String) (g : List String) (m m' : MethodDecl) :
    Prop where
  name : m'.name = m.name
  isStatic : m'.isStatic = m.isStatic
  span : m'.span = m.span
  generics : m'.generics.map Identifier.name = (m.generics.map Identifier.name).map σ
  returnType : Option.Rel (TypeExpr.Follows σ (m.visibleGenerics g)) m.returnType m'.returnType
  parameters : List.Forall₂
    (fun q q' => q'.name = q.name ∧ q.ty.Follows σ (m.visibleGenerics g) q'.ty)
    m.parameters m'.parameters
  body : Stmt.AllRetyped (TypeExpr.Follows σ (m.visibleGenerics g)) m.body m'.body

/-- A class, and the same with other names for the parameters of its methods; its own stay. -/
structure ClassDecl.Renamed (σ : String → String) (c c' : ClassDecl) : Prop where
  eq : c' = { c with methods := c'.methods }
  fixed : ∀ n ∈ c.generics.map Identifier.name, σ n = n
  methods : List.Forall₂ (MethodDecl.Renamed σ (c.generics.map Identifier.name)) c.methods
    c'.methods

/-- A program, and the same with other names for the parameters of its methods. -/
structure Program.Renamed (σ : String → String) (p p' : Program) : Prop where
  eq : p' = { p with classes := p'.classes }
  classes : List.Forall₂ (ClassDecl.Renamed σ) p.classes p'.classes

variable {σ : String → String} {g : List String}

theorem MethodDecl.visibleGenerics_fixed {m : MethodDecl} (hg : ∀ n ∈ g, σ n = n)
    (hm : ∀ n ∈ m.generics.map Identifier.name, σ n = n) : ∀ n ∈ m.visibleGenerics g, σ n = n := by
  intro n hn
  unfold visibleGenerics at hn
  rcases List.mem_append.mp hn with hn | hn
  · split at hn
    · cases hn
    · exact hg n hn
  · exact hm n hn

/-- A method whose parameters keep their names stays. -/
theorem MethodDecl.renamed_self {m : MethodDecl} (hg : ∀ n ∈ g, σ n = n)
    (hm : ∀ n ∈ m.generics.map Identifier.name, σ n = n) : m.Renamed σ g m where
  name := rfl
  isStatic := rfl
  span := rfl
  generics := (map_eq_self hm).symm
  returnType := by
    cases m.returnType with
    | none => exact .none
    | some e => exact .some (TypeExpr.follows_of_fixed (visibleGenerics_fixed hg hm) e)
  parameters := List.forall₂_same.mpr fun q _ =>
    ⟨rfl, TypeExpr.follows_of_fixed (visibleGenerics_fixed hg hm) q.ty⟩
  body := Stmt.allRetyped_refl (TypeExpr.follows_of_fixed (visibleGenerics_fixed hg hm)) m.body

/-! ## One parameter of one method -/

section Replacing

variable {old new : String}

/-- A name, the new one in place of the old one. -/
def replaced (old new name : String) : String := if name = old then new else name

theorem nameFollows_replaced (hold : old ∈ g) {n : String} (hn : n ≠ new) :
    NameFollows (Equiv.swap old new) g n (replaced old new n) := by
  unfold replaced
  split
  · next heq => exact .inl ⟨heq ▸ hold, by rw [heq, Equiv.swap_apply_left]⟩
  · next hne =>
    have hfix : Equiv.swap old new n = n := Equiv.swap_apply_of_ne_of_ne hne hn
    exact nameFollows_self (Equiv.swap old new).injective g hfix

namespace TypeExpr

mutual

/-- A type that does not mention the new name follows the renaming. -/
theorem follows_rename (hold : old ∈ g) : ∀ {e : TypeExpr}, new ∉ e.names →
    e.Follows (Equiv.swap old new) g (e.rename (replaced old new))
  | ⟨n, args, span⟩, h => by
    rw [names, List.mem_cons, not_or] at h
    rw [rename]
    exact .mk span (nameFollows_replaced hold (Ne.symm h.1)) (allFollow_renameAll hold h.2)

theorem allFollow_renameAll (hold : old ∈ g) : ∀ {es : List TypeExpr}, new ∉ allNames es →
    AllFollow (Equiv.swap old new) g es (renameAll (replaced old new) es)
  | [], _ => by
    rw [renameAll]
    exact .nil
  | e :: rest, h => by
    rw [allNames, List.mem_append, not_or] at h
    rw [renameAll]
    exact .cons (follows_rename hold h.1) (allFollow_renameAll hold h.2)

end

end TypeExpr

variable {R : TypeExpr → TypeExpr → Prop} {f : String → String}

namespace Expr

mutual

/-- Renaming changes the types of an expression only. -/
theorem retyped_renameTypes (hR : ∀ ty : TypeExpr, new ∉ ty.names → R ty (ty.rename f)) :
    ∀ {e : Expr}, new ∉ e.names → e.Retyped R (e.renameTypes f)
  | literal value span, _ => by
    rw [renameTypes]
    exact .literal value span
  | var name, _ => by
    rw [renameTypes]
    exact .var name
  | binary lhs op rhs span, h => by
    rw [names, List.mem_append, not_or] at h
    rw [renameTypes]
    exact .binary op span (retyped_renameTypes hR h.1) (retyped_renameTypes hR h.2)
  | unary op e span, h => by
    rw [names] at h
    rw [renameTypes]
    exact .unary op span (retyped_renameTypes hR h)
  | step op before e span, h => by
    rw [names] at h
    rw [renameTypes]
    exact .step op before span (retyped_renameTypes hR h)
  | ternary c a b span, h => by
    rw [names, List.mem_append, List.mem_append, not_or, not_or] at h
    rw [renameTypes]
    exact .ternary span (retyped_renameTypes hR h.1.1) (retyped_renameTypes hR h.1.2)
      (retyped_renameTypes hR h.2)
  | .new ty args span, h => by
    rw [names, List.mem_append, not_or] at h
    rw [renameTypes]
    exact .new span (hR ty h.1) (allRetyped_renameTypesIn hR h.2)
  | field e name span, h => by
    rw [names, List.mem_append, not_or] at h
    rw [renameTypes]
    exact .field name span (retyped_renameTypes hR h.1)
  | call e method args span, h => by
    rw [names, List.mem_append, List.mem_cons, not_or, not_or] at h
    rw [renameTypes]
    exact .call method span (retyped_renameTypes hR h.1) (allRetyped_renameTypesIn hR h.2.2)
  | cast ty e span, h => by
    rw [names, List.mem_append, not_or] at h
    rw [renameTypes]
    exact .cast span (hR ty h.1) (retyped_renameTypes hR h.2)
  | instanceOf e ty span, h => by
    rw [names, List.mem_append, not_or] at h
    rw [renameTypes]
    exact .instanceOf span (hR ty h.1) (retyped_renameTypes hR h.2)
  | group e span, h => by
    rw [names] at h
    rw [renameTypes]
    exact .group span (retyped_renameTypes hR h)

theorem allRetyped_renameTypesIn (hR : ∀ ty : TypeExpr, new ∉ ty.names → R ty (ty.rename f)) :
    ∀ {es : List Expr}, new ∉ allNames es → AllRetyped R es (renameTypesIn f es)
  | [], _ => by
    rw [renameTypesIn]
    exact .nil
  | e :: rest, h => by
    rw [allNames, List.mem_append, not_or] at h
    rw [renameTypesIn]
    exact .cons (retyped_renameTypes hR h.1) (allRetyped_renameTypesIn hR h.2)

end

theorem retypedOption_renameTypes (hR : ∀ ty : TypeExpr, new ∉ ty.names → R ty (ty.rename f)) :
    ∀ {e : Option Expr}, new ∉ (e.map names).getD [] →
      Option.Rel (Retyped R) e (e.map (renameTypes f))
  | none, _ => .none
  | some _, h => .some (retyped_renameTypes hR h)

end Expr

namespace Stmt

mutual

/-- Renaming changes the types of a statement only. -/
theorem retyped_renameTypes (hR : ∀ ty : TypeExpr, new ∉ ty.names → R ty (ty.rename f)) :
    ∀ {s : Stmt}, new ∉ s.names → s.Retyped R (s.renameTypes f)
  | localVariable ty name value span, h => by
    rw [names, List.mem_append, List.mem_cons, not_or, not_or] at h
    rw [renameTypes]
    exact .localVariable name span (hR ty h.1) (Expr.retypedOption_renameTypes hR h.2.2)
  | assign target op e span, h => by
    rw [names, List.mem_cons, not_or] at h
    rw [renameTypes]
    exact .assign target op span (Expr.retyped_renameTypes hR h.2)
  | fieldAssign receiver name op e span, h => by
    rw [names, List.mem_append, List.mem_cons, not_or, not_or] at h
    rw [renameTypes]
    exact .fieldAssign name op span (Expr.retyped_renameTypes hR h.1)
      (Expr.retyped_renameTypes hR h.2.2)
  | expression e span, h => by
    rw [names] at h
    rw [renameTypes]
    exact .expression span (Expr.retyped_renameTypes hR h)
  | ifElse c a none span, h => by
    rw [names, List.mem_append, not_or] at h
    rw [renameTypes]
    exact .ifThen span (Expr.retyped_renameTypes hR h.1) (allRetyped_renameTypesIn hR h.2)
  | ifElse c a (some b) span, h => by
    rw [names, List.mem_append, List.mem_append, not_or, not_or] at h
    rw [renameTypes]
    exact .ifElse span (Expr.retyped_renameTypes hR h.1.1) (allRetyped_renameTypesIn hR h.1.2)
      (allRetyped_renameTypesIn hR h.2)
  | whileLoop c body span, h => by
    rw [names, List.mem_append, not_or] at h
    rw [renameTypes]
    exact .whileLoop span (Expr.retyped_renameTypes hR h.1) (allRetyped_renameTypesIn hR h.2)
  | forLoop init c update body span, h => by
    rw [names, List.mem_append, List.mem_append, List.mem_append, not_or, not_or, not_or] at h
    rw [renameTypes]
    exact .forLoop span (retyped_renameTypes hR h.1.1.1) (Expr.retyped_renameTypes hR h.1.1.2)
      (retyped_renameTypes hR h.1.2) (allRetyped_renameTypesIn hR h.2)
  | returns value span, h => by
    rw [names] at h
    rw [renameTypes]
    exact .returns span (Expr.retypedOption_renameTypes hR h)
  | block body span, h => by
    rw [names] at h
    rw [renameTypes]
    exact .block span (allRetyped_renameTypesIn hR h)

theorem allRetyped_renameTypesIn (hR : ∀ ty : TypeExpr, new ∉ ty.names → R ty (ty.rename f)) :
    ∀ {ss : List Stmt}, new ∉ allNames ss → AllRetyped R ss (renameTypesIn f ss)
  | [], _ => by
    rw [renameTypesIn]
    exact .nil
  | s :: rest, h => by
    rw [allNames, List.mem_append, not_or] at h
    rw [renameTypesIn]
    exact .cons (retyped_renameTypes hR h.1) (allRetyped_renameTypesIn hR h.2)

end

end Stmt

/-- A method follows when one of its parameters gets a name that the method does not mention. -/
theorem MethodDecl.renamed_renameGeneric {m : MethodDecl}
    (hold : old ∈ m.generics.map Identifier.name) (hnew : new ∉ m.names) :
    m.Renamed (Equiv.swap old new) g (m.renameGeneric old new) := by
  simp only [names, List.mem_append, List.mem_cons, not_or, List.mem_flatMap, not_exists,
    not_and] at hnew
  obtain ⟨⟨⟨⟨-, hgenerics⟩, hreturn⟩, hparameters⟩, hbody⟩ := hnew
  have hvisible : old ∈ m.visibleGenerics g := List.mem_append_right _ hold
  have hfollows : ∀ ty : TypeExpr, new ∉ ty.names →
      ty.Follows (Equiv.swap old new) (m.visibleGenerics g) (ty.rename (replaced old new)) :=
    fun ty => TypeExpr.follows_rename hvisible
  refine ⟨rfl, rfl, rfl, ?_, ?_, ?_, Stmt.allRetyped_renameTypesIn hfollows hbody⟩
  · show (m.generics.map fun k => { k with name := replaced old new k.name }).map Identifier.name =
      (m.generics.map Identifier.name).map (Equiv.swap old new)
    rw [List.map_map, List.map_map]
    refine List.map_congr_left fun k hk => ?_
    show replaced old new k.name = Equiv.swap old new k.name
    have hne : k.name ≠ new := fun heq => hgenerics (heq ▸ List.mem_map.mpr ⟨k, hk, rfl⟩)
    unfold replaced
    split
    · next heq => rw [heq, Equiv.swap_apply_left]
    · next hne' => rw [Equiv.swap_apply_of_ne_of_ne hne' hne]
  · show Option.Rel _ m.returnType (m.returnType.map (TypeExpr.rename (replaced old new)))
    cases hty : m.returnType with
    | none => exact .none
    | some ty =>
      rw [hty] at hreturn
      exact .some (hfollows ty hreturn)
  · show List.Forall₂ _ m.parameters
      (m.parameters.map fun q => { q with ty := q.ty.rename (replaced old new) })
    rw [List.forall₂_map_right_iff]
    refine List.forall₂_same.mpr fun q hq => ⟨rfl, hfollows q.ty fun hm => hparameters q hq ?_⟩
    exact List.mem_cons_of_mem _ hm

/-! ## Places -/

section Places

variable {α β : Type} {l : List α} {i : Nat} {a : α}

/-- A list and the same with one of its members changed. -/
theorem forall₂_self_modify {R : α → α → Prop} {f : α → α} (ha : l[i]? = some a) (hf : R a (f a))
    (hrest : ∀ k b, k ≠ i → l[k]? = some b → R b b) : List.Forall₂ R l (l.modify i f) := by
  induction l generalizing i with
  | nil => cases ha
  | cons x rest ih =>
    cases i with
    | zero =>
      cases ha
      refine .cons hf (List.forall₂_same.mpr fun b hb => ?_)
      obtain ⟨k, hk⟩ := List.getElem?_of_mem hb
      exact hrest (k + 1) b (Nat.succ_ne_zero k) hk
    | succ i =>
      refine .cons (hrest 0 x (Nat.succ_ne_zero i).symm rfl) (ih ha fun k b hk hb => ?_)
      exact hrest (k + 1) b (fun heq => hk (Nat.succ.inj heq)) hb

/-- What stands once in the lists of all members stands once in the list of one of them. -/
theorem count_of_count_flatMap [BEq β] [LawfulBEq β] {f : α → List β} {b : β}
    (ha : l[i]? = some a) (hb : b ∈ f a) (hcount : (l.flatMap f).count b = 1) :
    (f a).count b = 1 ∧ ∀ k c, k ≠ i → l[k]? = some c → b ∉ f c := by
  induction l generalizing i with
  | nil => cases ha
  | cons x rest ih =>
    rw [List.flatMap_cons, List.count_append] at hcount
    cases i with
    | zero =>
      cases ha
      have hone : 0 < (f a).count b := List.count_pos_iff.mpr hb
      have hnone : (rest.flatMap f).count b = 0 := by omega
      refine ⟨by omega, fun k c hk hc hmem => ?_⟩
      cases k with
      | zero => exact hk rfl
      | succ k =>
        have hc : c ∈ rest := List.mem_of_getElem? hc
        exact List.count_eq_zero.mp hnone (List.mem_flatMap.mpr ⟨c, hc, hmem⟩)
    | succ i =>
      have ha' : a ∈ rest := List.mem_of_getElem? (i := i) ha
      have hpos : 0 < (rest.flatMap f).count b :=
        List.count_pos_iff.mpr (List.mem_flatMap.mpr ⟨a, ha', hb⟩)
      have hx : (f x).count b = 0 := by omega
      obtain ⟨hone, hothers⟩ := ih ha (by omega)
      refine ⟨hone, fun k c hk hc => ?_⟩
      cases k with
      | zero =>
        cases hc
        exact List.count_eq_zero.mp hx
      | succ k => exact hothers k c (fun heq => hk (congrArg _ heq)) hc

end Places

/--
A program follows when a parameter of one of its methods, whose name no other parameter has, gets a
name that the program does not mention.
-/
theorem Program.renamed_renameGeneric {p : Program} {i j : Nat} {c : ClassDecl} {m : MethodDecl}
    (hc : p.classes[i]? = some c) (hm : c.methods[j]? = some m)
    (hold : old ∈ m.generics.map Identifier.name) (honce : p.parameterNames.count old = 1)
    (hnew : new ∉ p.names) : p.Renamed (Equiv.swap old new) (p.renameGeneric i j old new) := by
  have hfixed : ∀ {g : List String}, old ∉ g → new ∉ g → ∀ n ∈ g, Equiv.swap old new n = n :=
    fun ho hn n h => Equiv.swap_apply_of_ne_of_ne (fun heq => ho (heq ▸ h)) fun heq => hn (heq ▸ h)
  have hmem : old ∈ c.methods.flatMap fun m => m.generics.map Identifier.name :=
    List.mem_flatMap.mpr ⟨m, List.mem_of_getElem? hm, hold⟩
  obtain ⟨hinside, houtside⟩ :=
    count_of_count_flatMap hc (List.mem_append_right _ hmem) honce
  -- Inside the class, only the method has a parameter of this name.
  rw [ClassDecl.parameterNames, List.count_append] at hinside
  have hpos := List.count_pos_iff.mpr hmem
  have hzero : (c.generics.map Identifier.name).count old = 0 := by omega
  have hclass : old ∉ c.generics.map Identifier.name := List.count_eq_zero.mp hzero
  have hone : (c.methods.flatMap fun m => m.generics.map Identifier.name).count old = 1 := by omega
  obtain ⟨-, hmethods⟩ := count_of_count_flatMap hm hold hone
  have hunknown : ∀ d ∈ p.classes, new ∉ d.names := fun d hd hn =>
    hnew (List.mem_append_right _ (List.mem_flatMap.mpr ⟨d, hd, hn⟩))
  have hgenerics : ∀ d ∈ p.classes, new ∉ d.generics.map Identifier.name := fun d hd hn =>
    hunknown d hd (by simp only [ClassDecl.names, List.mem_append, List.mem_cons]; tauto)
  have hmethod : ∀ d ∈ p.classes, ∀ m ∈ d.methods, new ∉ m.names := fun d hd m hm hn =>
    hunknown d hd (List.mem_append_right _ (List.mem_flatMap.mpr ⟨m, hm, hn⟩))
  have hown : ∀ d ∈ p.classes, ∀ m ∈ d.methods, new ∉ m.generics.map Identifier.name :=
    fun d hd m hm hn => hmethod d hd m hm
      (by simp only [MethodDecl.names, List.mem_append, List.mem_cons]; tauto)
  refine ⟨rfl, forall₂_self_modify hc ⟨rfl, ?_, ?_⟩ fun k d hk hd => ⟨rfl, ?_, ?_⟩⟩
  · exact hfixed hclass (hgenerics c (List.mem_of_getElem? hc))
  · have hc' := List.mem_of_getElem? hc
    refine forall₂_self_modify hm
      (MethodDecl.renamed_renameGeneric hold (hmethod c hc' m (List.mem_of_getElem? hm)))
      fun k n hk hn => ?_
    exact MethodDecl.renamed_self (hfixed hclass (hgenerics c hc'))
      (hfixed (hmethods k n hk hn) (hown c hc' n (List.mem_of_getElem? hn)))
  · have hd' := List.mem_of_getElem? hd
    exact hfixed (fun hn => houtside k d hk hd (List.mem_append_left _ hn)) (hgenerics d hd')
  · have hd' := List.mem_of_getElem? hd
    have ho : ∀ n ∈ d.methods, old ∉ n.generics.map Identifier.name := fun n hn ho =>
      houtside k d hk hd (List.mem_append_right _ (List.mem_flatMap.mpr ⟨n, hn, ho⟩))
    refine List.forall₂_same.mpr fun n hn => MethodDecl.renamed_self ?_ ?_
    · exact hfixed (fun hn => houtside k d hk hd (List.mem_append_left _ hn)) (hgenerics d hd')
    · exact hfixed (ho n hn) (hown d hd' n hn)

end Replacing

end Middleweight
