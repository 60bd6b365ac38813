import Mathlib.Logic.Function.Basic
import Middleweight.Proofs.Basic
import Middleweight.Types.Binding
import Middleweight.Syntax.Basic

/-!
# Other names for parameters

The names of generic parameters are replaced by others, different ones by different ones. Whatever
is done with types is done with the renamed types in the same way: resolving, comparing, reading
bindings off arguments and putting them in. A written type follows a renaming when it names the
renamed parameters where another one names parameters, and the same classes elsewhere.

* `Ty.same_rename`, `Ty.substitute_rename`, `Bindings.infer_rename` : what is done with types
* `TypeParams.get?_rename` : what a name stands for
* `TypeExpr.Follows` : written types that follow a renaming
-/

namespace Middleweight

variable {σ : String → String}

/-! ## Types -/

namespace Ty

mutual

/-- A type with other names for its parameters. -/
def rename (σ : String → String) : Ty → Ty
  | cls n args => cls n (renameAll σ args)
  | unbound n => unbound (σ n)
  | bound n t => bound (σ n) (rename σ t)

def renameAll (σ : String → String) : List Ty → List Ty
  | [] => []
  | t :: rest => rename σ t :: renameAll σ rest

end

@[simp] theorem rename_cls (n : String) (args : List Ty) :
    (cls n args).rename σ = cls n (renameAll σ args) := by rw [rename]

@[simp] theorem rename_unbound (n : String) : (unbound n).rename σ = unbound (σ n) := by rw [rename]

@[simp] theorem rename_bound (n : String) (t : Ty) :
    (bound n t).rename σ = bound (σ n) (t.rename σ) := by rw [rename]

@[simp] theorem rename_named (n : String) : (named n).rename σ = named n := by
  rw [named, rename_cls, renameAll]

@[simp] theorem renameAll_nil : renameAll σ [] = [] := by rw [renameAll]

@[simp] theorem renameAll_cons (t : Ty) (ts : List Ty) :
    renameAll σ (t :: ts) = t.rename σ :: renameAll σ ts := by rw [renameAll]

theorem renameAll_eq_map (ts : List Ty) : renameAll σ ts = ts.map (rename σ) := by
  induction ts with
  | nil => rw [renameAll_nil]; rfl
  | cons t rest ih => rw [renameAll_cons, ih]; rfl

@[simp] theorem length_renameAll (ts : List Ty) : (renameAll σ ts).length = ts.length := by
  rw [renameAll_eq_map, List.length_map]

@[simp] theorem isNull_rename (t : Ty) : (t.rename σ).isNull = t.isNull := by
  cases t <;> simp [isNull, isClass]

/-- What a chain of bound parameters ends in is renamed with it. -/
theorem head_rename (t : Ty) : (t.rename σ).head = t.head.rename σ := by
  induction t using Ty.rec (motive_2 := fun _ => True) with
  | cls n args => rw [rename_cls, head, head, rename_cls] <;> simp
  | unbound n => rw [rename_unbound, head, head, rename_unbound] <;> simp
  | bound n t ih => rw [rename_bound, head, head, ih]
  | nil => trivial
  | cons _ _ _ _ => trivial

mutual

/--
Resolving a type replaces bound parameters by what they are bound to and keeps names, so renaming
before or after it is the same.
-/
theorem resolved_rename : ∀ t : Ty, (t.rename σ).resolved = t.resolved.rename σ
  | cls n args => by rw [rename_cls, resolved, resolved, rename_cls, resolvedAll_renameAll args]
  | unbound n => by rw [rename_unbound, resolved, resolved, rename_unbound]
  | bound n t => by rw [rename_bound, resolved, resolved, resolved_rename t]

theorem resolvedAll_renameAll : ∀ ts : List Ty,
    resolvedAll (renameAll σ ts) = renameAll σ (resolvedAll ts)
  | [] => by rw [renameAll_nil, resolvedAll, renameAll_nil]
  | t :: rest => by
    rw [renameAll_cons, resolvedAll, resolvedAll, renameAll_cons, resolved_rename t,
      resolvedAll_renameAll rest]

end

mutual

/-- Types are the same as before when different names stay different. -/
theorem same_rename (hσ : σ.Injective) : ∀ a b : Ty, (a.rename σ).same (b.rename σ) = a.same b
  | cls n args, cls m brgs => by
    rw [rename_cls, rename_cls, same, same, sameAll_renameAll hσ args brgs]
  | unbound n, unbound m => by simp [same, hσ.beq_eq]
  | unbound n, bound m u => by simp [same, hσ.beq_eq]
  | bound n t, unbound m => by simp [same, hσ.beq_eq]
  | bound n t, bound m u => by simp [same, hσ.beq_eq]
  | cls n args, unbound m => by simp [same]
  | cls n args, bound m u => by simp [same]
  | unbound n, cls m brgs => by simp [same]
  | bound n t, cls m brgs => by simp [same]

theorem sameAll_renameAll (hσ : σ.Injective) : ∀ as bs : List Ty,
    sameAll (renameAll σ as) (renameAll σ bs) = sameAll as bs
  | [], [] => by simp [sameAll]
  | [], _ :: _ => by simp [sameAll]
  | _ :: _, [] => by simp [sameAll]
  | a :: as, b :: bs => by
    rw [renameAll_cons, renameAll_cons, sameAll, sameAll, same_rename hσ a b,
      sameAll_renameAll hσ as bs]

end

end Ty

/-- A class type with other names for the parameters in its arguments. -/
def ClassTy.rename (σ : String → String) (c : ClassTy) : ClassTy := ⟨c.name, Ty.renameAll σ c.args⟩

@[simp] theorem ClassTy.name_rename (c : ClassTy) : (c.rename σ).name = c.name := rfl

@[simp] theorem ClassTy.args_rename (c : ClassTy) : (c.rename σ).args = Ty.renameAll σ c.args := rfl

theorem ClassTy.toTy_rename (c : ClassTy) : (c.rename σ).toTy = c.toTy.rename σ := by
  rw [toTy, toTy, Ty.rename_cls]
  rfl

/-! ## Parameters in scope, and bindings -/

/-- Parameters with other names, and with other names for the parameters in what they stand for. -/
def TypeParams.rename (σ : String → String) (params : TypeParams) : TypeParams :=
  params.map fun e => (σ e.1, e.2.rename σ)

/-- Bindings of parameters with other names. -/
def Bindings.rename (σ : String → String) (b : Bindings) : Bindings :=
  b.map fun e => (σ e.1, e.2.rename σ)

/--
A list of entries is looked up under the new name where it was under the old, as `σ` is injective.
-/
theorem lookup_map_rename (hσ : σ.Injective) (es : List (String × Ty)) (n : String) :
    (es.map fun e => (σ e.1, e.2.rename σ)).lookup (σ n) = (es.lookup n).map (Ty.rename σ) := by
  induction es with
  | nil => rfl
  | cons e rest ih =>
    obtain ⟨k, t⟩ := e
    rw [List.map_cons, List.lookup_cons, List.lookup_cons, ih, hσ.beq_eq]
    cases n == k <;> rfl

namespace TypeParams

variable {params : TypeParams} {g : List String}

/-- The parameters in scope are those of some names. -/
def Named (params : TypeParams) (g : List String) : Prop := ∀ n, n ∈ params.map Prod.fst ↔ n ∈ g

/-- A method adds its own parameters to those of its class, both as unbound. -/
theorem Named.pushUnbound (h : params.Named g) (names : List String) :
    (params.pushUnbound names).Named (g ++ names) := by
  unfold TypeParams.pushUnbound
  induction names generalizing params g with
  | nil => simpa using h
  | cons n rest ih =>
    have hstep : TypeParams.Named ((n, Ty.unbound n) :: params) (g ++ [n]) := by
      intro k
      rw [List.map_cons, List.mem_cons, h k, List.mem_append, List.mem_singleton, or_comm]
    have := ih hstep
    rwa [List.append_assoc, List.singleton_append] at this

/-- No parameter is in scope outside a generic declaration. -/
theorem named_nil : Named [] [] := fun _ => Iff.rfl

theorem named_unbound (names : List String) : (unbound names).Named names :=
  named_nil.pushUnbound names

theorem named_bound {names : List String} {types : List Ty} (h : names.length = types.length) :
    (bound names types).Named names := by
  have hkeys : ((bound names types).map Prod.fst).reverse = names := by
    rw [bound, List.map_reverse, List.reverse_reverse, List.map_map]
    exact List.map_fst_zip (Nat.le_of_eq h)
  intro n
  rw [← List.mem_reverse, hkeys]

/-- A parameter in scope stands for what it stood for, renamed. -/
theorem get?_rename (hσ : σ.Injective) (params : TypeParams) (n : String) :
    (params.rename σ).get? (σ n) = (params.get? n).map (Ty.rename σ) :=
  lookup_map_rename hσ params n

/-- A name that no declared parameter has is not in scope. -/
theorem Named.get?_eq_none (h : params.Named g) {n : String} (hn : n ∉ g) :
    params.get? n = none := by
  refine Option.not_isSome_iff_eq_none.mp fun hsome => hn ((h n).mp ?_)
  exact isSome_lookup_iff.mp hsome

theorem Named.exists_get? (h : params.Named g) {n : String} (hn : n ∈ g) :
    ∃ ty, params.get? n = some ty :=
  Option.isSome_iff_exists.mp (isSome_lookup_iff.mpr ((h n).mpr hn))

/-- The renamed parameters are named by the renamed names. -/
theorem Named.rename (h : params.Named g) : (params.rename σ).Named (g.map σ) := by
  intro n
  have hkeys : (params.rename σ).map Prod.fst = (params.map Prod.fst).map σ := by
    rw [TypeParams.rename, List.map_map, List.map_map]
    rfl
  rw [hkeys, List.mem_map, List.mem_map]
  exact exists_congr fun k => and_congr_left fun _ => h k

/-- Adding the parameters of a method commutes with renaming. -/
theorem rename_pushUnbound (params : TypeParams) (names : List String) :
    (params.pushUnbound names).rename σ = (params.rename σ).pushUnbound (names.map σ) := by
  unfold pushUnbound
  induction names generalizing params with
  | nil => rfl
  | cons n rest ih =>
    rw [List.foldl_cons, ih, List.map_cons, List.foldl_cons]
    rw [rename, List.map_cons, Ty.rename_unbound]
    rfl

theorem rename_unbound (names : List String) :
    (unbound names).rename σ = unbound (names.map σ) :=
  rename_pushUnbound [] names

theorem rename_bound (names : List String) (types : List Ty) :
    (bound names types).rename σ = bound (names.map σ) (Ty.renameAll σ types) := by
  rw [rename, bound, bound, List.map_reverse, List.map_map, Ty.renameAll_eq_map, List.zip_map,
    List.map_map]
  congr 2

end TypeParams

namespace Bindings

/-- A renamed parameter has the renamed binding. -/
theorem lookup_rename (hσ : σ.Injective) (b : Bindings) (n : String) :
    (b.rename σ).lookup (σ n) = (b.lookup n).map (Ty.rename σ) :=
  lookup_map_rename hσ b n

theorem rename_append (b c : Bindings) : rename σ (b ++ c) = rename σ b ++ rename σ c :=
  List.map_append

theorem rename_reverse (b : Bindings) : rename σ b.reverse = (rename σ b).reverse :=
  List.map_reverse

mutual

/-- Renamed types bind the renamed parameters. -/
theorem fill_rename : ∀ formal actual : Ty,
    fill (formal.rename σ) (actual.rename σ) = rename σ (fill formal actual)
  | .unbound n, actual => by
    rw [Ty.rename_unbound, fill, fill, Ty.isNull_rename, Ty.resolved_rename]
    split <;> rfl
  | .bound n t, actual => by
    rw [Ty.rename_bound, fill, fill]
    rfl
  | .cls n formals, actual => by
    rw [Ty.rename_cls, fill, fill, Ty.resolved_rename]
    cases actual.resolved with
    | cls m actuals =>
      rw [Ty.rename_cls]
      exact fillAll_renameAll formals actuals
    | unbound m => rw [Ty.rename_unbound]; rfl
    | bound m t => rw [Ty.rename_bound]; rfl

theorem fillAll_renameAll : ∀ formals actuals : List Ty,
    fillAll (Ty.renameAll σ formals) (Ty.renameAll σ actuals) = rename σ (fillAll formals actuals)
  | [], actuals => by
    rw [Ty.renameAll_nil]
    unfold fillAll
    rfl
  | _ :: _, [] => by
    rw [Ty.renameAll_nil]
    unfold fillAll
    simp only [Ty.renameAll_cons]
    rfl
  | formal :: formals, actual :: actuals => by
    rw [Ty.renameAll_cons, Ty.renameAll_cons, fillAll, fillAll, rename_append,
      fill_rename formal actual, fillAll_renameAll formals actuals]

end

/-- Inference binds renamed parameters to renamed types. -/
theorem infer_rename (formals actuals : List Ty) :
    infer (Ty.renameAll σ formals) (Ty.renameAll σ actuals) = rename σ (infer formals actuals) := by
  rw [infer, infer, fillAll_renameAll, rename_reverse]

theorem zip_rename (names : List String) (types : List Ty) :
    zip (names.map σ) (Ty.renameAll σ types) = rename σ (zip names types) := by
  rw [zip, zip, rename_reverse, Ty.renameAll_eq_map, List.zip_map]
  rfl

end Bindings

namespace Ty

mutual

/-- Renamed bindings are put in for renamed parameters. -/
theorem substitute_rename (hσ : σ.Injective) (b : Bindings) : ∀ t : Ty,
    (t.rename σ).substitute (b.rename σ) = (t.substitute b).rename σ
  | cls n args => by
    rw [rename_cls, substitute, substitute, rename_cls, substituteAll_renameAll hσ b args]
  | bound n t => by rw [rename_bound, substitute, substitute, substitute_rename hσ b t]
  | unbound n => by
    rw [rename_unbound, substitute, substitute, Bindings.lookup_rename hσ]
    cases b.lookup n with
    | none => exact (rename_unbound n).symm
    | some t => rfl

theorem substituteAll_renameAll (hσ : σ.Injective) (b : Bindings) : ∀ ts : List Ty,
    substituteAll (b.rename σ) (renameAll σ ts) = renameAll σ (substituteAll b ts)
  | [] => by rw [renameAll_nil, substituteAll, substituteAll, renameAll_nil]
  | t :: rest => by
    rw [renameAll_cons, substituteAll, substituteAll, renameAll_cons, substitute_rename hσ b t,
      substituteAll_renameAll hσ b rest]

end

end Ty

/-- Putting types in for the parameters of a class type commutes with renaming. -/
theorem ClassTy.substitute_rename (hσ : σ.Injective) (b : Bindings) (c : ClassTy) :
    (c.rename σ).substitute (b.rename σ) = (c.substitute b).rename σ := by
  rw [substitute, substitute, args_rename, Ty.substituteAll_renameAll hσ]
  rfl

/-! ## Written types -/

/--
A name where another one stood, with parameters of some names in scope: that of the renamed
parameter, or the same name where there was no parameter and none gets this name.
-/
def NameFollows (σ : String → String) (g : List String) (n n' : String) : Prop :=
  (n ∈ g ∧ n' = σ n) ∨ (n ∉ g ∧ n' = n ∧ n ∉ g.map σ)

/-- A name that is not given to another parameter stays. -/
theorem nameFollows_self (hσ : σ.Injective) (g : List String) {n : String} (hn : σ n = n) :
    NameFollows σ g n n := by
  by_cases h : n ∈ g
  · exact .inl ⟨h, hn.symm⟩
  · refine .inr ⟨h, rfl, fun hm => h ?_⟩
    obtain ⟨k, hk, heq⟩ := List.mem_map.mp hm
    rwa [← hσ (heq.trans hn.symm)]

/-- Names that `σ` leaves alone are the same list renamed. -/
theorem map_eq_self {g : List String} (hg : ∀ n ∈ g, σ n = n) : g.map σ = g :=
  (List.map_congr_left hg).trans (List.map_id g)

/-- Where all parameters keep their names, all names stay. -/
theorem nameFollows_of_fixed {g : List String} (hg : ∀ n ∈ g, σ n = n) (n : String) :
    NameFollows σ g n n := by
  by_cases h : n ∈ g
  · exact .inl ⟨h, (hg n h).symm⟩
  · exact .inr ⟨h, rfl, by rwa [map_eq_self hg]⟩

mutual

/-- Two written types, the second with other names for the parameters that the first names. -/
inductive TypeExpr.Follows (σ : String → String) (g : List String) : TypeExpr → TypeExpr → Prop
  | mk {n n' : String} {args args' : List TypeExpr} (span : Span) :
      NameFollows σ g n n' → AllFollow σ g args args' →
      Follows σ g ⟨n, args, span⟩ ⟨n', args', span⟩

/-- Two lists of such types. -/
inductive TypeExpr.AllFollow (σ : String → String) (g : List String) :
    List TypeExpr → List TypeExpr → Prop
  | nil : AllFollow σ g [] []
  | cons {e e' : TypeExpr} {es es' : List TypeExpr} :
      Follows σ g e e' → AllFollow σ g es es' → AllFollow σ g (e :: es) (e' :: es')

end

namespace TypeExpr

variable {g : List String}

theorem AllFollow.length_eq : ∀ {es es' : List TypeExpr}, AllFollow σ g es es' →
    es'.length = es.length
  | _, _, .nil => rfl
  | _, _, .cons _ h => congrArg (· + 1) h.length_eq

mutual

/-- Where all parameters keep their names, a type stays. -/
theorem follows_of_fixed (hg : ∀ n ∈ g, σ n = n) : ∀ e : TypeExpr, e.Follows σ g e
  | ⟨n, args, span⟩ => .mk span (nameFollows_of_fixed hg n) (allFollow_of_fixed hg args)

theorem allFollow_of_fixed (hg : ∀ n ∈ g, σ n = n) : ∀ es : List TypeExpr, AllFollow σ g es es
  | [] => .nil
  | e :: rest => .cons (follows_of_fixed hg e) (allFollow_of_fixed hg rest)

end

end TypeExpr

end Middleweight
