import Middleweight.Engine.Eval
import Middleweight.Proofs.Registry.Memo
import Middleweight.Proofs.Types.Cache

/-!
# What the machine remembers changes no answer

The machine remembers the classes it has made: in the registry, and at each level of a scope under
the written names that led to them. `ClassTable.meaning` is the class that a written type means,
worked out from the table alone. As long as all that is remembered is valid, the machine gives that
class, or the same error, and changes nothing but what it remembers.

* `Engine.classOf_eq`, `Engine.staticView_eq` : classes of types, static views of classes
* `Engine.resolveType_eq` : classes of written types
* `Engine.staticClass_eq` : static views of bare names
-/

namespace Middleweight

variable {F α β : Type}

/-! ## Steps of a computation -/

namespace EvalM

/-- What comes first can be replaced by what does the same, also from another machine. -/
theorem bind_congr_at {x y : EvalM F α} {m m₁ : Machine F} (h : x m = y m₁)
    (f : α → EvalM F β) : (x >>= f) m = (y >>= f) m₁ := by
  show EStateM.bind x f m = EStateM.bind y f m₁
  simp only [EStateM.bind, h]

theorem scope_bind (f : Scope F → EvalM F α) (m : Machine F) : (scope >>= f) m = f m.scope m := rfl

end EvalM

namespace Engine

variable (eng : Engine F)

@[simp] theorem types_ok_bind (a : α) (f : α → EvalM F β) : eng.types (.ok a) >>= f = f a := rfl

@[simp] theorem types_error_bind (e : TypeError) (f : α → EvalM F β) :
    eng.types (.error e) >>= f = eng.types (.error e) := rfl

end Engine

/-! ## The meaning of written types -/

namespace ClassTable

/-- The class of a written name with given arguments. -/
def classNamed (t : ClassTable F) (name : String) (args : List Ty) (span : Span) :
    Except TypeError (RuntimeClass F) :=
  match t.imports.resolve? name with
  | none => .error (.unknownType name span)
  | some full => t.classFor (.cls full args) span

mutual

/-- The class that a written type means under some parameters. -/
def meaning (t : ClassTable F) (params : TypeParams) :
    TypeExpr → Except TypeError (RuntimeClass F)
  | ⟨name, generics, span⟩ =>
    match generics.isEmpty, params.get? name with
    | true, some ty => t.classFor ty span
    | _, _ =>
      match t.meanings params generics with
      | .error e => .error e
      | .ok args => t.classNamed name args span

/-- The types of the classes that written types mean. -/
def meanings (t : ClassTable F) (params : TypeParams) : List TypeExpr → Except TypeError (List Ty)
  | [] => .ok []
  | e :: rest =>
    match t.meaning params e with
    | .error err => .error err
    | .ok c =>
      match t.meanings params rest with
      | .error err => .error err
      | .ok tys => .ok (c.asTy :: tys)

end

variable {t : ClassTable F}

/-- A name that is no parameter in scope means the class of that name. -/
theorem meaning_of_get?_none {params : TypeParams} {name : String} (h : params.get? name = none)
    (generics : List TypeExpr) (span : Span) :
    t.meaning params ⟨name, generics, span⟩ =
      match t.meanings params generics with
      | .error e => .error e
      | .ok args => t.classNamed name args span := by
  rw [meaning, h]
  cases generics.isEmpty <;> rfl

theorem isGround_classFor {ty : Ty} {span : Span} {c : RuntimeClass F}
    (h : t.classFor ty span = .ok c) : c.asTy.IsGround := by
  rw [RuntimeClass.asTy, ClassTy.toTy, Ty.isGround_cls]
  exact (classFor_ok h).1.ground

theorem isGround_meaning {params : TypeParams} {e : TypeExpr} {c : RuntimeClass F}
    (h : t.meaning params e = .ok c) : c.asTy.IsGround := by
  obtain ⟨name, generics, span⟩ := e
  rw [meaning] at h
  split at h
  · exact isGround_classFor h
  · split at h
    · cases h
    · unfold classNamed at h
      split at h
      · cases h
      · exact isGround_classFor h

theorem allGround_meanings {params : TypeParams} : ∀ {es : List TypeExpr} {args : List Ty},
    t.meanings params es = .ok args → Ty.AllGround args := by
  intro es
  induction es with
  | nil =>
    intro args h
    rw [meanings] at h
    cases h
    exact Ty.allGround_nil
  | cons e rest ih =>
    intro args h
    rw [meanings] at h
    split at h
    · cases h
    · next c hc =>
      split at h
      · cases h
      · next tys htys =>
        cases h
        exact Ty.allGround_cons.mpr ⟨isGround_meaning hc, ih htys⟩

end ClassTable

/-! ## Valid memories -/

/-- All that a cache remembers under a name is what the name stands for. -/
structure ResolutionCache.Valid (t : ClassTable F) (k : ResolutionCache (RuntimeClass F)) :
    Prop where
  instances : ∀ {name args c}, k.get? name (.args args) = some c → Ty.AllGround args →
    ∃ full, t.imports.resolve? name = some full ∧ t.Instantiates ⟨full, args⟩ c
  views : ∀ {name c}, k.get? name .static = some c →
    ∃ full, t.imports.resolve? name = some full ∧ t.Views full c

namespace ResolutionCache.Valid

variable {t : ClassTable F} {k : ResolutionCache (RuntimeClass F)}

theorem empty : Valid t {} where
  instances h := by rw [get?_empty] at h; cases h
  views h := by rw [get?_empty] at h; cases h

theorem insertInstance (hk : k.Valid t) {name full : String} {args : List Ty} {c : RuntimeClass F}
    (hfull : t.imports.resolve? name = some full) (hc : t.Instantiates ⟨full, args⟩ c) :
    (k.insert name (.args args) c).Valid t where
  instances := by
    intro name' args' c' h hground
    rw [get?_insert] at h
    split at h
    · next hsame =>
      obtain ⟨rfl, hargs⟩ := hsame
      cases h
      rw [← Ty.eq_of_sameAll hground hargs]
      exact ⟨full, hfull, hc⟩
    · exact hk.instances h hground
  views := by
    intro name' c' h
    rw [get?_insert, if_neg (fun hsame => Bool.noConfusion hsame.2)] at h
    exact hk.views h

theorem insertView (hk : k.Valid t) {name full : String} {c : RuntimeClass F}
    (hfull : t.imports.resolve? name = some full) (hc : t.Views full c) :
    (k.insert name .static c).Valid t where
  instances := by
    intro name' args' c' h hground
    rw [get?_insert, if_neg (fun hsame => Bool.noConfusion hsame.2)] at h
    exact hk.instances h hground
  views := by
    intro name' c' h
    rw [get?_insert] at h
    split at h
    · next hsame =>
      obtain ⟨rfl, -⟩ := hsame
      cases h
      exact ⟨full, hfull, hc⟩
    · exact hk.views h

end ResolutionCache.Valid

/-- The caches of all levels of a scope are valid. -/
def Scope.CachesValid (t : ClassTable F) (s : Scope F) : Prop := ∀ l ∈ s.levels, l.cache.Valid t

/--
What holds of all levels holds after an assignment, if it does not look at the values of locals.
-/
theorem Scope.forall_assign {name : String} {value : Value F} {P : Level F → Prop}
    (hset : ∀ l : Level F, P l → P { l with locals := Instance.setIn name value l.locals })
    {s s' : Scope F} (h : ∀ l ∈ s.levels, P l) (hs : s.assign name value = some s') :
    ∀ l ∈ s'.levels, P l := by
  have hlevels : ∀ {ls ls' : List (Level F)}, (∀ l ∈ ls, P l) →
      assignIn name value ls = some ls' → ∀ l ∈ ls', P l := by
    intro ls
    induction ls with
    | nil => exact fun _ h => nomatch h
    | cons l rest ih =>
      intro ls' hls hassign
      obtain ⟨hl, hrest⟩ := List.forall_mem_cons.mp hls
      rw [assignIn] at hassign
      split at hassign
      · cases hassign
        exact List.forall_mem_cons.mpr ⟨hset l hl, hrest⟩
      · obtain ⟨rest', hrest', rfl⟩ := Option.map_eq_some_iff.mp hassign
        exact List.forall_mem_cons.mpr ⟨hl, ih hrest hrest'⟩
  unfold Scope.assign at hs
  split at hs
  · next current outer hassign =>
    cases hs
    exact hlevels h hassign
  · cases hs

theorem Scope.mem_of_cached {s : Scope F} {name : String} {key : CacheKey} {c : RuntimeClass F}
    (h : s.cached name key = some c) : ∃ l ∈ s.levels, l.cache.get? name key = some c := by
  unfold cached at h
  generalize s.levels = ls at h
  induction ls with
  | nil => cases h
  | cons l rest ih =>
    rw [cachedIn] at h
    split at h
    · next hc =>
      cases h
      exact ⟨l, by simp, hc⟩
    · obtain ⟨l', hl', hc⟩ := ih h
      exact ⟨l', by simp [hl'], hc⟩

/-- All that a machine remembers is valid. -/
structure Machine.Remembers (t : ClassTable F) (m : Machine F) : Prop where
  registry : m.registry.Valid t
  caches : m.scope.CachesValid t

/-- The machine with other memories: in the registry, and at the current level of its scope. -/
def Machine.withMemory (m : Machine F) (r : Registry F) (k : ResolutionCache (RuntimeClass F)) :
    Machine F :=
  { m with registry := r, scope := { m.scope with current := { m.scope.current with cache := k } } }

theorem Machine.Remembers.withMemory {t : ClassTable F} {m : Machine F} (hm : m.Remembers t)
    {r : Registry F} {k : ResolutionCache (RuntimeClass F)} (hr : r.Valid t) (hk : k.Valid t) :
    (m.withMemory r k).Remembers t where
  registry := hr
  caches := by
    intro l hl
    rcases List.mem_cons.mp hl with rfl | hl
    · exact hk
    · exact hm.caches l (List.mem_cons_of_mem _ hl)

theorem Machine.Remembers.current {t : ClassTable F} {m : Machine F} (hm : m.Remembers t) :
    m.scope.current.cache.Valid t :=
  hm.caches _ (List.mem_cons_self ..)

/-! ## Classes -/

namespace Engine

variable {eng : Engine F} {m : Machine F}

theorem register_eq {t : ClassTable F}
    {make : Registry F → Except TypeError (RuntimeClass F × Registry F)}
    {made : Except TypeError (RuntimeClass F)} (hgiven : (make m.registry).map Prod.fst = made)
    (hvalid : ∀ c r, make m.registry = .ok (c, r) → r.Valid t) (hm : m.Remembers t) :
    ∃ r, r.Valid t ∧
      eng.register make m = eng.types made (m.withMemory r m.scope.current.cache) := by
  subst hgiven
  have hreg : eng.register make m = (eng.types (make m.registry) >>= fun x => do
      modify fun m => { m with registry := x.2 }
      return x.1) m := rfl
  rw [hreg]
  cases hmake : make m.registry with
  | error e => exact ⟨m.registry, hm.registry, rfl⟩
  | ok x => exact ⟨x.2, hvalid x.1 x.2 hmake, rfl⟩

/-- The machine gives for a type the class that the table gives. -/
theorem classOf_eq (hm : m.Remembers eng.table) (ty : Ty) (span : Span) :
    ∃ r, r.Valid eng.table ∧ eng.classOf ty span m =
      eng.types (eng.table.classFor ty span) (m.withMemory r m.scope.current.cache) :=
  register_eq (Registry.classOf_eq hm.registry ty span)
    (fun _ _ h => (Registry.classOf_ok hm.registry h).2.2) hm

/-- The machine gives for a class the static view that the table gives. -/
theorem staticView_eq (hm : m.Remembers eng.table) (name : String) (span : Span) :
    ∃ r, r.Valid eng.table ∧ eng.staticView name span m =
      eng.types (eng.table.viewFor name span) (m.withMemory r m.scope.current.cache) :=
  register_eq (Registry.staticView_eq hm.registry name span)
    (fun _ _ h => (Registry.staticView_ok hm.registry h).2) hm

/-! ## Written types and bare names -/

/-- The class of a written name with given arguments, looked up in the caches first. -/
def cachedClass (eng : Engine F) (name : String) (span : Span) (args : List Ty) :
    EvalM F (RuntimeClass F) := do
  match (← EvalM.scope).cached name (.args args) with
  | some c => return c
  | none =>
    match eng.table.imports.resolve? name with
    | none => eng.raise (.type (.unknownType name span)) span
    | some full => do
      let c ← eng.classOf (.cls full args) span
      EvalM.modifyScope fun s => s.remember name (.args args) c
      return c

theorem cachedClass_eq (hm : m.Remembers eng.table) (name : String) (span : Span) {args : List Ty}
    (hargs : Ty.AllGround args) :
    ∃ r k, r.Valid eng.table ∧ k.Valid eng.table ∧ eng.cachedClass name span args m =
      eng.types (eng.table.classNamed name args span) (m.withMemory r k) := by
  unfold cachedClass ClassTable.classNamed
  rw [EvalM.scope_bind]
  cases hc : m.scope.cached name (.args args) with
  | some c =>
    obtain ⟨l, hl, hget⟩ := Scope.mem_of_cached hc
    obtain ⟨full, hfull, hi⟩ := (hm.caches l hl).instances hget hargs
    refine ⟨m.registry, _, hm.registry, hm.current, ?_⟩
    rw [hfull]
    dsimp only
    rw [show (Ty.cls full args) = (⟨full, args⟩ : ClassTy).toTy from rfl, hi.classFor_eq span]
    rfl
  | none =>
    dsimp only
    cases hfull : eng.table.imports.resolve? name with
    | none => exact ⟨m.registry, _, hm.registry, hm.current, rfl⟩
    | some full =>
      obtain ⟨r, hr, heq⟩ := classOf_eq hm (.cls full args) span
      dsimp only
      rw [EvalM.bind_congr_at heq]
      cases hclass : eng.table.classFor (.cls full args) span with
      | error e => exact ⟨r, _, hr, hm.current, rfl⟩
      | ok c =>
        obtain ⟨hi, hres⟩ := ClassTable.classFor_ok hclass
        have hground : (Ty.cls full args).IsGround := Ty.isGround_cls.mpr hargs
        have hty : c.ty = ⟨full, args⟩ := by
          rw [Ty.resolved_of_isGround hground] at hres
          injection hres with h1 h2
          rw [h1, h2]
        rw [hty] at hi
        exact ⟨r, _, hr, hm.current.insertInstance hfull hi, rfl⟩

mutual

/-- The machine gives for a written type the class that it means. -/
theorem resolveType_eq : ∀ (e : TypeExpr) {m : Machine F}, m.Remembers eng.table →
    ∃ r k, r.Valid eng.table ∧ k.Valid eng.table ∧ eng.resolveType e m =
      eng.types (eng.table.meaning m.scope.typeParams e) (m.withMemory r k)
  | ⟨name, generics, span⟩, m, hm => by
    -- A name that is no parameter stands for a class with the arguments given.
    have hnamed : ∃ r k, r.Valid eng.table ∧ k.Valid eng.table ∧
        (eng.resolveTypes generics >>= fun args => eng.cachedClass name span args) m =
        eng.types (match eng.table.meanings m.scope.typeParams generics with
          | .error e => .error e
          | .ok args => eng.table.classNamed name args span) (m.withMemory r k) := by
      obtain ⟨r, k, hr, hk, heq⟩ := resolveTypes_eq generics hm
      rw [EvalM.bind_congr_at heq]
      cases hargs : eng.table.meanings m.scope.typeParams generics with
      | error e => exact ⟨r, k, hr, hk, rfl⟩
      | ok args =>
        obtain ⟨r', k', hr', hk', heq'⟩ := cachedClass_eq (hm.withMemory hr hk) name span
          (ClassTable.allGround_meanings hargs)
        exact ⟨r', k', hr', hk', heq'⟩
    rw [resolveType, ClassTable.meaning, EvalM.scope_bind]
    cases hempty : generics.isEmpty with
    | false => exact hnamed
    | true =>
      cases hparam : m.scope.typeParams.get? name with
      | none => exact hnamed
      | some ty =>
        obtain ⟨r, hr, heq⟩ := classOf_eq hm ty span
        exact ⟨r, _, hr, hm.current, heq⟩

theorem resolveTypes_eq : ∀ (es : List TypeExpr) {m : Machine F}, m.Remembers eng.table →
    ∃ r k, r.Valid eng.table ∧ k.Valid eng.table ∧ eng.resolveTypes es m =
      eng.types (eng.table.meanings m.scope.typeParams es) (m.withMemory r k)
  | [], m, hm => by
    rw [resolveTypes, ClassTable.meanings]
    exact ⟨m.registry, _, hm.registry, hm.current, rfl⟩
  | e :: rest, m, hm => by
    rw [resolveTypes, ClassTable.meanings]
    obtain ⟨r, k, hr, hk, heq⟩ := resolveType_eq e hm
    rw [EvalM.bind_congr_at heq]
    cases eng.table.meaning m.scope.typeParams e with
    | error err => exact ⟨r, k, hr, hk, rfl⟩
    | ok c =>
      obtain ⟨r', k', hr', hk', heq'⟩ := resolveTypes_eq rest (hm.withMemory hr hk)
      rw [types_ok_bind, EvalM.bind_congr_at heq']
      have hparams : (m.withMemory r k).scope.typeParams = m.scope.typeParams := rfl
      rw [hparams]
      cases eng.table.meanings m.scope.typeParams rest with
      | error err => exact ⟨r', k', hr', hk', rfl⟩
      | ok tys => exact ⟨r', k', hr', hk', rfl⟩

end

end Engine

/-- The static view that a bare name stands for, if it stands for a class. -/
def ClassTable.namedView (t : ClassTable F) (name : String) (span : Span) :
    Except TypeError (Option (RuntimeClass F)) :=
  match t.imports.resolve? name with
  | none => .ok none
  | some full => (t.viewFor full span).map some

/-- The machine gives for a bare name the static view that it stands for. -/
theorem Engine.staticClass_eq {eng : Engine F} {m : Machine F} (hm : m.Remembers eng.table)
    (name : String) (span : Span) :
    ∃ r k, r.Valid eng.table ∧ k.Valid eng.table ∧ eng.staticClass name span m =
      eng.types (eng.table.namedView name span) (m.withMemory r k) := by
  unfold staticClass ClassTable.namedView
  rw [EvalM.scope_bind]
  cases hc : m.scope.cached name .static with
  | some c =>
    obtain ⟨l, hl, hget⟩ := Scope.mem_of_cached hc
    obtain ⟨full, hfull, hv⟩ := (hm.caches l hl).views hget
    refine ⟨m.registry, _, hm.registry, hm.current, ?_⟩
    rw [hfull]
    dsimp only
    rw [hv.viewFor_eq span]
    rfl
  | none =>
    dsimp only
    cases hfull : eng.table.imports.resolve? name with
    | none => exact ⟨m.registry, _, hm.registry, hm.current, rfl⟩
    | some full =>
      obtain ⟨r, hr, heq⟩ := staticView_eq hm full span
      dsimp only
      rw [EvalM.bind_congr_at heq]
      cases hview : eng.table.viewFor full span with
      | error e => exact ⟨r, _, hr, hm.current, rfl⟩
      | ok c =>
        have hv := ClassTable.views_of_view hview
        exact ⟨r, _, hr, hm.current.insertView hfull hv, rfl⟩

end Middleweight
