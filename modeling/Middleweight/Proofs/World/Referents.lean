import Middleweight.Proofs.World.Heap

/-!
# What bare names stand for

A bare name stands for the running instance, for a local, for a field of the running instance, for a
class or for a namespace. The checker looks for it in its levels of locals, in the class of `this`
and in the class table; the engine looks for it in its scope, in the running object and in the class
table. Both say of each name which of these things it stands for.

* `Referent` : what a name can stand for
* `BodyContext.variableOperand_eq` : how the checker takes a name
* `Engine.lookup_of_referent?`, `Engine.lookup_of_none` : how the engine takes a name
-/

namespace Middleweight

open NativeRegistry (standard)

variable {F : Type}

/-- What a bare name can stand for; levels of locals are counted from the innermost. -/
inductive Referent where
  /-- The running instance. -/
  | self
  | «local» (level : Nat)
  /-- The field of the running instance that has the name. -/
  | field
  | static (className : String)
  | «namespace» (path : String)
deriving DecidableEq, Repr

/-- The class or the namespace that a name stands for. -/
def ClassTable.named? (t : ClassTable F) (name : String) : Option Referent :=
  match t.imports.resolve? name with
  | some full => some (.static full)
  | none => (t.natives.namespace? name).map fun _ => .namespace name

/-! ## The checker -/

namespace Locals

/-- The innermost level that has a name. -/
def levelOf? (L : Locals) (name : String) : Option Nat :=
  L.findIdx? fun level => (level.lookup name).isSome

/-- The innermost level that has a name, counted from the outermost level. -/
def heightOf? (L : Locals) (name : String) : Option Nat :=
  (L.levelOf? name).map fun level => L.length - (level + 1)

theorem lookup_of_levelOf? {name : String} : ∀ {L : Locals} {level : Nat},
    L.levelOf? name = some level →
    ∃ names, L[level]? = some names ∧ names.lookup name = L.lookup name ∧
      (L.lookup name).isSome = true
  | [], _, h => nomatch h
  | names :: outer, level, h => by
    rw [levelOf?, List.findIdx?_cons] at h
    cases hname : names.lookup name with
    | some ty =>
      rw [hname] at h
      cases h
      refine ⟨names, rfl, ?_, ?_⟩ <;> rw [Locals.lookup, hname]
      rfl
    | none =>
      rw [hname] at h
      obtain ⟨i, hi, rfl⟩ := Option.map_eq_some_iff.mp h
      obtain ⟨names', hget, hlookup, hsome⟩ := lookup_of_levelOf? hi
      refine ⟨names', hget, ?_, ?_⟩ <;> rw [Locals.lookup, hname]
      · exact hlookup
      · exact hsome

theorem lookup_of_levelOf?_none {name : String} : ∀ {L : Locals}, L.levelOf? name = none →
    L.lookup name = none
  | [], _ => rfl
  | names :: outer, h => by
    rw [levelOf?, List.findIdx?_cons] at h
    cases hname : names.lookup name with
    | some ty =>
      rw [hname] at h
      cases h
    | none =>
      rw [hname] at h
      rw [Locals.lookup, hname]
      exact lookup_of_levelOf?_none (Option.map_eq_none_iff.mp h)

end Locals

namespace BodyContext

/--
What the checker takes a name for. The running instance is the local `this` of the outermost level,
in members that are not static.
-/
def referent? (ctx : BodyContext F) (L : Locals) (name : String) : Option Referent :=
  match L.levelOf? name with
  | some level =>
    some (if name = "this" ∧ ctx.this?.isSome ∧ L.heightOf? name = some 0 then .self
      else .local level)
  | none => if (ctx.instanceField name).isSome then some .field else ctx.table.named? name

/-- What a name is as an operand, given what it stands for. -/
def operandOf? (ctx : BodyContext F) (L : Locals) (name : String) : Referent → Option Operand
  | .self => (L.lookup name).map Operand.value
  | .local level => (L[level]?.bind fun names => names.lookup name).map Operand.value
  | .field => (ctx.instanceField name).map Operand.value
  | .static full => some (.static full)
  | .namespace path => some (.namespace path)

/-- The checker takes a bare name for what it stands for, if it stands for anything. -/
theorem variableOperand_eq (ctx : BodyContext F) (L : Locals) (name : Identifier) :
    ctx.variableOperand L name =
      match (ctx.referent? L name.name).bind (ctx.operandOf? L name.name) with
      | some o => .ok o
      | none => objection name.span (.noVariable name.name) := by
  unfold variableOperand referent?
  cases hlevel : L.levelOf? name.name with
  | some level =>
    obtain ⟨names, hget, hlookup, hsome⟩ := Locals.lookup_of_levelOf? hlevel
    obtain ⟨ty, hty⟩ := Option.isSome_iff_exists.mp hsome
    rw [hty] at hlookup ⊢
    dsimp only
    rw [Option.bind_some]
    split_ifs
    · rw [operandOf?, hty]
      rfl
    · rw [operandOf?, hget, Option.bind_some, hlookup]
      rfl
  | none =>
    rw [Locals.lookup_of_levelOf?_none hlevel]
    dsimp only
    cases hfield : ctx.instanceField name.name with
    | some ty => simp [operandOf?, hfield]
    | none =>
      unfold ClassTable.named?
      cases ctx.table.imports.resolve? name.name with
      | some full => rfl
      | none => cases ctx.table.natives.namespace? name.name <;> rfl

end BodyContext

/-! ## The engine -/

namespace Scope

/-- The innermost level that has a name. -/
def levelOf? (s : Scope F) (name : String) : Option Nat :=
  s.levels.findIdx? fun level => (level.locals.lookup name).isSome

theorem lookupIn_of_findIdx? {name : String} : ∀ {ls : List (Level F)} {level : Nat},
    ls.findIdx? (fun l => (l.locals.lookup name).isSome) = some level →
    ∃ l v, ls[level]? = some l ∧ l.locals.lookup name = some v ∧ lookupIn name ls = some v
  | [], _, h => nomatch h
  | l :: rest, level, h => by
    rw [List.findIdx?_cons] at h
    rw [lookupIn]
    cases hname : l.locals.lookup name with
    | some v =>
      rw [hname] at h
      cases h
      exact ⟨l, v, rfl, hname, rfl⟩
    | none =>
      rw [hname] at h
      obtain ⟨i, hi, rfl⟩ := Option.map_eq_some_iff.mp h
      exact lookupIn_of_findIdx? hi

theorem lookupIn_of_findIdx?_none {name : String} : ∀ {ls : List (Level F)},
    ls.findIdx? (fun l => (l.locals.lookup name).isSome) = none → lookupIn name ls = none
  | [], _ => rfl
  | l :: rest, h => by
    rw [List.findIdx?_cons] at h
    rw [lookupIn]
    cases hname : l.locals.lookup name with
    | some v =>
      rw [hname] at h
      cases h
    | none =>
      rw [hname] at h
      exact lookupIn_of_findIdx?_none (Option.map_eq_none_iff.mp h)

end Scope

/-- The field of a name of the running instance. -/
def Machine.ownField? (m : Machine F) (name : String) : Option (Variable F) :=
  m.scope.context.instance?.bind fun o => m.heap[o.id]?.bind fun i => i.field? name

theorem EvalM.ownField?_eq (m : Machine F) (name : String) :
    EvalM.ownField? m.scope.context name m = .ok (m.ownField? name) m := by
  unfold EvalM.ownField? Machine.ownField?
  cases m.scope.context.instance? <;> rfl

namespace Engine

/-- What the engine takes a name for. -/
def referent? (eng : Engine F) (m : Machine F) (name : String) : Option Referent :=
  if name = "this" then m.scope.context.this?.map fun _ => .self
  else
    match m.scope.levelOf? name with
    | some level => some (.local level)
    | none => if (m.ownField? name).isSome then some .field else eng.table.named? name

/-- The variable that is what a name stands for. -/
inductive Denotes (eng : Engine F) (m : Machine F) (name : String) :
    Referent → Variable F → Prop
  | self {v : Variable F} : m.scope.context.this? = some v → Denotes eng m name .self v
  | «local» {level : Nat} {l : Level F} {v : Variable F} : m.scope.levels[level]? = some l →
      l.locals.lookup name = some v → Denotes eng m name (.local level) v
  | field {v : Variable F} : m.ownField? name = some v → Denotes eng m name .field v
  | static {full : String} {c : RuntimeClass F} : eng.table.Views full c →
      Denotes eng m name (.static full) ⟨c, .cls c⟩
  | «namespace» {path : String} {c : RuntimeClass F} :
      Denotes eng m name (.namespace path) ⟨c, .namespace path⟩

section Lookup

variable {eng : Engine F} {m : Machine F} {name : Identifier}

theorem lookup_at : eng.lookup name m = eng.lookupIn name m.scope m := by
  rw [lookup_eq]
  rfl

/-- The running instance. -/
theorem lookup_this (hthis : name.name = "this") {v : Variable F}
    (hv : m.scope.context.this? = some v) : eng.lookup name m = .ok v m := by
  rw [lookup_at]
  unfold lookupIn
  rw [if_pos hthis, hv]
  rfl

/-- What is no variable is looked for among the fields of the running instance. -/
theorem lookup_lookupField (hthis : name.name ≠ "this")
    (hlevel : m.scope.levelOf? name.name = none) :
    eng.lookup name m = eng.lookupField name (m.ownField? name.name) m := by
  rw [lookup_at]
  unfold lookupIn Scope.lookup
  rw [if_neg hthis, Scope.lookupIn_of_findIdx?_none hlevel]
  exact EvalM.bind_congr_at (y := pure (m.ownField? name.name)) (EvalM.ownField?_eq m name.name) _

end Lookup

variable {p : Program} {eng : Engine StandardFn} {m : Machine StandardFn} {name : Identifier}

/-- What is neither a variable nor a field is looked for in the class table. -/
theorem lookupClass_of_named? (h : ClassTable.build p standard = .ok eng.table)
    (hm : m.Remembers eng.table) {r : Referent} (hr : eng.table.named? name.name = some r) :
    ∃ v m₁, eng.lookupClass name m = .ok v m₁ ∧ eng.Denotes m name.name r v := by
  obtain ⟨reg, k, hreg, hk, hclass⟩ := staticClass_eq hm name.name name.span
  unfold lookupClass
  rw [EvalM.bind_congr_at hclass, ClassTable.namedView]
  unfold ClassTable.named? at hr
  cases hresolve : eng.table.imports.resolve? name.name with
  | some full =>
    rw [hresolve] at hr
    cases hr
    obtain ⟨n, hn⟩ := ClassTable.arity?_of_resolve? h hresolve
    obtain ⟨tm, htm, -⟩ := ClassTable.get?_of_arity? hn
    obtain ⟨n, hclimbs⟩ := ClassTable.climbs_of_build h htm
    obtain ⟨c, hview⟩ := hclimbs.exists_views
    refine ⟨⟨c, .cls c⟩, m.withMemory reg k, ?_, .static hview⟩
    dsimp only
    rw [hview.viewFor_eq]
    rfl
  | none =>
    rw [hresolve] at hr
    obtain ⟨n, hn, rfl⟩ := Option.map_eq_some_iff.mp hr
    obtain ⟨c, hobject, hg, -⟩ := ClassTable.get?_object h
    have hformed : Ty.object.resolved.Formed eng.table.arity? [] := by
      refine Ty.formed_cls.mpr ⟨?_, Ty.allFormed_nil⟩
      rw [ClassTable.arity?, hobject, Option.map_some, hg]
      rfl
    obtain ⟨c, -, -, hmade⟩ := classOf_ok (ClassTable.complete_of_build h) hformed
    obtain ⟨m₁, hok, -⟩ := hmade (m.withMemory reg k) name.span (hm.withMemory hreg hk)
    refine ⟨⟨c, .namespace name.name⟩, m₁, ?_, .namespace⟩
    rw [types_ok_bind, hn]
    show EStateM.bind (eng.classOf .object name.span) _ (m.withMemory reg k) = _
    unfold EStateM.bind
    rw [hok]
    rfl

/-- The engine finds what a bare name stands for. -/
theorem lookup_of_referent? (h : ClassTable.build p standard = .ok eng.table)
    (hm : m.Remembers eng.table) {r : Referent} (hr : eng.referent? m name.name = some r) :
    ∃ v m₁, eng.lookup name m = .ok v m₁ ∧ eng.Denotes m name.name r v := by
  unfold referent? at hr
  split at hr
  · next hthis =>
    obtain ⟨v, hv, rfl⟩ := Option.map_eq_some_iff.mp hr
    exact ⟨v, m, lookup_this hthis hv, .self hv⟩
  · next hthis =>
    cases hlevel : m.scope.levelOf? name.name with
    | some level =>
      rw [hlevel] at hr
      cases hr
      obtain ⟨l, v, hl, hv, hlookup⟩ := Scope.lookupIn_of_findIdx? hlevel
      refine ⟨v, m, ?_, .local hl hv⟩
      rw [lookup_at]
      unfold lookupIn Scope.lookup
      rw [if_neg hthis, hlookup]
      rfl
    | none =>
      rw [hlevel] at hr
      rw [lookup_lookupField hthis hlevel]
      cases hfield : m.ownField? name.name with
      | some v =>
        rw [hfield] at hr
        cases hr
        exact ⟨v, m, rfl, .field hfield⟩
      | none =>
        rw [hfield] at hr
        exact lookupClass_of_named? h hm hr

/-- A name that stands for nothing is an undefined variable. -/
theorem lookup_of_none (hm : m.Remembers eng.table) (hr : eng.referent? m name.name = none) :
    ∃ m₁, eng.lookup name m = eng.raise (.undefinedVariable name.name) name.span m₁ := by
  unfold referent? at hr
  split at hr
  · next hthis =>
    have hnone := Option.map_eq_none_iff.mp hr
    refine ⟨m, ?_⟩
    rw [lookup_at]
    unfold lookupIn
    rw [if_pos hthis, hnone]
  · next hthis =>
    cases hlevel : m.scope.levelOf? name.name with
    | some level =>
      rw [hlevel] at hr
      cases hr
    | none =>
      rw [hlevel] at hr
      rw [lookup_lookupField hthis hlevel]
      cases hfield : m.ownField? name.name with
      | some v =>
        rw [hfield] at hr
        cases hr
      | none =>
        rw [hfield] at hr
        obtain ⟨reg, k, -, -, hclass⟩ := staticClass_eq hm name.name name.span
        refine ⟨m.withMemory reg k, ?_⟩
        show eng.lookupClass name m = _
        unfold lookupClass
        rw [EvalM.bind_congr_at hclass, ClassTable.namedView]
        change eng.table.named? name.name = none at hr
        unfold ClassTable.named? at hr
        cases hresolve : eng.table.imports.resolve? name.name with
        | some full =>
          rw [hresolve] at hr
          cases hr
        | none =>
          rw [hresolve] at hr
          rw [types_ok_bind, Option.map_eq_none_iff.mp hr]

end Engine

end Middleweight
