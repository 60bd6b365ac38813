import Middleweight.Analysis.TypeCheck
import Middleweight.Proofs.ClassTable.Standard
import Middleweight.Proofs.Members.Fit

/-!
# Values, scopes and machines that fit their types

A value fits a type when it is `null` or of a kind that may pass as the type. A variable has a type
when its value fits it and its declared class fits what the type does; the two need not be the same,
for stepping an `Integer` gives an `int` to the checker and an `Integer` to the engine. A scope fits
the locals of the checker level by level, and a machine is sound when its scope fits them, all that
it remembers is valid and its static fields have their types.

* `Value.Fits.mono` : a value that fits a type fits what the type fits
* `Scope.Fits.lookup`, `Scope.Fits.assign`, `Scope.Fits.define` : scopes and locals side by side
-/

namespace Middleweight

variable {F : Type} {t : ClassTable F}

/-! ## Values -/

/-- The values of a kind. The only objects are those of the standard output. -/
inductive Value.HasKind (t : ClassTable F) : Value F → Kind → Prop
  | int (n : Int64) : HasKind t (.int n) .int
  | float (x : Float) : HasKind t (.float x) .float
  | bool (b : Bool) : HasKind t (.bool b) .boolean
  | str (s : String) : HasKind t (.str s) .string
  | object {o : ObjectRef F} :
      t.Instantiates ⟨Ty.printStreamName, []⟩ o.cls → HasKind t (.object o) .printStream

/-- A value fits a type: it is `null`, or its kind may pass as the class of the type. -/
inductive Value.Fits (t : ClassTable F) : Value F → Ty → Prop
  | null (ty : Ty) : Fits t .null ty
  | kind {v : Value F} {k : Kind} {name : String} (args : List Ty) :
      v.HasKind t k → name ∈ k.names → Fits t v (.cls name args)

/-- A value fits the type of its kind. -/
theorem Value.HasKind.fits {v : Value F} {k : Kind} (h : v.HasKind t k) : v.Fits t k.ty :=
  .kind [] h k.typeName_mem_names

/-- A value whose declared class fits what a type does, and that fits the type itself. -/
structure Variable.HasType (t : ClassTable F) (v : Variable F) (ty : Ty) : Prop where
  sameFit : t.SameFit v.ty ty
  fits : v.value.Fits t ty
  knows : t.Knows ty

/-- The parameters in a known type may be resolved, for there are none. -/
theorem Variable.HasType.resolved {v : Variable F} {ty : Ty} (h : v.HasType t ty) :
    v.HasType t ty.resolved := by
  rw [Ty.resolved_of_isGround h.knows.isGround]
  exact h

/--
What an expression stands for, and what it evaluates to. A conditional expression can have the type
of a branch that is never evaluated, in which parameters of the library may occur.
-/
def Operand.Denotes (t : ClassTable F) : Operand → Variable F → Prop
  | .value ty, v => v.HasType t ty.resolved
  | .static name, v => ∃ c, t.Views name c ∧ v = ⟨c, .cls c⟩
  | .namespace path, v => v.value = .namespace path

section Standard

variable {t : ClassTable StandardFn} {p : Program}
  (h : ClassTable.build p NativeRegistry.standard = .ok t)

include h

theorem Kind.knows (k : Kind) : t.Knows k.ty := by
  obtain ⟨c, hc, hg⟩ := ClassTable.get?_kind h k.typeName_mem_names
  exact ClassTable.knows_named hc hg

/-- What a class as which values of a kind may pass fits are such classes. -/
theorem Kind.mem_names_of_check {k : Kind} {a b : String} (ha : a ∈ k.names) {args brgs : List Ty}
    (hc : t.check (.cls a args) (.cls b brgs) = true) : b ∈ k.names := by
  have hne : (a == Ty.nullName) = false := beq_false_of_ne (Kind.ne_nullName ha)
  rw [ClassTable.check_cls, hne, if_neg Bool.false_ne_true, Bool.and_eq_true] at hc
  by_cases ho : a = Ty.objectName
  · subst ho
    rw [(ClassTable.related_object_iff h).mp hc.1]
    exact k.objectName_mem_names
  · exact (ClassTable.related_iff h ha ho).mp hc.1

/-- A value that fits a type fits what the type fits. -/
theorem Value.Fits.mono {v : Value StandardFn} {a b : Ty} (hv : v.Fits t a)
    (hc : t.check a b = true) (hb : b.IsGround) : v.Fits t b := by
  cases hv with
  | null => exact .null b
  | kind args hk ha =>
    cases b with
    | cls name brgs => exact .kind brgs hk (Kind.mem_names_of_check h ha hc)
    | unbound _ => exact absurd hb (by simp [Ty.IsGround])
    | bound _ _ => exact absurd hb (by simp [Ty.IsGround])

/-- Below the root class, all classes as which values of a kind may pass fit alike. -/
theorem Kind.sameFit {k : Kind} {a b : String} (ha : a ∈ k.names) (hb : b ∈ k.names)
    (ha' : a ≠ Ty.objectName) (hb' : b ≠ Ty.objectName) : t.SameFit (.named a) (.named b) := by
  intro target
  induction target using Ty.rec (motive_2 := fun _ => True) with
  | unbound _ => rw [ClassTable.check, ClassTable.check]
  | bound _ ty ih => rw [ClassTable.check, ClassTable.check, ih]
  | cls name args =>
    have hna : (a == Ty.nullName) = false := beq_false_of_ne (Kind.ne_nullName ha)
    have hnb : (b == Ty.nullName) = false := beq_false_of_ne (Kind.ne_nullName hb)
    have hrelated : t.related a name = t.related b name := by
      rw [Bool.eq_iff_iff, ClassTable.related_iff h ha ha', ClassTable.related_iff h hb hb']
    rw [Ty.named, Ty.named, ClassTable.check_cls, ClassTable.check_cls, hna, hnb, hrelated]
  | nil => trivial
  | cons _ _ _ _ => trivial

end Standard

/-! ## Scopes -/

/-- A level has a variable for each local of a level, and no others; none is named `this`. -/
structure Level.Fits (t : ClassTable F) (l : Level F) (names : List (String × Ty)) : Prop where
  generics : l.generics = []
  locals : ∀ name, Option.Rel (Variable.HasType t) (l.locals.lookup name) (names.lookup name)
  this : names.lookup "this" = none

/-- A scope of a static body with a level for each level of locals. -/
structure Scope.Fits (t : ClassTable F) (s : Scope F) (L : Locals) : Prop where
  context : s.context.instance? = none
  levels : List.Forall₂ (Level.Fits t) s.levels L

theorem Instance.lookup_setIn (name : String) (value : Value F) (key : String) :
    ∀ vs : List (String × Variable F), (setIn name value vs).lookup key =
      if key = name then (vs.lookup key).map fun v => { v with value } else vs.lookup key
  | [] => by split <;> rfl
  | (k, v) :: rest => by
    rw [setIn]
    by_cases hk : k = name
    · subst hk
      rw [if_pos rfl, List.lookup_cons, List.lookup_cons]
      by_cases hkey : key = k
      · simp [hkey]
      · simp [hkey, beq_false_of_ne hkey]
    · rw [if_neg hk, List.lookup_cons, List.lookup_cons, lookup_setIn name value key rest]
      by_cases hkey : key = k
      · subst hkey
        simp [hk]
      · simp [beq_false_of_ne hkey]

namespace Level.Fits

variable {l : Level F} {names : List (String × Ty)}

theorem empty : Level.Fits t {} [] := ⟨rfl, fun _ => .none, rfl⟩

/-- A variable of the declared type for a new local. -/
theorem define (h : l.Fits t names) {name : String} (hthis : name ≠ "this") {v : Variable F}
    {ty : Ty} (hv : v.HasType t ty) : (l.define name v).Fits t ((name, ty) :: names) where
  generics := h.generics
  locals := by
    intro key
    unfold Level.define
    dsimp only
    rw [List.lookup_cons, List.lookup_cons]
    by_cases hkey : key = name
    · simp [hkey, hv]
    · rw [beq_false_of_ne hkey, lookup_filter_ne hkey]
      exact h.locals key
  this := by
    rw [List.lookup_cons, beq_false_of_ne hthis.symm]
    exact h.this

/-- Another value that fits the type of its local. -/
theorem setIn (h : l.Fits t names) {name : String} {value : Value F}
    (hv : ∀ ty, names.lookup name = some ty → value.Fits t ty) :
    Level.Fits t { l with locals := Instance.setIn name value l.locals } names where
  generics := h.generics
  locals := by
    intro key
    rw [Instance.lookup_setIn]
    by_cases hkey : key = name
    · subst hkey
      rw [if_pos rfl]
      rcases rel_elim (h.locals key) with ⟨h1, h2⟩ | ⟨v, ty, h1, h2, hvar⟩
      · rw [h1, h2]
        exact .none
      · rw [h1, h2]
        exact .some ⟨hvar.sameFit, hv ty h2, hvar.knows⟩
    · rw [if_neg hkey]
      exact h.locals key
  this := h.this

end Level.Fits

namespace Scope.Fits

variable {s : Scope F} {L L' : Locals}

theorem typeParams_eq (h : s.Fits t L) : s.typeParams = [] := by
  have hlevels : ∀ {ls : List (Level F)} {L : Locals}, List.Forall₂ (Level.Fits t) ls L →
      ls.flatMap Level.generics = [] := by
    intro ls L hl
    induction hl with
    | nil => rfl
    | cons hlevel _ ih => rw [List.flatMap_cons, hlevel.generics, ih]; rfl
  have hcontext : s.context.typeParams = [] := by
    have := h.context
    cases hc : s.context with
    | «instance» o c => rw [hc] at this; cases this
    | _ => rfl
  rw [Scope.typeParams, hlevels h.levels, hcontext]
  rfl

theorem lookup (h : s.Fits t L) (name : String) :
    Option.Rel (Variable.HasType t) (s.lookup name) (L.lookup name) := by
  have hlevels := h.levels
  clear h
  unfold Scope.lookup
  generalize s.levels = ls at hlevels
  induction hlevels with
  | nil => exact .none
  | cons hlevel _ ih =>
    rw [lookupIn, Locals.lookup]
    rcases rel_elim (hlevel.locals name) with ⟨h1, h2⟩ | ⟨v, ty, h1, h2, hv⟩
    · rw [h1, h2]
      exact ih
    · rw [h1, h2]
      exact .some hv

theorem lookup_this (h : s.Fits t L) : L.lookup "this" = none := by
  have hlevels := h.levels
  clear h
  generalize s.levels = ls at hlevels
  induction hlevels with
  | nil => rfl
  | cons hlevel _ ih =>
    rw [Locals.lookup, hlevel.this]
    exact ih

theorem push (h : s.Fits t L) : s.push.Fits t L.push := ⟨h.context, .cons .empty h.levels⟩

theorem ne_nil (h : s.Fits t L) : L ≠ [] := by
  rintro rfl
  cases h.levels

theorem pop {l : List (String × Ty)} (h : s.Fits t (l :: L)) (hL : L ≠ []) :
    s.pop.Fits t L := by
  obtain ⟨context, current, outer⟩ := s
  obtain ⟨hcontext, hlevels⟩ := h
  cases hlevels with
  | cons _ hrest =>
    cases hrest with
    | nil => exact absurd rfl hL
    | cons hlevel hrest => exact ⟨hcontext, .cons hlevel hrest⟩

theorem define (h : s.Fits t L) {name : String} (hthis : name ≠ "this") {v : Variable F} {ty : Ty}
    (hv : v.HasType t ty) (hL : L.define? name ty = some L') : (s.define name v).Fits t L' := by
  obtain ⟨context, current, outer⟩ := s
  obtain ⟨hcontext, hlevels⟩ := h
  cases hlevels with
  | cons hlevel hrest =>
    rw [Locals.define?] at hL
    split at hL
    · cases hL
    · cases hL
      exact ⟨hcontext, .cons (hlevel.define hthis hv) hrest⟩

theorem assignIn {name : String} {ty : Ty} {value : Value F} (hv : value.Fits t ty) :
    ∀ {ls : List (Level F)} {L : Locals}, List.Forall₂ (Level.Fits t) ls L →
    L.lookup name = some ty →
    ∃ ls', Scope.assignIn name value ls = some ls' ∧ List.Forall₂ (Level.Fits t) ls' L := by
  intro ls L h
  induction h with
  | nil => intro hL; cases hL
  | @cons l names rest L hlevel hrest ih =>
    intro hL
    rw [Locals.lookup] at hL
    rw [Scope.assignIn]
    rcases rel_elim (hlevel.locals name) with ⟨h1, h2⟩ | ⟨v, ty', h1, h2, -⟩
    · rw [h2] at hL
      obtain ⟨ls', heq, hfits⟩ := ih hL
      rw [h1, heq]
      exact ⟨l :: ls', rfl, .cons hlevel hfits⟩
    · rw [h2] at hL
      cases hL
      rw [h1]
      refine ⟨_, rfl, .cons (hlevel.setIn fun ty hty => ?_) hrest⟩
      rw [h2] at hty
      cases hty
      exact hv

/-- A value that fits the type of a local can be assigned to it. -/
theorem assign (h : s.Fits t L) {name : String} {ty : Ty} {value : Value F}
    (hL : L.lookup name = some ty) (hv : value.Fits t ty) :
    ∃ s', s.assign name value = some s' ∧ s'.Fits t L := by
  obtain ⟨ls, heq, hfits⟩ := assignIn hv h.levels hL
  unfold Scope.assign
  rw [heq]
  cases hfits with
  | nil => exact absurd rfl h.ne_nil
  | cons hlevel hrest => exact ⟨_, rfl, h.context, .cons hlevel hrest⟩

end Scope.Fits

/-! ## Machines -/

/-- The machine of a static body with given locals. -/
structure Machine.Sound (t : ClassTable F) (m : Machine F) (L : Locals) : Prop where
  remembers : m.Remembers t
  scope : m.scope.Fits t L
  statics : ∀ e ∈ m.statics, e.2.HasType t (.named Ty.printStreamName)

theorem Machine.Sound.withMemory {m : Machine F} {L : Locals} (h : m.Sound t L) {r : Registry F}
    {k : ResolutionCache (RuntimeClass F)} (hr : r.Valid t) (hk : k.Valid t) :
    (m.withMemory r k).Sound t L := by
  refine ⟨h.remembers.withMemory hr hk, ⟨h.scope.context, ?_⟩, h.statics⟩
  have hlevels := h.scope.levels
  cases hL : L with
  | nil => exact absurd hL h.scope.ne_nil
  | cons names rest =>
    rw [hL] at hlevels
    obtain ⟨hlevel, hrest⟩ := List.forall₂_cons.mp hlevels
    exact .cons ⟨hlevel.generics, hlevel.locals, hlevel.this⟩ hrest

end Middleweight
