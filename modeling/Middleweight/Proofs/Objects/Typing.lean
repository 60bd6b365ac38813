import Middleweight.Proofs.Engine.ResultKinds
import Middleweight.Proofs.Objects.Fields

/-!
# Values, objects and machines of types

A value suits a type when it is `null` or its own type may pass as the type. What an expression
evaluates to is declared with a class, which the value suits and which passes as the type that the
checker gives the expression. A machine is typed when its locals have the types of the checker, its
fields hold values that suit the classes they are declared with, and its lists hold items that suit
their arguments.

* `Value.Suits.mono` : a value that suits a type suits what the type passes as
* `Scope.Declares.lookup`, `Scope.Declares.assign`, `Scope.Declares.define` : scopes and locals
* `Machine.Typed.newObject`, `Machine.Typed.modifyObject` : changes of the heap
-/

namespace Middleweight

open NativeRegistry (standard)

variable {F : Type} {t : ClassTable F}

/-! ## Values -/

/-- The type that a value has by itself. -/
def Value.ownTy? : Value F → Option Ty
  | .int _ => some .int
  | .float _ => some .float
  | .bool _ => some .boolean
  | .str _ => some .string
  | .object o => some o.cls.asTy
  | .null | .cls _ | .namespace _ => none

/-- A value that may be stored where a type is expected. -/
inductive Value.Suits (t : ClassTable F) : Value F → Ty → Prop
  | null (ty : Ty) : Suits t .null ty
  | own {v : Value F} {own ty : Ty} : v.ownTy? = some own → own.Formed t.arity? [] →
      t.check own ty = true → Suits t v ty

/-- What an expression of a type evaluates to. -/
structure Variable.OfType (t : ClassTable F) (W : World F) (v : Variable F) (ty : Ty) : Prop where
  stored : v.Stored t W
  declared : v.ty.Formed t.arity? []
  suits : v.value.Suits t v.ty
  passes : t.check v.ty ty = true
  formed : ty.Formed t.arity? []

/-- A variable that is declared with a type and holds a value of it. -/
structure Variable.Declares (t : ClassTable F) (v : Variable F) (ty : Ty) : Prop where
  ty_eq : v.ty = ty
  formed : ty.Formed t.arity? []
  suits : v.value.Suits t ty

/-- What an operand stands for, and what it evaluates to. -/
def Operand.Means (t : ClassTable F) (W : World F) : Operand → Variable F → Prop
  | .value ty, v => v.OfType t W ty.resolved
  | .static name, v => ∃ c, t.Views name c ∧ v = ⟨c, .cls c⟩
  | .namespace path, v => v.value = .namespace path

theorem Value.suits_resolved {v : Value F} {ty : Ty} :
    v.Suits t ty.resolved ↔ v.Suits t ty := by
  constructor
  · intro h
    cases h with
    | null => exact .null ty
    | own hown hformed hc => exact .own hown hformed (by rwa [ClassTable.check_target] at hc)
  · intro h
    cases h with
    | null => exact .null _
    | own hown hformed hc => exact .own hown hformed (by rwa [ClassTable.check_target])

theorem Value.HasKind.ownTy? {v : Value F} {k : Kind} (h : v.HasKind t k) :
    v.ownTy? = some k.ty := by
  cases h with
  | object ho => rw [Value.ownTy?, RuntimeClass.asTy, ho.ty_eq]; rfl
  | _ => rfl

/-- Values of one kind suit the same types. -/
theorem Value.HasKind.suits_alike {v w : Value F} {k : Kind} (hv : v.HasKind t k)
    (hw : w.HasKind t k) {ty : Ty} (h : v.Suits t ty) : w.Suits t ty := by
  cases h with
  | null => cases hv
  | own hown hformed hc =>
    cases hv.ownTy?.symm.trans hown
    exact .own hw.ownTy? hformed hc

theorem Variable.OfType.mono {W V : World F} {v : Variable F} {ty : Ty} (h : v.OfType t W ty)
    (hW : W.Grows V) : v.OfType t V ty :=
  ⟨h.stored.mono hW, h.declared, h.suits, h.passes, h.formed⟩

theorem Variable.Declares.ofType {W : World F} {v : Variable F} {ty : Ty}
    (hv : v.Declares t ty) (hstored : v.Stored t W) : v.OfType t W ty := by
  obtain ⟨rfl, hformed, hsuits⟩ := hv
  exact ⟨hstored, hformed, hsuits, t.check_self _, hformed⟩

theorem Operand.Means.mono {W V : World F} {o : Operand} {v : Variable F} (h : o.Means t W v)
    (hW : W.Grows V) : o.Means t V v := by
  cases o with
  | value ty => exact Variable.OfType.mono h hW
  | static name => exact h
  | «namespace» path => exact h

section Checks

variable {t : ClassTable StandardFn} {p : Program} (h : p.WellTyped t)

include h

/-- A value that suits a type suits what the type passes as. -/
theorem Value.Suits.mono {v : Value StandardFn} {a b : Ty} (hv : v.Suits t a)
    (ha : a.Formed t.arity? []) (hb : b.Formed t.arity? []) (hab : t.check a b = true) :
    v.Suits t b := by
  cases hv with
  | null => exact .null b
  | own hown hformed hc => exact .own hown hformed (h.check_trans hformed ha hb hc hab)

theorem Variable.OfType.value {W : World StandardFn} {v : Variable StandardFn} {ty : Ty}
    (hv : v.OfType t W ty) : v.value.Suits t ty :=
  hv.suits.mono h hv.declared hv.formed hv.passes

theorem Variable.OfType.trans {W : World StandardFn} {v : Variable StandardFn} {a b : Ty}
    (hv : v.OfType t W a) (hb : b.Formed t.arity? []) (hab : t.check a b = true) :
    v.OfType t W b :=
  ⟨hv.stored, hv.declared, hv.suits, h.check_trans hv.declared hv.formed hb hv.passes hab, hb⟩

theorem Value.HasKind.suits {v : Value StandardFn} {k : Kind} (hv : v.HasKind t k) :
    v.Suits t k.ty :=
  have hformed := h.formed_kind k.typeName_mem_names
  .own hv.ownTy? hformed (t.check_self _)

/-- A value of a kind suits only the types as which its kind may pass. -/
theorem Value.HasKind.fits_of_suits {v : Value StandardFn} {k : Kind} (hk : v.HasKind t k)
    {x : String} (hv : v.Suits t (.named x)) : v.Fits t (.named x) := by
  cases hv with
  | null => exact .null _
  | own hown hformed hc =>
    cases hk.ownTy?.symm.trans hown
    exact .kind [] hk (Kind.mem_names_of_check h.build k.typeName_mem_names hc)

/-- A binary operator that allows its operands gives a value of the type that its rule names. -/
theorem BinaryOp.kind_of_apply {op : BinaryOp} {x : String} {l r v : Value StandardFn}
    (hx : x ∈ op.rule.operands) (hl : l.Suits t (.named x)) (happ : op.apply l r = .ok v) :
    ∃ k, v.HasKind t k ∧ op.rule.resultType x = k.ty := by
  have hboolean : ∀ op : BinaryOp, op.rule.result.isSome = true →
      op.rule.resultType x = Kind.boolean.ty := by
    intro op hr
    cases op <;> first | rfl | cases hr
  rcases BinaryOp.apply_ok happ with ⟨hr, b, rfl⟩ | hvalues
  · exact ⟨.boolean, .bool b, hboolean op hr⟩
  · obtain ⟨k, hk, -⟩ := BinaryOp.hasKind_of_onValues (t := t) hvalues
    exact BinaryOp.apply_sound hx (hk.fits_of_suits h hl) happ

theorem UnaryOp.kind_of_apply {op : UnaryOp} {x : String} {v w : Value StandardFn}
    (hx : x ∈ op.rule.operands) (hv : v.Suits t (.named x)) (happ : op.apply v = .ok w) :
    ∃ k, w.HasKind t k ∧ op.rule.resultType x = k.ty := by
  obtain ⟨k, hk, -⟩ := UnaryOp.hasKind_of_apply (t := t) happ
  exact UnaryOp.apply_sound hx (hk.fits_of_suits h hv) happ

/-- The default of a class suits its type. -/
theorem Value.suits_defaultFor {c : RuntimeClass StandardFn} (hc : t.Makes c)
    (hformed : c.asTy.Formed t.arity? []) : (Value.defaultFor c).Suits t c.asTy := by
  have hprimitive : ∀ {q : Primitive}, c.primitive? = some q → c.asTy = .named q.name := by
    intro q hq
    unfold RuntimeClass.primitive? at hq
    obtain ⟨tm, hget, hlen⟩ := Program.WellTyped.get?_of_formed hformed
    cases hc.get?.symm.trans hget
    rcases ClassTable.mem_classes_cases h.build (ClassTable.get?_mem hget) with
      ⟨q', heq⟩ | ⟨n, hn, hmade⟩ | ⟨d, hd, hmade⟩
    · have hname := ClassTable.get?_name hget
      rw [heq] at hq hname hlen
      cases hq
      rw [RuntimeClass.asTy, ClassTy.toTy, List.length_eq_zero_iff.mp hlen.symm]
      exact congrArg Ty.named hname.symm
    · obtain ⟨base, -, heq⟩ := ClassTable.nativeTemplate_ok hmade
      rw [heq] at hq
      cases hq
    · obtain ⟨base, fields, -, -, heq⟩ := ClassTable.declaredTemplate_ok hmade
      rw [heq] at hq
      cases hq
  unfold Value.defaultFor
  split
  · next hq => rw [hprimitive hq]; exact (Value.HasKind.int 0).suits h
  · next hq => rw [hprimitive hq]; exact (Value.HasKind.float 0.0).suits h
  · next hq => rw [hprimitive hq]; exact (Value.HasKind.bool false).suits h
  · exact .null _

end Checks

/-! ## Scopes -/

/-- The type of the running object as its body sees it. -/
def Context.thisTy? : Context F → Option Ty
  | .instance _ c => some c.asTy
  | _ => none

/-- A level has a variable for each local of a level, and no others. -/
structure Level.Declares (t : ClassTable F) (l : Level F) (names : List (String × Ty)) : Prop where
  generics : l.generics = []
  locals : ∀ name, name ≠ "this" →
    Option.Rel (Variable.Declares t) (l.locals.lookup name) (names.lookup name)

/--
A scope has a level for each level of locals. The checker has `this` among the locals, the engine
has it in the context.
-/
structure Scope.Declares (t : ClassTable F) (κ : Context F) (s : Scope F) (L : Locals) : Prop where
  context : s.context = κ
  params : κ.typeParams = []
  levels : List.Forall₂ (Level.Declares t) s.levels L
  this : L.lookup "this" = κ.thisTy?

namespace Level.Declares

variable {l : Level F} {names : List (String × Ty)}

theorem empty : Level.Declares t {} [] := ⟨rfl, fun _ _ => .none⟩

/-- A variable of the declared type for a new local. -/
theorem define (h : l.Declares t names) (name : String) {v : Variable F} {ty : Ty}
    (hv : v.Declares t ty) : (l.define name v).Declares t ((name, ty) :: names) where
  generics := h.generics
  locals := by
    intro key hthis
    unfold Level.define
    dsimp only
    rw [List.lookup_cons, List.lookup_cons]
    by_cases hkey : key = name
    · simp [hkey, hv]
    · rw [beq_false_of_ne hkey, lookup_filter_ne hkey]
      exact h.locals key hthis

/-- Another value that suits the type of its local. -/
theorem setIn (h : l.Declares t names) {name : String} {value : Value F}
    (hv : ∀ ty, names.lookup name = some ty → value.Suits t ty) :
    Level.Declares t { l with locals := Instance.setIn name value l.locals } names where
  generics := h.generics
  locals := by
    intro key hthis
    rw [Instance.lookup_setIn]
    by_cases hkey : key = name
    · subst hkey
      rw [if_pos rfl]
      rcases rel_elim (h.locals key hthis) with ⟨h1, h2⟩ | ⟨v, ty, h1, h2, hvar⟩
      · rw [h1, h2]
        exact .none
      · rw [h1, h2]
        exact .some ⟨hvar.ty_eq, hvar.formed, hv ty h2⟩
    · rw [if_neg hkey]
      exact h.locals key hthis

end Level.Declares

namespace Scope.Declares

variable {κ : Context F} {s : Scope F} {L L' : Locals}

theorem typeParams_eq (h : s.Declares t κ L) : s.typeParams = [] := by
  have hlevels : ∀ {ls : List (Level F)} {L : Locals}, List.Forall₂ (Level.Declares t) ls L →
      ls.flatMap Level.generics = [] := by
    intro ls L hl
    induction hl with
    | nil => rfl
    | cons hlevel _ ih => rw [List.flatMap_cons, hlevel.generics, ih]; rfl
  rw [Scope.typeParams, hlevels h.levels, h.context, h.params]
  rfl

theorem lookup (h : s.Declares t κ L) {name : String} (hthis : name ≠ "this") :
    Option.Rel (Variable.Declares t) (s.lookup name) (L.lookup name) := by
  have hlevels := h.levels
  clear h
  unfold Scope.lookup
  generalize s.levels = ls at hlevels
  induction hlevels with
  | nil => exact .none
  | cons hlevel _ ih =>
    rw [lookupIn, Locals.lookup]
    rcases rel_elim (hlevel.locals name hthis) with ⟨h1, h2⟩ | ⟨v, ty, h1, h2, hv⟩
    · rw [h1, h2]
      exact ih
    · rw [h1, h2]
      exact .some hv

theorem push (h : s.Declares t κ L) : s.push.Declares t κ L.push :=
  ⟨h.context, h.params, .cons .empty h.levels, h.this⟩

theorem ne_nil (h : s.Declares t κ L) : L ≠ [] := by
  rintro rfl
  cases h.levels

/-- The level that has been opened is closed; `this` was known before. -/
theorem pop {l : List (String × Ty)} (h : s.Declares t κ (l :: L)) (hL : L ≠ [])
    (hthis : L.lookup "this" = κ.thisTy?) : s.pop.Declares t κ L := by
  obtain ⟨context, current, outer⟩ := s
  obtain ⟨hcontext, hparams, hlevels, -⟩ := h
  cases hlevels with
  | cons _ hrest =>
    cases hrest with
    | nil => exact absurd rfl hL
    | cons hlevel hrest => exact ⟨hcontext, hparams, .cons hlevel hrest, hthis⟩

theorem define (h : s.Declares t κ L) {name : String} (hname : name ≠ "this") {v : Variable F}
    {ty : Ty} (hv : v.Declares t ty) (hL : L.define? name ty = some L') :
    (s.define name v).Declares t κ L' := by
  obtain ⟨context, current, outer⟩ := s
  obtain ⟨hcontext, hparams, hlevels, hthis⟩ := h
  cases hlevels with
  | cons hlevel hrest =>
    rw [Locals.define?] at hL
    split at hL
    · cases hL
    · cases hL
      refine ⟨hcontext, hparams, .cons (hlevel.define name hv) hrest, ?_⟩
      rw [Locals.lookup] at hthis ⊢
      rwa [List.lookup_cons, beq_false_of_ne hname.symm]

theorem assignIn {name : String} (hthis : name ≠ "this") {ty : Ty} {value : Value F}
    (hv : value.Suits t ty) : ∀ {ls : List (Level F)} {L : Locals},
    List.Forall₂ (Level.Declares t) ls L → L.lookup name = some ty →
    ∃ ls', Scope.assignIn name value ls = some ls' ∧ List.Forall₂ (Level.Declares t) ls' L := by
  intro ls L h
  induction h with
  | nil => intro hL; cases hL
  | @cons l names rest L hlevel hrest ih =>
    intro hL
    rw [Locals.lookup] at hL
    rw [Scope.assignIn]
    rcases rel_elim (hlevel.locals name hthis) with ⟨h1, h2⟩ | ⟨v, ty', h1, h2, -⟩
    · rw [h2] at hL
      obtain ⟨ls', heq, hdeclares⟩ := ih hL
      rw [h1, heq]
      exact ⟨l :: ls', rfl, .cons hlevel hdeclares⟩
    · rw [h2] at hL
      cases hL
      rw [h1]
      refine ⟨_, rfl, .cons (hlevel.setIn fun ty hty => ?_) hrest⟩
      rw [h2] at hty
      cases hty
      exact hv

/-- A value that suits the type of a local can be assigned to it. -/
theorem assign (h : s.Declares t κ L) {name : String} (hthis : name ≠ "this") {ty : Ty}
    {value : Value F} (hL : L.lookup name = some ty) (hv : value.Suits t ty) :
    ∃ s', s.assign name value = some s' ∧ s'.Declares t κ L := by
  obtain ⟨ls, heq, hdeclares⟩ := assignIn hthis hv h.levels hL
  unfold Scope.assign
  rw [heq]
  cases hdeclares with
  | nil => exact absurd rfl h.ne_nil
  | cons hlevel hrest => exact ⟨_, rfl, h.context, h.params, .cons hlevel hrest, h.this⟩

/-- What is not a local is not assigned to in a scope. -/
theorem assign_of_none (h : s.Declares t κ L) {name : String} (hthis : name ≠ "this")
    (hL : L.lookup name = none) (value : Value F) : s.assign name value = none := by
  have hlevels := h.levels
  have hnone : Scope.assignIn name value s.levels = none := by
    clear h
    generalize s.levels = ls at hlevels
    induction hlevels with
    | nil => rfl
    | cons hlevel _ ih =>
      rw [Locals.lookup] at hL
      rw [Scope.assignIn]
      rcases rel_elim (hlevel.locals name hthis) with ⟨h1, h2⟩ | ⟨v, ty', h1, h2, -⟩
      · rw [h2] at hL
        rw [h1, ih hL]
        rfl
      · rw [h2] at hL
        cases hL
  unfold Scope.assign
  rw [hnone]

end Scope.Declares

/-! ## Objects and machines -/

/-- The fields of an object hold what they are declared to hold, and the items of a list suit it. -/
structure Instance.Suits (t : ClassTable F) (c : RuntimeClass F) (i : Instance F) : Prop where
  fields : ∀ f ∈ i.fields, f.2.value.Suits t f.2.ty
  items : ∀ xs, i.host = some (.items xs) → ∀ x ∈ xs, ∀ item ∈ c.ty.args, x.value.Suits t item

/-- A machine in a world whose body has given locals. -/
structure Machine.Typed (t : ClassTable F) (κ : Context F) (W : World F) (L : Locals)
    (m : Machine F) : Prop where
  valid : m.Valid t True W
  formed : ∀ c, some c ∈ W → c.asTy.Formed t.arity? []
  contents : List.Forall₂ (fun c? i => ∀ c ∈ c?, Instance.Suits t c i) W m.heap.toList
  scope : m.scope.Declares t κ L

namespace Instance.Suits

variable {c : RuntimeClass F} {i : Instance F} (h : i.Suits t c)

include h

/-- Another value that suits what each field of the name is declared to hold. -/
theorem setField {name : String} {value : Value F}
    (hv : ∀ f ∈ i.fields, f.1 = name → value.Suits t f.2.ty) :
    (i.setField name value).Suits t c := by
  refine ⟨?_, h.items⟩
  have hset : ∀ {fs : List (String × Variable F)}, (∀ f ∈ fs, f.2.value.Suits t f.2.ty) →
      (∀ f ∈ fs, f.1 = name → value.Suits t f.2.ty) →
      ∀ f ∈ Instance.setIn name value fs, f.2.value.Suits t f.2.ty := by
    intro fs
    induction fs with
    | nil => exact fun _ _ _ hf => nomatch hf
    | cons f fs ih =>
      intro hfields hv
      obtain ⟨hf, hfs⟩ := List.forall_mem_cons.mp hfields
      obtain ⟨hvf, hvfs⟩ := List.forall_mem_cons.mp hv
      obtain ⟨key, v⟩ := f
      rw [Instance.setIn]
      split
      · next hkey => exact List.forall_mem_cons.mpr ⟨hvf hkey, hfs⟩
      · exact List.forall_mem_cons.mpr ⟨hf, ih hfs hvfs⟩
  exact hset h.fields hv

theorem setItems {xs : List (Variable F)}
    (hxs : ∀ x ∈ xs, ∀ item ∈ c.ty.args, x.value.Suits t item) :
    Instance.Suits t c { i with host := some (.items xs) } :=
  ⟨h.fields, fun ys hys => by cases hys; exact hxs⟩

end Instance.Suits

private theorem forall₂_and {α β : Type} {R S : α → β → Prop} {as : List α} {bs : List β}
    (h : List.Forall₂ R as bs) (h' : List.Forall₂ S as bs) :
    List.Forall₂ (fun a b => R a b ∧ S a b) as bs := by
  induction h with
  | nil => exact .nil
  | cons hr _ ih =>
    cases h' with
    | cons hs hrest => exact .cons ⟨hr, hs⟩ (ih hrest)

namespace Machine.Typed

variable {κ : Context F} {W V : World F} {L : Locals} {m : Machine F} (h : m.Typed t κ W L)

include h

theorem makes {o : ObjectRef F} (ho : o.In W) : t.Makes o.cls := (h.valid.creates ho).makes trivial

theorem formed_object {o : ObjectRef F} (ho : o.In W) : o.cls.asTy.Formed t.arity? [] :=
  h.formed _ (List.mem_of_getElem? ho)

theorem context_valid : κ.Valid t W := h.scope.context ▸ h.valid.scope.context

/-- Types look at neither open calls nor events nor output. -/
theorem of_eq {m' : Machine F} (hr : m'.registry = m.registry) (hh : m'.heap = m.heap)
    (hst : m'.statics = m.statics) (hs : m'.scope = m.scope) : m'.Typed t κ W L :=
  ⟨h.valid.of_eq hr hh hst hs, h.formed, hh ▸ h.contents, hs ▸ h.scope⟩

theorem tell (eng : Engine F) (event : Event) : (eng.tell event m).Typed t κ W L := by
  unfold Engine.tell
  split
  · exact h.of_eq rfl rfl rfl rfl
  · exact h

theorem pushFrame (eng : Engine F) (frame : Frame) : (eng.pushFrame frame m).Typed t κ W L :=
  (h.tell eng (.enter frame)).of_eq rfl rfl rfl rfl

theorem popFrame (eng : Engine F) : (eng.popFrame m).Typed t κ W L := by
  unfold Engine.popFrame
  split
  · exact h
  · next frame rest _ =>
    have hrest : Machine.Typed t κ W L { m with stack := rest } := h.of_eq rfl rfl rfl rfl
    exact hrest.tell eng _

theorem withMemory {r : Registry F} {k : ResolutionCache (RuntimeClass F)} (hr : r.Valid t)
    (hk : k.Valid t) : (m.withMemory r k).Typed t κ W L := by
  refine ⟨h.valid.withMemory hr hk, h.formed, h.contents, h.scope.context, h.scope.params, ?_,
    h.scope.this⟩
  have hlevels := h.scope.levels
  cases hL : L with
  | nil => exact absurd hL h.scope.ne_nil
  | cons names rest =>
    rw [hL] at hlevels
    obtain ⟨hlevel, hrest⟩ := List.forall₂_cons.mp hlevels
    exact .cons ⟨hlevel.generics, hlevel.locals⟩ hrest

theorem withScope {κ' : Context F} {s : Scope F} {L' : Locals} (hs : s.Valid t True W)
    (hd : s.Declares t κ' L') : Machine.Typed t κ' W L' { m with scope := s } :=
  ⟨h.valid.withScope hs, h.formed, h.contents, hd⟩

theorem withStatic {e : (String × String) × Variable F} (he : IsOutput t W e) :
    Machine.Typed t κ W L { m with statics := e :: m.statics } :=
  ⟨h.valid.withStatic he, h.formed, h.contents, h.scope⟩

theorem instance_of {o : ObjectRef F} (ho : o.In W) :
    ∃ i, m.heap[o.id]? = some i ∧ i.Valid t W o.cls ∧ i.Suits t o.cls := by
  obtain ⟨i, hi, hvalid⟩ := h.valid.contents ho
  rcases rel_elim (forall₂_getElem? h.contents o.id) with ⟨h1, -⟩ | ⟨c, i', h1, h2, hsuits⟩
  · rw [ho] at h1
    cases h1
  · rw [ho] at h1
    cases h1
    rw [Array.getElem?_toList, hi] at h2
    cases h2
    exact ⟨i, hi, hvalid, hsuits _ rfl⟩

/-- Other contents of an object, of the types of its class. -/
theorem modifyObject {o : ObjectRef F} (ho : o.In W) {f : Instance F → Instance F}
    (hvalid : ∀ i, i.Valid t W o.cls → (f i).Valid t W o.cls)
    (hsuits : ∀ i, i.Valid t W o.cls → i.Suits t o.cls → (f i).Suits t o.cls) :
    Machine.Typed t κ W L { m with heap := m.heap.modify o.id f } where
  valid := h.valid.modifyObject ho hvalid
  formed := h.formed
  contents := by
    rw [Array.toList_modify]
    refine (forall₂_modify (forall₂_and h.valid.heap h.contents) fun c? i hc hi => ?_).imp
      fun c? i hi => hi.2
    rw [ho] at hc
    cases hc
    refine ⟨hvalid i hi.1, fun c hc => ?_⟩
    cases hc
    exact hsuits i hi.1 (hi.2 _ rfl)
  scope := h.scope

/-- A new object. -/
theorem newObject {c : RuntimeClass F} (hc : t.Makes c) (hformed : c.asTy.Formed t.arity? [])
    {i : Instance F} (hvalid : i.Valid t W c) (hsuits : i.Suits t c) :
    Machine.Typed t κ (W ++ [some c]) L { m with heap := m.heap.push i } where
  valid := h.valid.newObject (.inl hc) hvalid
  formed d hd := by
    rcases List.mem_append.mp hd with hd | hd
    · exact h.formed d hd
    · cases List.mem_singleton.mp hd
      exact hformed
  contents := by
    rw [Array.toList_push]
    refine List.rel_append h.contents (.cons (fun d hd => ?_) .nil)
    cases hd
    exact hsuits
  scope := h.scope

end Machine.Typed

/-- A fresh machine is typed, and has no locals. -/
theorem Machine.Typed.fresh : Machine.Typed t .global [] [[]] ({} : Machine F) where
  valid := .fresh
  formed _ hc := nomatch hc
  contents := .nil
  scope := ⟨rfl, rfl, .cons .empty .nil, rfl⟩

end Middleweight
