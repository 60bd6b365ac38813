import Middleweight.Proofs.Engine.Parts
import Middleweight.Proofs.Engine.ResultKinds
import Middleweight.Proofs.World.Basic

/-!
# Computations that sustain validity

A computation sustains validity when from every machine that is valid in some world it leaves a
machine that is valid in a world with perhaps more objects, however it ends, and its result is as it
should be there. On a strict machine it does not stop because of an unbound parameter either.

* `Engine.Sustains.bind` : sequences
* `Engine.sustains_classOf`, `Engine.sustains_resolveType` : classes
* `Engine.sustains_allocate` : new objects
* `Engine.sustains_lookup`, `Engine.sustains_store` : bare names
-/

namespace Middleweight

variable {F α β : Type}

/-- Whether a fault is about an unbound parameter. -/
def Fault.isUnboundGeneric : Fault F → Bool
  | .type e => e.isUnboundGeneric
  | _ => false

/-- Whether a computation stopped because of an unbound parameter. -/
def Stop.isUnboundGeneric : Stop F → Bool
  | .error e => e.fault.isUnboundGeneric
  | .exhausted => false

namespace ClassTable

variable {t : ClassTable F}

/-- A class that is named with arguments is one that an engine makes. -/
theorem makes_classNamed {name : String} {args : List Ty} {span : Span} {c : RuntimeClass F}
    (h : t.classNamed name args span = .ok c) : t.Makes c := by
  unfold classNamed at h
  split at h
  · cases h
  · exact ⟨_, (classFor_ok h).1⟩

/-- What a written type means is a class that an engine makes. -/
theorem makes_meaning {params : TypeParams} {e : TypeExpr} {c : RuntimeClass F}
    (h : t.meaning params e = .ok c) : t.Makes c := by
  obtain ⟨name, generics, span⟩ := e
  rw [meaning] at h
  split at h
  · exact ⟨_, (classFor_ok h).1⟩
  · split at h
    · cases h
    · exact makes_classNamed h

/-- The static view of a name is one that an engine shows. -/
theorem shows_namedView {name : String} {span : Span} {c : RuntimeClass F}
    (h : t.namedView name span = .ok (some c)) : t.Shows c := by
  unfold namedView at h
  split at h
  · cases h
  · obtain ⟨d, hd, heq⟩ := ok_of_map h
    cases heq
    exact ⟨_, views_of_view hd⟩

/-- Static views bind no parameters, so none of theirs can be unbound. -/
theorem namedView_error {name : String} {span : Span} {err : TypeError}
    (h : t.namedView name span = .error err) : err.isUnboundGeneric = false := by
  unfold namedView at h
  split at h
  · cases h
  · next full _ =>
    cases hview : t.viewFor full span with
    | ok c =>
      rw [hview] at h
      cases h
    | error e =>
      rw [hview] at h
      cases h
      exact view_error hview

end ClassTable

/-! ## What operators give -/

/-- A value that has neither objects nor classes in it. -/
def Value.IsPlain : Value F → Prop
  | .object _ | .cls _ => False
  | _ => True

/-- What is no object and no class is valid everywhere. -/
theorem Value.IsPlain.valid {v : Value F} (h : v.IsPlain) (t : ClassTable F) (W : World F) :
    v.Valid t W := by
  cases v with
  | object o => exact h.elim
  | cls c => exact h.elim
  | _ => trivial

theorem BinaryOp.isPlain_onValues {op : BinaryOp} {l r v : Value F}
    (h : op.onValues l r = some (.ok v)) : v.IsPlain := by
  unfold onValues at h
  split at h
  · cases op <;> simp only [onInts, Option.some.injEq, reduceCtorEq] at h <;>
      (try split at h) <;> cases h <;> trivial
  · obtain ⟨w, hw, heq⟩ := Option.map_eq_some_iff.mp h
    cases heq
    cases op <;> cases hw <;> trivial
  · obtain ⟨w, hw, heq⟩ := Option.map_eq_some_iff.mp h
    cases heq
    cases op <;> cases hw <;> trivial
  · obtain ⟨w, hw, heq⟩ := Option.map_eq_some_iff.mp h
    cases heq
    cases op <;> cases hw <;> trivial
  · cases h

/-- Operators give values that are no objects and no classes. -/
theorem BinaryOp.isPlain_apply {op : BinaryOp} {l r v : Value F} (h : op.apply l r = .ok v) :
    v.IsPlain := by
  rcases apply_ok h with ⟨-, b, rfl⟩ | hvalues
  · trivial
  · exact isPlain_onValues hvalues

theorem UnaryOp.isPlain_apply {op : UnaryOp} {v w : Value F} (h : op.apply v = .ok w) :
    w.IsPlain := by
  unfold apply at h
  split at h <;> cases h <;> trivial

theorem StepOp.isPlain_apply {op : StepOp} {v w : Value F} (h : op.apply v = .ok w) :
    w.IsPlain := by
  unfold apply at h
  split at h <;> cases h <;> trivial

namespace Engine

/--
A valid machine in a grown world, with a result that is as it should be or an admissible stop.
-/
inductive Leaves (t : ClassTable F) (strict : Prop) (W : World F) (Q : World F → α → Prop) :
    EStateM.Result (Stop F) (Machine F) α → Prop
  | ok {V : World F} {a : α} {m : Machine F} :
      W.Grows V → m.Valid t strict V → Q V a → Leaves t strict W Q (.ok a m)
  | error {V : World F} {e : Stop F} {m : Machine F} :
      W.Grows V → m.Valid t strict V → (strict → e.isUnboundGeneric = false) →
      Leaves t strict W Q (.error e m)

/-- From every machine that is valid in a world, a computation leaves a valid machine. -/
def Sustains (eng : Engine F) (strict : Prop) (W : World F) (x : EvalM F α)
    (Q : World F → α → Prop) : Prop :=
  ∀ m : Machine F, m.Valid eng.table strict W → Leaves eng.table strict W Q (x m)

variable {eng : Engine F} {strict : Prop} {W : World F} {Q : World F → α → Prop}
  {R : World F → β → Prop} {x : EvalM F α}

/-! ## Sequences -/

namespace Sustains

theorem pure {a : α} (h : Q W a) : eng.Sustains strict W (Pure.pure a) Q :=
  fun _ hm => .ok (.refl W) hm h

/-- In a sequence the second part starts in a world with the objects that the first one made. -/
theorem bind (hx : eng.Sustains strict W x Q) {f : α → EvalM F β}
    (hf : ∀ V a, W.Grows V → Q V a → eng.Sustains strict V (f a) R) :
    eng.Sustains strict W (x >>= f) R := by
  intro m hm
  have h := hx m hm
  show Leaves eng.table strict W R (EStateM.bind x f m)
  unfold EStateM.bind
  generalize x m = r at h
  cases h with
  | ok hV hm₁ hq =>
    have h' := hf _ _ hV hq _ hm₁
    dsimp only
    generalize f _ _ = r' at h'
    cases h' with
    | ok hV' hm₂ hr => exact .ok (hV.trans hV') hm₂ hr
    | error hV' hm₂ he => exact .error (hV.trans hV') hm₂ he
  | error hV hm₁ he => exact .error hV hm₁ he

/-- What is known of a result may be weakened. -/
theorem mono {Q' : World F → α → Prop} (hx : eng.Sustains strict W x Q)
    (hQ : ∀ V a, W.Grows V → Q V a → Q' V a) : eng.Sustains strict W x Q' := by
  intro m hm
  have h := hx m hm
  generalize x m = r at h
  cases h with
  | ok hV hm₁ hq => exact .ok hV hm₁ (hQ _ _ hV hq)
  | error hV hm₁ he => exact .error hV hm₁ he

theorem map (hx : eng.Sustains strict W x Q) {f : α → β}
    (hf : ∀ V a, W.Grows V → Q V a → R V (f a)) :
    eng.Sustains strict W (do return f (← x)) R :=
  hx.bind fun V a hV hq => .pure (hf V a hV hq)

/-- What a computation leaves that ends well. -/
theorem ok (hx : eng.Sustains strict W x Q) {m m' : Machine F} (hm : m.Valid eng.table strict W)
    {a : α} (h : x m = .ok a m') : ∃ V, W.Grows V ∧ m'.Valid eng.table strict V ∧ Q V a := by
  have hleft := hx m hm
  rw [h] at hleft
  cases hleft with
  | ok hV hm' hq => exact ⟨_, hV, hm', hq⟩

/-- The objects of a world may be taken to have classes that objects may have. -/
theorem assuming (h : (∀ o : ObjectRef F, o.In W → eng.table.Creates strict o.cls) →
    eng.Sustains strict W x Q) : eng.Sustains strict W x Q :=
  fun m hm => h (fun _ ho => hm.creates ho) m hm

/-! ## Stops -/

theorem exhausted : eng.Sustains strict W EvalM.exhausted Q :=
  fun _ hm => .error (.refl W) hm fun _ => rfl

/-- A stop sustains validity; on a strict machine it must not be about an unbound parameter. -/
theorem raise {fault : Fault F} (span : Span) (h : strict → fault.isUnboundGeneric = false) :
    eng.Sustains strict W (eng.raise fault span) Q :=
  fun _ hm => .error (.refl W) hm h

theorem invalid (op : InvalidOperation F) (span : Span) :
    eng.Sustains strict W (eng.invalid op span) Q :=
  raise span fun _ => rfl

/-- So does the result of a computation with types. -/
theorem types {r : Except TypeError α} (hok : ∀ a, r = .ok a → Q W a)
    (herror : strict → ∀ e, r = .error e → e.isUnboundGeneric = false) :
    eng.Sustains strict W (eng.types r) Q := by
  cases r with
  | ok a => exact .pure (hok a rfl)
  | error e => exact raise _ fun hs => herror hs e rfl

theorem operators {r : Except (OperatorError F) α} (span : Span) (hok : ∀ a, r = .ok a → Q W a) :
    eng.Sustains strict W (eng.operators span r) Q := by
  cases r with
  | ok a => exact .pure (hok a rfl)
  | error e => exact invalid _ span

/-! ## Frames, scopes and levels -/

theorem read : eng.Sustains strict W get fun V m => m.Valid eng.table strict V :=
  fun _ hm => .ok (.refl W) hm hm

/-- A change of the machine must keep it valid. -/
theorem change {f : Machine F → Machine F}
    (h : ∀ m, m.Valid eng.table strict W → (f m).Valid eng.table strict W) :
    eng.Sustains strict W (modify f) fun _ _ => True :=
  fun m hm => .ok (.refl W) (h m hm) trivial

/-- A frame on the stack says nothing of objects. -/
theorem withFrame (hx : eng.Sustains strict W x Q) (frame : Frame) :
    eng.Sustains strict W (eng.withFrame frame x) Q := by
  intro m hm
  have h := hx (eng.pushFrame frame m) (hm.pushFrame eng frame)
  unfold Engine.withFrame
  generalize x (eng.pushFrame frame m) = r at h
  cases h with
  | ok hV hm₁ hq => exact .ok hV (hm₁.popFrame eng) hq
  | error hV hm₁ he => exact .error hV (hm₁.popFrame eng) he

/-- A scope of its own must be valid, and the scope around it is as valid afterwards as before. -/
theorem withScope {s : Scope F} (hs : s.Valid eng.table strict W)
    (hx : eng.Sustains strict W x Q) : eng.Sustains strict W (EvalM.withScope s x) Q := by
  intro m hm
  have h := hx { m with scope := s } (hm.withScope hs)
  unfold EvalM.withScope
  dsimp only
  generalize x { m with scope := s } = r at h
  cases h with
  | ok hV hm₁ hq => exact .ok hV (hm₁.withScope (hm.scope.mono hV)) hq
  | error hV hm₁ he => exact .error hV (hm₁.withScope (hm.scope.mono hV)) he

/-- A level of its own starts empty, and is gone afterwards. -/
theorem nested (hx : eng.Sustains strict W x Q) : eng.Sustains strict W (EvalM.nested x) Q := by
  have hpop : ∀ {V} {m : Machine F}, m.Valid eng.table strict V →
      Machine.Valid eng.table strict V { m with scope := m.scope.pop } := by
    intro V m hm
    exact hm.withScope hm.scope.pop
  intro m hm
  have h := hx { m with scope := m.scope.push } (hm.withScope hm.scope.push)
  unfold EvalM.nested
  generalize x { m with scope := m.scope.push } = r at h
  cases h with
  | ok hV hm₁ hq => exact .ok hV (hpop hm₁) hq
  | error hV hm₁ he => exact .error hV (hpop hm₁) he

theorem scope : eng.Sustains strict W EvalM.scope fun V s => s.Valid eng.table strict V :=
  fun _ hm => .ok (.refl W) hm hm.scope

theorem modifyScope {f : Scope F → Scope F}
    (h : ∀ s, s.Valid eng.table strict W → (f s).Valid eng.table strict W) :
    eng.Sustains strict W (EvalM.modifyScope f) fun _ _ => True :=
  .change fun _ hm => hm.withScope (h _ hm.scope)

end Sustains

/-! ## The heap -/

/-- An object of the world has contents, which are valid for its class. -/
theorem sustains_contents {o : ObjectRef F} (ho : o.In W) :
    eng.Sustains strict W (EvalM.contents o)
      fun V i => ∃ x, i = some x ∧ x.Valid eng.table V o.cls := by
  intro m hm
  obtain ⟨i, hi, hvalid⟩ := hm.contents ho
  exact .ok (.refl W) hm ⟨i, hi, hvalid⟩

/-- A field of an object is stored with a valid value. -/
theorem sustains_field? {o : ObjectRef F} (ho : o.In W) (name : String) :
    eng.Sustains strict W (EvalM.field? o name)
      fun V v => ∀ w, v = some w → w.Stored eng.table V := by
  refine (sustains_contents ho).map fun V i _ hi => ?_
  obtain ⟨x, rfl, hx⟩ := hi
  exact fun w hw => hx.stored hw

theorem sustains_modifyContents {o : ObjectRef F} (ho : o.In W) {f : Instance F → Instance F}
    (hf : ∀ i, i.Valid eng.table W o.cls → (f i).Valid eng.table W o.cls) :
    eng.Sustains strict W (EvalM.modifyContents o f) fun _ _ => True :=
  .change fun _ hm => hm.modifyObject ho hf

/-- A valid value may be stored in any field. -/
theorem sustains_setField {o : ObjectRef F} (ho : o.In W) (name : String) {value : Value F}
    (hv : value.Valid eng.table W) :
    eng.Sustains strict W (EvalM.setField o name value) fun _ _ => True := by
  refine (sustains_field? ho name).bind fun V v hV _ => ?_
  cases v with
  | none => exact .pure trivial
  | some v =>
    refine (sustains_modifyContents (ho.mono hV) fun i hi => ?_).bind fun _ _ _ _ => .pure trivial
    exact hi.setField name (hv.mono hV)

/-- A new object is one more in the world. -/
theorem sustains_newObject {c : RuntimeClass F} (hc : eng.table.Creates strict c)
    {fields : List (String × Variable F)}
    (hf : Instance.Valid eng.table W c { fields }) :
    eng.Sustains strict W (EvalM.newObject c fields) fun V o => o.In V ∧ o.cls = c := by
  intro m hm
  refine .ok (.new W c) (hm.newObject hc hf) ⟨?_, rfl⟩
  show (W ++ [some c])[m.heap.size]? = some (some c)
  rw [hm.size_heap]
  simp

/-! ## Frames, events and output -/

theorem sustains_tellStatement (span : Span) :
    eng.Sustains strict W (eng.tellStatement span) fun _ _ => True := by
  unfold tellStatement
  split
  · exact .change fun m hm => hm.tell eng _
  · exact .pure trivial

theorem sustains_write (text : String) :
    eng.Sustains strict W (eng.write text) fun _ _ => True := by
  unfold write
  split
  · exact .pure trivial
  · refine (Sustains.change fun m hm => ?_).bind fun _ _ _ _ => .pure trivial
    exact hm.of_eq rfl rfl rfl rfl

theorem sustains_define (name : String) {v : Variable F} (hv : v.Stored eng.table W) :
    eng.Sustains strict W (EvalM.modifyScope fun s => s.define name v) fun _ _ => True :=
  .modifyScope fun _ hs => hs.define name hv

/-! ## Classes -/

section Classes

variable (ht : eng.table.Closed)

include ht

/-- Classes of types are made, on a strict machine of types that are bound. -/
theorem sustains_classOf {ty : Ty} (hty : strict → ty.firstUnbound? = none) (span : Span) :
    eng.Sustains strict W (eng.classOf ty span)
      fun _ c => eng.table.Makes c ∧ c.asTy = ty.resolved := by
  intro m hm
  obtain ⟨r, hr, heq⟩ := classOf_eq hm.remembers ty span
  rw [heq]
  refine Sustains.types (fun c hc => ?_) (fun hs e he => ht.classFor_error (hty hs) he) _
    (hm.withMemory hr hm.remembers.current)
  obtain ⟨hi, hres⟩ := ClassTable.classFor_ok hc
  exact ⟨⟨_, hi⟩, hres.symm⟩

omit ht in
/-- Static views are shown, and never fail for an unbound parameter. -/
theorem sustains_staticView (name : String) (span : Span) :
    eng.Sustains strict W (eng.staticView name span) fun _ c => eng.table.Shows c := by
  intro m hm
  obtain ⟨r, hr, heq⟩ := staticView_eq hm.remembers name span
  rw [heq]
  refine Sustains.types (fun c hc => ?_) (fun _ e he => ClassTable.view_error he) _
    (hm.withMemory hr hm.remembers.current)
  exact ⟨name, ClassTable.views_of_view hc⟩

/-- Whatever the scope remembers, a written type resolves to a class that the engine makes. -/
theorem sustains_resolveType (e : TypeExpr) :
    eng.Sustains strict W (eng.resolveType e) fun _ c => eng.table.Makes c := by
  intro m hm
  obtain ⟨r, k, hr, hk, heq⟩ := resolveType_eq e hm.remembers
  rw [heq]
  exact Sustains.types (fun c hc => ClassTable.makes_meaning hc)
    (fun hs e he => ht.meaning_error (hm.concrete_typeParams hs) he) _ (hm.withMemory hr hk)

omit ht in
/-- A bare name gives a static view or nothing. -/
theorem sustains_staticClass (name : String) (span : Span) :
    eng.Sustains strict W (eng.staticClass name span)
      fun _ c => ∀ d, c = some d → eng.table.Shows d := by
  intro m hm
  obtain ⟨r, k, hr, hk, heq⟩ := staticClass_eq hm.remembers name span
  rw [heq]
  refine Sustains.types (fun c hc d hd => ?_) (fun _ e he => ClassTable.namedView_error he) _
    (hm.withMemory hr hk)
  subst hd
  exact ClassTable.shows_namedView hc

/-! ## New objects -/

/-- Fields are filled with the default values of their types, the most derived of each name. -/
theorem sustains_newFields (span : Span) : ∀ {slots : List FieldSlot}
    {made : List (String × Variable F)} {W : World F},
    (strict → ∀ s ∈ slots, s.ty.IsGround) →
    eng.Sustains strict W (eng.newFields span slots made) fun V fs =>
      ∃ new, fs = made.reverse ++ new ∧
      List.Forall₂ (FieldSlot.Holds eng.table) (FieldSlot.firsts (made.map Prod.fst) slots) new ∧
      ∀ f ∈ new, f.2.value.Valid eng.table V := by
  intro slots
  induction slots with
  | nil =>
    intro made W _
    exact .pure ⟨[], (List.append_nil _).symm, .nil, fun _ h => absurd h List.not_mem_nil⟩
  | cons s rest ih =>
    intro made W hslots
    have hrest : strict → ∀ s ∈ rest, s.ty.IsGround := fun hs r hr =>
      hslots hs r (List.mem_cons_of_mem _ hr)
    unfold newFields FieldSlot.firsts
    cases hseen : made.lookup s.name with
    | some v =>
      rw [if_pos (isSome_lookup_iff.mp (by rw [hseen]; rfl))]
      exact ih hrest
    | none =>
      rw [if_neg fun h => by simpa [hseen] using isSome_lookup_iff.mpr h]
      have hty : strict → s.ty.firstUnbound? = none := fun hs =>
        Ty.firstUnbound?_of_isGround (hslots hs s List.mem_cons_self)
      refine (sustains_classOf ht hty span).bind fun V c _ hc => ?_
      refine (ih hrest).mono fun U fs _ hfs => ?_
      obtain ⟨new, rfl, hholds, hvalues⟩ := hfs
      refine ⟨(s.name, ⟨c, Value.defaultFor c⟩) :: new, by simp, .cons ⟨rfl, hc.1, hc.2⟩ hholds, ?_⟩
      intro f hf
      rcases List.mem_cons.mp hf with rfl | hf
      · exact Value.valid_defaultFor c
      · exact hvalues f hf

/-- Allocation adds an object of the class, with its fields filled. -/
theorem sustains_allocate {c : RuntimeClass F} (hc : eng.table.Creates strict c) (span : Span) :
    eng.Sustains strict W (eng.allocate c span) fun V o => o.In V ∧ o.cls = c := by
  have hfields : strict → ∀ s ∈ c.allFields, s.ty.IsGround := fun hs =>
    (hc.makes hs).isGround_fields ht
  refine (sustains_newFields ht span hfields).bind fun V fs _ hfs => ?_
  obtain ⟨new, rfl, hholds, hvalues⟩ := hfs
  exact sustains_newObject hc ⟨hholds, hvalues, fun _ h => nomatch h⟩

/-! ## Values and names -/

omit ht in
/-- An object has its class for its declared class. -/
theorem sustains_ownClass {o : ObjectRef F} (ho : o.In W) :
    eng.Sustains strict W (Pure.pure (⟨o.cls, .object o⟩ : Variable F))
      fun V w => w.Valid eng.table strict V :=
  .assuming fun hobjects => .pure ⟨(hobjects o ho).imp_right fun hc =>
    ⟨hc.2, fun hs => absurd hs hc.1⟩, ho⟩

/-- A plain value with the class of a ground type. -/
theorem sustains_withClass {v : Value F} (hv : v.IsPlain) {ty : Ty}
    (hty : ty.IsGround) (span : Span) :
    eng.Sustains strict W (do return ⟨← eng.classOf ty span, v⟩)
      fun V (w : Variable F) => w.Valid eng.table strict V :=
  (sustains_classOf ht (fun _ => Ty.firstUnbound?_of_isGround hty) span).map
    fun _ _ _ hc => ⟨.inl hc.1, hv.valid _ _⟩

/-- A value with the class of its type is valid. -/
theorem sustains_typedValue {v : Value F} (hv : v.Valid eng.table W) (span : Span) :
    eng.Sustains strict W (eng.typedValue v span) fun V w => w.Valid eng.table strict V := by
  have hroot : ∀ name : String, (Ty.named name).IsGround := fun _ =>
    Ty.isGround_cls.mpr Ty.allGround_nil
  cases v with
  | object o => exact sustains_ownClass hv
  | cls c => exact .pure ⟨hv.imp_right (⟨·, fun _ => trivial⟩), hv⟩
  | int n => exact sustains_withClass ht (v := .int n) trivial (hroot _) span
  | float x => exact sustains_withClass ht (v := .float x) trivial (hroot _) span
  | bool b => exact sustains_withClass ht (v := .bool b) trivial (hroot _) span
  | str s => exact sustains_withClass ht (v := .str s) trivial (hroot _) span
  | null => exact sustains_withClass ht (v := .null) trivial (hroot _) span
  | «namespace» path => exact sustains_withClass ht (v := .namespace path) trivial (hroot _) span

omit ht in
theorem sustains_ownField? {context : Context F} (hc : context.Valid eng.table W) (name : String) :
    eng.Sustains strict W (EvalM.ownField? context name)
      fun V v => ∀ w, v = some w → w.Stored eng.table V := by
  cases context with
  | «instance» o c => exact sustains_field? hc.1 name
  | global => exact .pure fun _ h => nomatch h
  | static c => exact .pure fun _ h => nomatch h

/-- A name that is no variable gives a static view or a namespace. -/
theorem sustains_lookupClass (name : Identifier) :
    eng.Sustains strict W (eng.lookupClass name) fun V w => w.Valid eng.table strict V := by
  refine (sustains_staticClass _ _).bind fun V c _ hc => ?_
  cases c with
  | some c =>
    have hshows := hc c rfl
    exact .pure ⟨.inr ⟨hshows, fun _ => trivial⟩, .inr hshows⟩
  | none =>
    dsimp only
    split
    · exact sustains_typedValue ht (v := .namespace name.name) trivial _
    · exact .raise _ fun _ => rfl

/-- A bare name stands for something valid. -/
theorem sustains_lookup (name : Identifier) :
    eng.Sustains strict W (eng.lookup name) fun V w => w.Valid eng.table strict V := by
  rw [lookup_eq]
  refine Sustains.scope.bind fun V s _ hs => ?_
  unfold lookupIn
  split
  · have hcontext := hs.context
    cases hc : s.context with
    | «instance» o c =>
      rw [hc] at hcontext
      exact sustains_ownClass hcontext.1
    | global => exact .raise _ fun _ => rfl
    | static c => exact .raise _ fun _ => rfl
  · split
    · next hlookup => exact .pure (hs.lookup hlookup).valid
    · refine (sustains_ownField? hs.context name.name).bind fun U v _ hv => ?_
      cases v with
      | some v => exact .pure (hv v rfl).valid
      | none => exact sustains_lookupClass ht name

omit ht in
theorem sustains_undefinedField (receiver : Value F) (field : Identifier) :
    eng.Sustains strict W (eng.undefinedField receiver field : EvalM F α) Q :=
  .raise _ fun _ => rfl

/-! ## Assignment -/

omit ht in
theorem sustains_setOwnField {context : Context F} (hc : context.Valid eng.table W) (name : String)
    {value : Value F} (hv : value.Valid eng.table W) :
    eng.Sustains strict W (EvalM.setOwnField context name value) fun _ _ => True := by
  cases context with
  | «instance» o c => exact sustains_setField hc.1 name hv
  | global => exact .pure trivial
  | static c => exact .pure trivial

omit ht in
/-- A bare name is assigned to where it is found: in the scope or in the object of the context. -/
theorem sustains_store (target : Identifier) {value : Value F} (hv : value.Valid eng.table W) :
    eng.Sustains strict W (eng.store target value) fun _ _ => True := by
  rw [store_eq]
  split
  · exact .invalid _ _
  · refine Sustains.scope.bind fun V s hV hs => ?_
    unfold storeIn
    split
    · next hassign => exact .modifyScope fun _ _ => hs.assign (hv.mono hV) hassign
    · refine (sustains_setOwnField hs.context target.name (hv.mono hV)).bind fun U b _ _ => ?_
      unfold storedOr
      split
      · exact .pure trivial
      · exact .raise _ fun _ => rfl

omit ht in
/-- What an operator gives has no objects and no classes in it. -/
theorem sustains_combine (op : AssignOp) {current : EvalM F (Value F)}
    (hcurrent : eng.Sustains strict W current fun _ _ => True) {value : Value F}
    (hv : value.Valid eng.table W) (span : Span) :
    eng.Sustains strict W (eng.combine op current value span)
      fun V v => v.Valid eng.table V := by
  unfold combine
  split
  · exact .pure hv
  · exact hcurrent.bind fun V now _ _ => .operators span fun v h =>
      (BinaryOp.isPlain_apply h).valid _ _

omit ht in
/-- A field is assigned to if the receiver is an object. -/
theorem sustains_storeField {receiver : Value F} (hr : receiver.Valid eng.table W)
    (field : Identifier) (op : AssignOp) {value : Value F} (hv : value.Valid eng.table W)
    (span : Span) :
    eng.Sustains strict W (eng.storeField receiver field op value span) fun _ _ => True := by
  cases receiver with
  | object o =>
    rw [storeField_object]
    have hnow : eng.Sustains strict W (eng.fieldNow o field) fun _ _ => True := by
      refine (sustains_field? hr field.name).bind fun V v _ _ => ?_
      cases v with
      | some v => exact .pure trivial
      | none => exact sustains_undefinedField _ _
    refine (sustains_combine op hnow hv span).bind fun V w hV hw => ?_
    refine (sustains_setField (hr.mono hV) field.name hw).bind fun U b _ _ => ?_
    split
    · exact .pure trivial
    · exact sustains_undefinedField _ _
  | null => exact .raise _ fun _ => rfl
  | cls c => exact .invalid _ _
  | int n => exact sustains_undefinedField (.int n) field
  | float x => exact sustains_undefinedField (.float x) field
  | bool b => exact sustains_undefinedField (.bool b) field
  | str s => exact sustains_undefinedField (.str s) field
  | «namespace» path => exact sustains_undefinedField (.namespace path) field

end Classes

end Engine

end Middleweight
