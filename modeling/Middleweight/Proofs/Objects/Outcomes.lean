import Middleweight.Proofs.Engine.Parts
import Middleweight.Proofs.Objects.Typing
import Middleweight.Proofs.World.Sustained

/-!
# Computations of typed machines

From every machine that is typed in a world, a computation yields a result when it ends in a typed
machine of a grown world, or stops for a reason that analysis does not rule out: a member is
ambiguous or missing, `null` has been asked for a member, a value does not allow an operation, or
the budget is used up.

* `Engine.Yields.bind`, `Engine.Gives.bind` : sequences
* `Engine.Yields.withScope`, `Engine.Yields.nested` : scopes and levels
* `Engine.gives_classOf`, `Engine.gives_resolveType`, `Engine.gives_staticClass` : classes
* `Engine.gives_allocate` : new objects
-/

namespace Middleweight

variable {F α β : Type}

/-- The faults that analysis does not rule out. -/
inductive Fault.Admitted : Fault F → Prop
  | ambiguousMember (a : Ambiguity) : Admitted (.ambiguousMember a)
  | noSuchMember (m : Missing) : Admitted (.noSuchMember m)
  | nullDereference (member : String) : Admitted (.nullDereference member)
  | invalid (op : InvalidOperation F) : Admitted (.invalid op)

/-- Running out of a budget is admitted, and stopping with an admitted fault. -/
def Stop.Admitted : Stop F → Prop
  | .error e => e.fault.Admitted
  | .exhausted => True

namespace Engine

/-- A result in a typed machine of a grown world, or an admitted stop. -/
inductive Concludes (t : ClassTable F) (κ : Context F) (W : World F)
    (Q : World F → Locals → α → Prop) : EStateM.Result (Stop F) (Machine F) α → Prop
  | ok {V : World F} {L : Locals} {a : α} {m : Machine F} :
      W.Grows V → m.Typed t κ V L → Q V L a → Concludes t κ W Q (.ok a m)
  | stop {e : Stop F} {m : Machine F} : e.Admitted → Concludes t κ W Q (.error e m)

/-- From every machine that is typed in a world, a computation concludes as it should. -/
def Yields (eng : Engine F) (κ : Context F) (W : World F) (L : Locals) (x : EvalM F α)
    (Q : World F → Locals → α → Prop) : Prop :=
  ∀ m : Machine F, m.Typed eng.table κ W L → Concludes eng.table κ W Q (x m)

/-- A computation that leaves the locals as they were. -/
abbrev Gives (eng : Engine F) (κ : Context F) (W : World F) (L : Locals) (x : EvalM F α)
    (P : World F → α → Prop) : Prop :=
  eng.Yields κ W L x fun V L' a => L' = L ∧ P V a

variable {eng : Engine F} {κ κ' : Context F} {W : World F} {L L' : Locals}
  {Q : World F → Locals → α → Prop} {R : World F → Locals → β → Prop} {P : World F → α → Prop}
  {x : EvalM F α}

/-! ## Sequences -/

theorem Yields.pure {a : α} (h : Q W L a) : eng.Yields κ W L (Pure.pure a) Q :=
  fun _ hm => .ok (.refl W) hm h

theorem Gives.pure {a : α} (h : P W a) : eng.Gives κ W L (Pure.pure a) P := Yields.pure ⟨rfl, h⟩

theorem Yields.bind (hx : eng.Yields κ W L x Q) {f : α → EvalM F β}
    (hf : ∀ V L' a, W.Grows V → Q V L' a → eng.Yields κ V L' (f a) R) :
    eng.Yields κ W L (x >>= f) R := by
  intro m hm
  have h := hx m hm
  show Concludes eng.table κ W R (EStateM.bind x f m)
  unfold EStateM.bind
  generalize x m = r at h
  cases h with
  | stop he => exact .stop he
  | ok hV hm₁ hq =>
    have h' := hf _ _ _ hV hq _ hm₁
    dsimp only
    generalize f _ _ = r' at h'
    cases h' with
    | stop he => exact .stop he
    | ok hV' hm₂ hr => exact .ok (hV.trans hV') hm₂ hr

theorem Gives.bind (hx : eng.Gives κ W L x P) {f : α → EvalM F β}
    (hf : ∀ V a, W.Grows V → P V a → eng.Yields κ V L (f a) R) :
    eng.Yields κ W L (x >>= f) R := by
  refine Yields.bind hx fun V L' a hV h => ?_
  obtain ⟨rfl, ha⟩ := h
  exact hf V a hV ha

theorem Yields.mono {Q' : World F → Locals → α → Prop} (hx : eng.Yields κ W L x Q)
    (hQ : ∀ V L' a, W.Grows V → Q V L' a → Q' V L' a) : eng.Yields κ W L x Q' := by
  intro m hm
  have h := hx m hm
  generalize x m = r at h
  cases h with
  | stop he => exact .stop he
  | ok hV hm₁ hq => exact .ok hV hm₁ (hQ _ _ _ hV hq)

theorem Gives.mono {P' : World F → α → Prop} (hx : eng.Gives κ W L x P)
    (hP : ∀ V a, W.Grows V → P V a → P' V a) : eng.Gives κ W L x P' :=
  Yields.mono hx fun V _ a hV h => ⟨h.1, hP V a hV h.2⟩

theorem Gives.map {P' : World F → β → Prop} (hx : eng.Gives κ W L x P) {f : α → β}
    (hf : ∀ V a, W.Grows V → P V a → P' V (f a)) :
    eng.Gives κ W L (do return f (← x)) P' :=
  Gives.bind hx fun V a hV ha => Gives.pure (hf V a hV ha)

/-- What holds for the machines that a computation starts from may be used about it. -/
theorem Yields.of_typed (h : ∀ m : Machine F, m.Typed eng.table κ W L → eng.Yields κ W L x Q) :
    eng.Yields κ W L x Q :=
  fun m hm => h m hm m hm

/-! ## Stops -/

theorem Yields.exhausted : eng.Yields κ W L EvalM.exhausted Q := fun _ _ => .stop trivial

theorem Yields.raise {fault : Fault F} (h : fault.Admitted) (span : Span) :
    eng.Yields κ W L (eng.raise fault span) Q :=
  fun _ _ => .stop h

theorem Yields.invalid (op : InvalidOperation F) (span : Span) :
    eng.Yields κ W L (eng.invalid op span) Q :=
  Yields.raise (.invalid op) span

/-- An operator gives its result, or does not allow its operands. -/
theorem gives_operators {r : Except (OperatorError F) α} (h : ∀ a, r = .ok a → P W a)
    (span : Span) : eng.Gives κ W L (eng.operators span r) P := by
  cases r with
  | error e => exact Yields.invalid _ span
  | ok a => exact Gives.pure (h a rfl)

/-! ## Frames, events and output -/

theorem gives_modify {f : Machine F → Machine F}
    (h : ∀ m, m.Typed eng.table κ W L → (f m).Typed eng.table κ W L) :
    eng.Gives κ W L (modify f) fun _ _ => True :=
  fun m hm => .ok (.refl W) (h m hm) ⟨rfl, trivial⟩

theorem Yields.withFrame (hx : eng.Yields κ W L x Q) (frame : Frame) :
    eng.Yields κ W L (eng.withFrame frame x) Q := by
  intro m hm
  have h := hx _ (hm.pushFrame eng frame)
  unfold Engine.withFrame
  generalize x _ = r at h
  cases h with
  | stop he => exact .stop he
  | ok hV hm₁ hq => exact .ok hV (hm₁.popFrame eng) hq

theorem gives_tellStatement (span : Span) :
    eng.Gives κ W L (eng.tellStatement span) fun _ _ => True := by
  unfold tellStatement
  split
  · exact gives_modify fun m hm => hm.tell eng _
  · exact Gives.pure trivial

theorem gives_write (text : String) : eng.Gives κ W L (eng.write text) fun _ _ => True := by
  unfold write
  split
  · exact Gives.pure trivial
  · refine (gives_modify fun m hm => ?_).bind fun _ _ _ _ => Gives.pure trivial
    exact hm.of_eq rfl rfl rfl rfl

/-! ## Scopes -/

/-- A body in a scope of its own leaves the scope around it as it was. -/
theorem Yields.withScope {s : Scope F} (hs : s.Valid eng.table True W)
    (hd : s.Declares eng.table κ' L') (hx : eng.Yields κ' W L' x fun V _ a => P V a) :
    eng.Gives κ W L (EvalM.withScope s x) P := by
  intro m hm
  have h := hx _ (hm.withScope hs hd)
  unfold EvalM.withScope
  dsimp only
  generalize x _ = r at h
  cases h with
  | stop he => exact .stop he
  | ok hV hm₁ hp =>
    exact .ok hV (hm₁.withScope (hm.valid.scope.mono hV) hm.scope) ⟨rfl, hp⟩

/-- A computation at a level of its own leaves the levels around it as they were. -/
theorem Yields.nested (hx : eng.Yields κ W L.push x fun V L' a => L'.tail = L ∧ P V a) :
    eng.Gives κ W L (EvalM.nested x) P := by
  intro m hm
  have h := hx _ (hm.withScope hm.valid.scope.push hm.scope.push)
  unfold EvalM.nested
  generalize x _ = r at h
  cases h with
  | stop he => exact .stop he
  | @ok V L' a m' hV hm' hq =>
    obtain ⟨htail, hp⟩ := hq
    cases L' with
    | nil => exact absurd rfl hm'.scope.ne_nil
    | cons names rest =>
      cases htail
      exact .ok hV (hm'.withScope hm'.valid.scope.pop (hm'.scope.pop hm.scope.ne_nil hm.scope.this))
        ⟨rfl, hp⟩

theorem gives_scope : eng.Gives κ W L EvalM.scope fun V s =>
    s.Valid eng.table True V ∧ s.Declares eng.table κ L :=
  fun _ hm => .ok (.refl W) hm ⟨rfl, hm.valid.scope, hm.scope⟩

/-- Declares a variable for a new local. -/
theorem yields_define {name : String} (hname : name ≠ "this") {v : Variable F} {ty : Ty}
    (hv : v.Declares eng.table ty) (hstored : v.Stored eng.table W)
    (hL : L.define? name ty = some L') :
    eng.Yields κ W L (EvalM.modifyScope fun s => s.define name v) fun _ L₁ _ => L₁ = L' :=
  fun _ hm => .ok (.refl W)
    (hm.withScope (hm.valid.scope.define name hstored) (hm.scope.define hname hv hL)) rfl

/-! ## The heap -/

theorem gives_contents {o : ObjectRef F} (ho : o.In W) :
    eng.Gives κ W L (EvalM.contents o) fun V i =>
      ∃ x, i = some x ∧ x.Valid eng.table V o.cls ∧ x.Suits eng.table o.cls := by
  intro m hm
  obtain ⟨i, hi, hvalid, hsuits⟩ := hm.instance_of ho
  exact .ok (.refl W) hm ⟨rfl, i, hi, hvalid, hsuits⟩

theorem gives_modifyContents {o : ObjectRef F} (ho : o.In W) {f : Instance F → Instance F}
    (hvalid : ∀ i, i.Valid eng.table W o.cls → (f i).Valid eng.table W o.cls)
    (hsuits : ∀ i, i.Valid eng.table W o.cls → i.Suits eng.table o.cls →
      (f i).Suits eng.table o.cls) :
    eng.Gives κ W L (EvalM.modifyContents o f) fun _ _ => True :=
  gives_modify fun _ hm => hm.modifyObject ho hvalid hsuits

theorem gives_newObject {c : RuntimeClass F} (hc : eng.table.Makes c)
    (hformed : c.asTy.Formed eng.table.arity? []) {fields : List (String × Variable F)}
    (hvalid : Instance.Valid eng.table W c { fields })
    (hsuits : Instance.Suits eng.table c { fields }) :
    eng.Gives κ W L (EvalM.newObject c fields) fun V o => o.In V ∧ o.cls = c := by
  intro m hm
  refine .ok (.new W c) (hm.newObject hc hformed hvalid hsuits) ⟨rfl, ?_, rfl⟩
  show (W ++ [some c])[m.heap.size]? = some (some c)
  rw [hm.valid.size_heap]
  simp

/-- A field of an object that its class has. -/
theorem gives_field? {o : ObjectRef F} (ho : o.In W) (name : String) :
    eng.Gives κ W L (EvalM.field? o name) fun V v? => Option.Rel
      (fun (s : FieldSlot) v => v.Stored eng.table V ∧ v.ty = s.ty.resolved ∧
        v.value.Suits eng.table v.ty) (o.cls.field? name) v? := by
  refine (gives_contents ho).map fun V i _ hi => ?_
  obtain ⟨x, rfl, hvalid, hsuits⟩ := hi
  show Option.Rel _ _ (x.field? name)
  cases hs : o.cls.field? name with
  | none =>
    cases hv : x.field? name with
    | none => exact .none
    | some v =>
      obtain ⟨s, hs', -⟩ := hvalid.slot_of_field? hv
      cases hs.symm.trans hs'
  | some s =>
    obtain ⟨v, hv, hty⟩ := hvalid.exists_field? hs
    rw [hv]
    exact .some ⟨hvalid.stored hv, hty, hsuits.fields _ (mem_of_lookup hv)⟩

/-- A value that suits a field of an object can be stored in it. -/
theorem gives_setField {o : ObjectRef F} (ho : o.In W) (name : String) {value : Value F}
    (hv : value.Valid eng.table W)
    (hsuits : ∀ s, o.cls.field? name = some s → value.Suits eng.table s.ty.resolved) :
    eng.Gives κ W L (EvalM.setField o name value) fun _ stored =>
      stored = (o.cls.field? name).isSome := by
  refine (gives_field? ho name).bind fun V v? hV hv? => ?_
  rcases rel_elim hv? with ⟨h1, rfl⟩ | ⟨s, v, h1, rfl, -⟩
  · rw [h1]
    exact Gives.pure rfl
  · rw [h1]
    refine (gives_modifyContents (ho.mono hV) (fun i hi => hi.setField name (hv.mono hV))
      fun i hi hold => hold.setField fun f hf hname => ?_).bind fun _ _ _ _ => Gives.pure rfl
    obtain ⟨s', hs', hclass⟩ := hi.isOf.declared f hf
    rw [hname] at hs'
    rw [show f.2.ty = s'.ty.resolved from (ClassTable.classFor_ok (hclass {})).2.symm]
    exact hsuits s' hs'

end Engine

/-! ## Classes -/

namespace Program.WellTyped

variable {t : ClassTable StandardFn} {p : Program} (h : p.WellTyped t)

include h

/-- Bases are known types: only lists have parameters, and they extend the root class. -/
theorem rooted : t.Rooted where
  climbs := h.complete.climbs
  knows_base := by
    intro name c base hc hbase
    have hformed := h.complete.base hc hbase
    obtain ⟨harity, hargs⟩ : t.arity? base.name = some base.args.length ∧
        Ty.AllFormed t.arity? [] base.args := by
      rcases h.generics_cases hc with hg | ⟨rfl, -⟩
      · rw [hg] at hformed
        exact Ty.formed_cls.mp hformed
      · obtain ⟨n, hn, hlist, -⟩ := NativeRegistry.exists_list
        rw [← hlist] at hc
        rw [h.base_of_native hc (h.isDeclared_native hn hc) hbase]
        exact Ty.formed_cls.mp h.formed_object
    exact ⟨base.name, base.args, rfl, hargs.allGround, harity⟩

end Program.WellTyped

namespace ClassTable.IsClassOf

variable {t : ClassTable F} {ty : Ty} {c : RuntimeClass F}

theorem makes (h : t.IsClassOf ty c) : t.Makes c := ⟨_, h.instantiates⟩

/-- A value that suits a type makes a variable with the class of the type. -/
theorem declares (h : t.IsClassOf ty c) (hty : ty.Formed t.arity? []) {v : Value F}
    (hv : v.Suits t ty) : Variable.Declares t ⟨c, v⟩ ty := ⟨h.asTy_eq, hty, hv⟩

theorem stored (h : t.IsClassOf ty c) {W : World F} {v : Value F} (hv : v.Valid t W) :
    Variable.Stored t W ⟨c, v⟩ := ⟨h.makes, hv⟩

end ClassTable.IsClassOf

namespace Engine

variable {eng : Engine StandardFn} {p : Program} (h : p.WellTyped eng.table)
  {κ : Context StandardFn} {W : World StandardFn} {L : Locals}

include h

theorem gives_classOf {ty : Ty} (hty : ty.resolved.Formed eng.table.arity? []) (span : Span) :
    eng.Gives κ W L (eng.classOf ty span) fun _ => eng.table.IsClassOf ty.resolved := by
  intro m hm
  obtain ⟨r, hr, heq⟩ := classOf_eq hm.valid.remembers ty span
  obtain ⟨c, hc, hasTy, hi⟩ := h.complete.classFor_ok hty
  rw [heq, hc]
  exact .ok (.refl W) (hm.withMemory hr hm.valid.remembers.current) ⟨rfl, hi, hasTy⟩

/-- The class of a type that is formed as it stands. -/
theorem gives_classOf_formed {ty : Ty} (hty : ty.Formed eng.table.arity? []) (span : Span) :
    eng.Gives κ W L (eng.classOf ty span) fun _ => eng.table.IsClassOf ty := by
  have hres := Ty.resolved_of_isGround hty.isGround
  have hgives : eng.Gives κ W L (eng.classOf ty span) fun _ => eng.table.IsClassOf ty.resolved :=
    gives_classOf h (by rwa [hres]) span
  rwa [hres] at hgives

theorem gives_staticView {name : String} {tm : Template StandardFn}
    (htm : eng.table.get? name = some tm) (span : Span) :
    eng.Gives κ W L (eng.staticView name span) fun _ => eng.table.Views name := by
  intro m hm
  obtain ⟨r, hr, heq⟩ := staticView_eq hm.valid.remembers name span
  obtain ⟨c, hc, hv⟩ := h.rooted.viewFor_ok htm span
  rw [heq, hc]
  exact .ok (.refl W) (hm.withMemory hr hm.valid.remembers.current) ⟨rfl, hv⟩

/-- A written type that lowers resolves to the class of its lowered type. -/
theorem gives_resolveType {e : TypeExpr} {ty : Ty} (hty : eng.table.lower [] e = .ok ty) :
    eng.Gives κ W L (eng.resolveType e) fun _ => eng.table.IsClassOf ty := by
  intro m hm
  obtain ⟨r, k, hr, hk, heq⟩ := resolveType_eq e hm.valid.remembers
  obtain ⟨c, hc, hi, hasTy⟩ := h.rooted.meaning_of_lower hty
  rw [heq, hm.scope.typeParams_eq, hc]
  exact .ok (.refl W) (hm.withMemory hr hk) ⟨rfl, hi, hasTy⟩

/-- A bare name gives the static view of the class that it stands for, if it stands for one. -/
theorem gives_staticClass (name : String) (span : Span) :
    eng.Gives κ W L (eng.staticClass name span) fun _ c? =>
      Option.Rel eng.table.Views (eng.table.imports.resolve? name) c? := by
  intro m hm
  obtain ⟨r, k, hr, hk, heq⟩ := staticClass_eq hm.valid.remembers name span
  rw [heq, ClassTable.namedView]
  cases hres : eng.table.imports.resolve? name with
  | none => exact .ok (.refl W) (hm.withMemory hr hk) ⟨rfl, .none⟩
  | some full =>
    obtain ⟨n, hn⟩ := ClassTable.arity?_of_resolve? h.build hres
    obtain ⟨tm, htm, -⟩ := ClassTable.get?_of_arity? hn
    obtain ⟨c, hc, hv⟩ := h.rooted.viewFor_ok htm span
    simp only [hc]
    exact .ok (.refl W) (hm.withMemory hr hk) ⟨rfl, .some hv⟩

/-! ## New objects -/

/-- The fields of a new object hold their defaults. -/
theorem gives_newFields (span : Span) : ∀ {slots : List FieldSlot}
    {made : List (String × Variable StandardFn)} {W : World StandardFn},
    (∀ s ∈ slots, s.ty.Formed eng.table.arity? []) →
    eng.Gives κ W L (eng.newFields span slots made) fun V fs =>
      ∃ new, fs = made.reverse ++ new ∧
      List.Forall₂ (FieldSlot.Holds eng.table) (FieldSlot.firsts (made.map Prod.fst) slots) new ∧
      ∀ f ∈ new, f.2.value.Valid eng.table V ∧ f.2.value.Suits eng.table f.2.ty := by
  intro slots
  induction slots with
  | nil =>
    intro made W _
    exact Gives.pure ⟨[], (List.append_nil _).symm, .nil, fun _ h => absurd h List.not_mem_nil⟩
  | cons s rest ih =>
    intro made W hslots
    obtain ⟨hs, hrest⟩ := List.forall_mem_cons.mp hslots
    unfold newFields FieldSlot.firsts
    cases hseen : made.lookup s.name with
    | some v =>
      rw [if_pos (isSome_lookup_iff.mp (by rw [hseen]; rfl))]
      exact ih hrest
    | none =>
      rw [if_neg fun h => by simpa [hseen] using isSome_lookup_iff.mpr h]
      have hres := Ty.resolved_of_isGround hs.isGround
      refine (gives_classOf_formed h hs span).bind fun V c _ hc => ?_
      refine (ih hrest).mono fun U fs _ hfs => ?_
      obtain ⟨new, rfl, hholds, hvalues⟩ := hfs
      refine ⟨(s.name, ⟨c, Value.defaultFor c⟩) :: new, by simp,
        .cons ⟨rfl, hc.makes, hc.asTy_eq.trans hres.symm⟩ hholds, ?_⟩
      refine List.forall_mem_cons.mpr ⟨⟨Value.valid_defaultFor c, ?_⟩, hvalues⟩
      exact Value.suits_defaultFor h hc.makes (hc.asTy_eq ▸ hs)

theorem gives_allocate {c : RuntimeClass StandardFn} (hc : eng.table.Makes c)
    (hformed : c.asTy.Formed eng.table.arity? []) (span : Span) :
    eng.Gives κ W L (eng.allocate c span) fun V o => o.In V ∧ o.cls = c := by
  have hfields : ∀ s ∈ c.allFields, s.ty.Formed eng.table.arity? [] := by
    obtain ⟨key, hkey⟩ := hc
    have hty : key.toTy = c.asTy := by rw [RuntimeClass.asTy, hkey.ty_eq]
    exact h.complete.formed_allFields hkey (hty ▸ hformed)
  refine (gives_newFields h span hfields).bind fun V fs _ hfs => ?_
  obtain ⟨new, rfl, hholds, hvalues⟩ := hfs
  exact gives_newObject hc hformed
    ⟨hholds, fun f hf => (hvalues f hf).1, fun _ hhost => by cases hhost⟩
    ⟨fun f hf => (hvalues f hf).2, fun _ hhost => by cases hhost⟩

end Engine

end Middleweight
