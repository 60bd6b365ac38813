import Middleweight.Engine.Basic
import Middleweight.Proofs.Engine.Typing

/-!
# Computations that stop only where they may

A computation is safe when from every machine that is sound for some locals it gives a result and
leaves a sound machine, or stops for a permitted reason: its budget is used up, `null` has been
asked for a member, or a value does not allow an operation. Asking for `this` is permitted only
where `this` is the name of a class.

* `Engine.Safe.bind`, `Engine.Keeps.bind` : sequences
* `Engine.Safe.withScope`, `Engine.Safe.nested` : scopes and levels
* `Engine.keeps_classOf`, `Engine.keeps_resolveType`, `Engine.keeps_staticClass` : classes
-/

namespace Middleweight

variable {F α β : Type}

/-- The reasons for which a checked body may stop. -/
inductive Fault.Permitted (t : ClassTable F) : Fault F → Prop
  | nullDereference (member : String) : Permitted t (.nullDereference member)
  | invalid (op : InvalidOperation F) : Permitted t (.invalid op)
  | this {full : String} :
      t.imports.resolve? "this" = some full → Permitted t (.undefinedVariable "this")

/-- Running out of a budget is permitted, and stopping for a permitted reason. -/
def Stop.Permitted (t : ClassTable F) : Stop F → Prop
  | .error e => e.fault.Permitted t
  | .exhausted => True

namespace Engine

/-- A result with locals for which the machine is sound, or a permitted stop. -/
inductive Ends (t : ClassTable F) (Q : α → Locals → Prop) :
    EStateM.Result (Stop F) (Machine F) α → Prop
  | ok {a : α} {m : Machine F} {L : Locals} : Q a L → m.Sound t L → Ends t Q (.ok a m)
  | stop {e : Stop F} {m : Machine F} : e.Permitted t → Ends t Q (.error e m)

/-- From every machine that is sound for some locals, a computation ends as it should. -/
def Safe (eng : Engine F) (L : Locals) (x : EvalM F α) (Q : α → Locals → Prop) : Prop :=
  ∀ m : Machine F, m.Sound eng.table L → Ends eng.table Q (x m)

/-- A safe computation that leaves the locals as they were. -/
abbrev Keeps (eng : Engine F) (L : Locals) (x : EvalM F α) (P : α → Prop) : Prop :=
  eng.Safe L x fun a L' => L' = L ∧ P a

variable {eng : Engine F} {L : Locals} {Q : α → Locals → Prop} {R : β → Locals → Prop}
  {P : α → Prop} {x : EvalM F α}

/-! ## Sequences -/

theorem Safe.pure {a : α} (h : Q a L) : eng.Safe L (Pure.pure a) Q := fun _ hm => .ok h hm

theorem Keeps.pure {a : α} (h : P a) : eng.Keeps L (Pure.pure a) P := Safe.pure ⟨rfl, h⟩

/-- Safe computations may follow each other, the second under the locals the first leaves. -/
theorem Safe.bind (hx : eng.Safe L x Q) {f : α → EvalM F β}
    (hf : ∀ a L', Q a L' → eng.Safe L' (f a) R) : eng.Safe L (x >>= f) R := by
  intro m hm
  have h := hx m hm
  show Ends eng.table R (EStateM.bind x f m)
  unfold EStateM.bind
  generalize x m = r at h
  cases h with
  | ok hq hm' => exact hf _ _ hq _ hm'
  | stop he => exact .stop he

theorem Keeps.bind (hx : eng.Keeps L x P) {f : α → EvalM F β}
    (hf : ∀ a, P a → eng.Safe L (f a) R) : eng.Safe L (x >>= f) R := by
  refine Safe.bind hx fun a L' h => ?_
  obtain ⟨rfl, ha⟩ := h
  exact hf a ha

/-- What a computation ends in may be stated more weakly. -/
theorem Safe.mono {Q' : α → Locals → Prop} (hx : eng.Safe L x Q)
    (hQ : ∀ a L', Q a L' → Q' a L') : eng.Safe L x Q' := by
  intro m hm
  have h := hx m hm
  generalize x m = r at h
  cases h with
  | ok hq hm' => exact .ok (hQ _ _ hq) hm'
  | stop he => exact .stop he

theorem Keeps.mono {P' : α → Prop} (hx : eng.Keeps L x P) (hP : ∀ a, P a → P' a) :
    eng.Keeps L x P' :=
  Safe.mono hx fun a _ h => ⟨h.1, hP a h.2⟩

/-! ## Stops -/

/-- Running out of budget is permitted. -/
theorem Safe.exhausted : eng.Safe L EvalM.exhausted Q := fun _ _ => .stop trivial

/-- A permitted fault may be raised at any place. -/
theorem Safe.raise {fault : Fault F} (h : fault.Permitted eng.table) (span : Span) :
    eng.Safe L (eng.raise fault span) Q :=
  fun _ _ => .stop h

theorem Safe.invalid (op : InvalidOperation F) (span : Span) :
    eng.Safe L (eng.invalid op span) Q :=
  Safe.raise (.invalid op) span

/-- An operator gives its result, or does not allow its operands. -/
theorem keeps_operators {r : Except (OperatorError F) α} (h : ∀ a, r = .ok a → P a)
    (span : Span) : eng.Keeps L (eng.operators span r) P := by
  cases r with
  | error e => exact Safe.invalid _ span
  | ok a => exact Keeps.pure (h a rfl)

end Engine

/-! ## Frames, events and output -/

namespace Machine.Sound

variable {t : ClassTable F} {m m' : Machine F} {L : Locals}

/-- Soundness looks at the registry, the scope and the static fields only. -/
theorem of_eq (h : m.Sound t L) (hr : m'.registry = m.registry) (hs : m'.scope = m.scope)
    (hst : m'.statics = m.statics) : m'.Sound t L :=
  ⟨⟨hr ▸ h.remembers.registry, hs ▸ h.remembers.caches⟩, hs ▸ h.scope, hst ▸ h.statics⟩

theorem tell (h : m.Sound t L) (eng : Engine F) (event : Event) :
    (eng.tell event m).Sound t L := by
  unfold Engine.tell
  split
  · exact h.of_eq rfl rfl rfl
  · exact h

theorem pushFrame (h : m.Sound t L) (eng : Engine F) (frame : Frame) :
    (eng.pushFrame frame m).Sound t L :=
  (h.tell eng (.enter frame)).of_eq rfl rfl rfl

theorem popFrame (h : m.Sound t L) (eng : Engine F) : (eng.popFrame m).Sound t L := by
  unfold Engine.popFrame
  split
  · exact h
  · next frame rest _ =>
    have hrest : Machine.Sound t { m with stack := rest } L := h.of_eq rfl rfl rfl
    exact hrest.tell eng _

theorem withScope (h : m.Sound t L) {s : Scope F} {L' : Locals} (hs : s.Fits t L')
    (hk : s.CachesValid t) : Machine.Sound t { m with scope := s } L' :=
  ⟨⟨h.remembers.registry, hk⟩, hs, h.statics⟩

end Machine.Sound

namespace Engine

variable {eng : Engine F} {L : Locals} {Q : α → Locals → Prop} {P : α → Prop} {x : EvalM F α}

/-- A frame leaves the scope to the computation under it. -/
theorem Safe.withFrame (hx : eng.Safe L x Q) (frame : Frame) :
    eng.Safe L (eng.withFrame frame x) Q := by
  intro m hm
  have h := hx _ (hm.pushFrame eng frame)
  unfold Engine.withFrame
  generalize x _ = r at h
  cases h with
  | ok hq hm' => exact .ok hq (hm'.popFrame eng)
  | stop he => exact .stop he

theorem keeps_tellStatement (span : Span) :
    eng.Keeps L (eng.tellStatement span) fun _ => True := by
  unfold tellStatement
  split
  · exact fun _ hm => .ok ⟨rfl, trivial⟩ (hm.tell eng _)
  · exact Keeps.pure trivial

/-- Writing output keeps a machine sound. -/
theorem keeps_write (text : String) : eng.Keeps L (eng.write text) fun _ => True := by
  unfold write
  split
  · exact Keeps.pure trivial
  · exact fun _ hm => .ok ⟨rfl, trivial⟩ (hm.of_eq rfl rfl rfl)

/-! ## Scopes -/

/-- A body in a scope of its own leaves the scope around it as it was. -/
theorem Safe.withScope {s : Scope F} {L' : Locals} (hs : s.Fits eng.table L')
    (hk : s.CachesValid eng.table) (hx : eng.Safe L' x fun a _ => P a) :
    eng.Keeps L (EvalM.withScope s x) P := by
  intro m hm
  have h := hx _ (hm.withScope hs hk)
  unfold EvalM.withScope
  dsimp only
  generalize x _ = r at h
  cases h with
  | ok hq hm' => exact .ok ⟨rfl, hq⟩ (hm'.withScope hm.scope hm.remembers.caches)
  | stop he => exact .stop he

/-- A computation at a level of its own leaves the levels around it as they were. -/
theorem Safe.nested (hx : eng.Safe L.push x fun a L' => L'.tail = L ∧ P a) :
    eng.Keeps L (EvalM.nested x) P := by
  intro m hm
  have hcaches : m.scope.push.CachesValid eng.table := by
    intro l hl
    rcases List.mem_cons.mp hl with rfl | hl
    · exact .empty
    · exact hm.remembers.caches l hl
  have h := hx _ (hm.withScope hm.scope.push hcaches)
  unfold EvalM.nested
  generalize x _ = r at h
  cases h with
  | stop he => exact .stop he
  | @ok a m' L' hq hm' =>
    obtain ⟨htail, ha⟩ := hq
    cases L' with
    | nil => exact absurd rfl hm'.scope.ne_nil
    | cons names rest =>
      cases htail
      refine .ok ⟨rfl, ha⟩ (hm'.withScope (hm'.scope.pop hm.scope.ne_nil) fun l hl => ?_)
      refine hm'.remembers.caches l ?_
      revert hl
      obtain ⟨context, current, outer⟩ := m'.scope
      cases outer with
      | nil => exact id
      | cons _ _ => exact List.mem_cons_of_mem _

/-- The scope at hand fits the locals. -/
theorem keeps_scope : eng.Keeps L EvalM.scope fun s => s.Fits eng.table L :=
  fun _ hm => .ok ⟨rfl, hm.scope⟩ hm

/-- Declares a variable for a new local. -/
theorem safe_define {name : String} (hthis : name ≠ "this") {v : Variable F} {ty : Ty}
    (hv : v.HasType eng.table ty) {L' : Locals} (hL : L.define? name ty = some L') :
    eng.Safe L (EvalM.modifyScope fun s => s.define name v) fun _ L₁ => L₁ = L' := by
  intro m hm
  refine .ok rfl (hm.withScope (hm.scope.define hthis hv hL) fun l hl => ?_)
  rcases List.mem_cons.mp hl with rfl | hl
  · exact hm.remembers.current
  · exact hm.remembers.caches l (List.mem_cons_of_mem _ hl)

end Engine

/-! ## Classes -/

/-- The runtime class of a type. -/
structure ClassTable.IsClassOf (t : ClassTable F) (ty : Ty) (c : RuntimeClass F) : Prop where
  instantiates : t.Instantiates c.ty c
  asTy_eq : c.asTy = ty

/-- A value that fits a type, with the class of that type, has the type. -/
theorem ClassTable.IsClassOf.hasType {t : ClassTable F} {ty : Ty} {c : RuntimeClass F}
    (hc : t.IsClassOf ty c) (hty : t.Knows ty) {v : Value F} (hv : v.Fits t ty) :
    Variable.HasType t ⟨c, v⟩ ty where
  sameFit := by
    rw [show Variable.ty ⟨c, v⟩ = ty from hc.asTy_eq]
    exact .refl ty
  fits := hv
  knows := hty

namespace Engine

section Classes

variable {eng : Engine F} {L : Locals} (ht : eng.table.Rooted)

include ht

/-- The class of a known type is found. -/
theorem keeps_classOf {ty : Ty} (hty : eng.table.Knows ty) (span : Span) :
    eng.Keeps L (eng.classOf ty span) (eng.table.IsClassOf ty) := by
  intro m hm
  obtain ⟨r, hr, heq⟩ := classOf_eq hm.remembers ty span
  obtain ⟨c, hc, hi, hasTy⟩ := ht.classFor_ok hty span
  rw [heq, hc]
  exact .ok ⟨rfl, hi, hasTy⟩ (hm.withMemory hr hm.remembers.current)

/-- The static view of a class of the table is found. -/
theorem keeps_staticView {name : String} {tm : Template F} (h : eng.table.get? name = some tm)
    (span : Span) : eng.Keeps L (eng.staticView name span) (eng.table.Views name) := by
  intro m hm
  obtain ⟨r, hr, heq⟩ := staticView_eq hm.remembers name span
  obtain ⟨c, hc, hv⟩ := ht.viewFor_ok h span
  rw [heq, hc]
  exact .ok ⟨rfl, hv⟩ (hm.withMemory hr hm.remembers.current)

/-- In a static body a written type that lowers resolves to the class of its lowered type. -/
theorem keeps_resolveType {e : TypeExpr} {ty : Ty} (h : eng.table.lower [] e = .ok ty) :
    eng.Keeps L (eng.resolveType e) (eng.table.IsClassOf ty) := by
  intro m hm
  obtain ⟨r, k, hr, hk, heq⟩ := resolveType_eq e hm.remembers
  obtain ⟨c, hc, hi, hasTy⟩ := ht.meaning_of_lower h
  rw [heq, hm.scope.typeParams_eq, hc]
  exact .ok ⟨rfl, hi, hasTy⟩ (hm.withMemory hr hk)

/-- A bare name gives the static view of the class that it stands for, if it stands for one. -/
theorem keeps_staticClass {name : String}
    (hknown : ∀ full, eng.table.imports.resolve? name = some full →
      ∃ tm, eng.table.get? full = some tm) (span : Span) :
    eng.Keeps L (eng.staticClass name span) fun c? =>
      Option.Rel eng.table.Views (eng.table.imports.resolve? name) c? := by
  intro m hm
  obtain ⟨r, k, hr, hk, heq⟩ := staticClass_eq hm.remembers name span
  rw [heq, ClassTable.namedView]
  cases hres : eng.table.imports.resolve? name with
  | none => exact .ok ⟨rfl, .none⟩ (hm.withMemory hr hk)
  | some full =>
    obtain ⟨tm, htm⟩ := hknown full hres
    obtain ⟨c, hc, hv⟩ := ht.viewFor_ok htm span
    simp only [hc]
    exact .ok ⟨rfl, .some hv⟩ (hm.withMemory hr hk)

/-- A value of a kind is given a class of that kind. -/
theorem keeps_typedValue {v : Value F} {k : Kind} (hv : v.HasKind eng.table k)
    (hk : eng.table.Knows k.ty) (span : Span) :
    eng.Keeps L (eng.typedValue v span) fun x => x.HasType eng.table k.ty := by
  have hclass : eng.Keeps L (do return (⟨← eng.classOf k.ty span, v⟩ : Variable F))
      fun x => x.HasType eng.table k.ty :=
    Keeps.bind (keeps_classOf ht hk span) fun c hc => Keeps.pure (hc.hasType hk hv.fits)
  cases hv with
  | int => exact hclass
  | float => exact hclass
  | bool => exact hclass
  | str => exact hclass
  | @object o ho =>
    have hasTy : o.cls.asTy = Kind.printStream.ty := by
      rw [RuntimeClass.asTy, ho.ty_eq]
      rfl
    have hc : eng.table.IsClassOf Kind.printStream.ty o.cls := ⟨by rw [ho.ty_eq]; exact ho, hasTy⟩
    exact Keeps.pure (hc.hasType hk (Value.HasKind.object ho).fits)

theorem keeps_typedNamespace (path : String) (hk : eng.table.Knows .object) (span : Span) :
    eng.Keeps L (eng.typedValue (.namespace path) span) fun x => x.value = .namespace path :=
  Keeps.bind (keeps_classOf ht hk span) fun _ _ => Keeps.pure rfl

end Classes

end Engine

end Middleweight
