import Middleweight.Proofs.ClassTable.WrittenTypes
import Middleweight.Proofs.Objects.Signatures
import Middleweight.Proofs.World.Arguments

/-!
# Machines of formed types

A machine is formed when every class in it is the class of a formed type, or else a static view that
stands for itself; when the parameters that its scope sees stand for formed types; and when all that
it remembers is valid. This is less than validity in a world says of objects and their fields, and
more than it says of types: there the arguments of a class are ground, here each class among them
has as many arguments as it should.

Nothing is asked of a machine that is left by an error: `Engine.Forms` is about computations that
end well.

* `Machine.Formed` : formed machines
* `Engine.Forms.bind`, `Engine.Forms.withScope` : sequences, and scopes of their own
* `Engine.forms_resolveType`, `Engine.forms_allocate` : classes and new objects
* `Engine.forms_lookup`, `Engine.forms_store` : names
-/

namespace Middleweight

variable {F α β : Type}

/-! ## Values -/

namespace ClassTable

variable {t : ClassTable F} {c d : RuntimeClass F}

/-- In a complete table the classes that an admitted class extends are admitted. -/
theorem Admits.«extends» (ht : t.Complete) (h : t.Admits c) (hd : c.Extends d) : t.Admits d :=
  ⟨h.made.extends hd, ht.formed_extends h.made h.formed hd⟩

theorem Admits.serves (h : t.Admits c) (isStatic : Bool) : t.Serves isStatic c :=
  .made h.made h.formed

end ClassTable

/-- A value whose object is of a formed type. -/
def Value.Formed (t : ClassTable F) : Value F → Prop
  | .object o => t.Admits o.cls
  | .cls c => t.Shows c
  | _ => True

namespace Variable

/-- What an expression evaluates to: only a class itself has a static view for its class. -/
structure Formed (t : ClassTable F) (v : Variable F) : Prop where
  cls : t.Admits v.cls ∨ t.Shows v.cls ∧ v.value.IsClass
  value : v.value.Formed t

/-- A local or a field. -/
structure Placed (t : ClassTable F) (v : Variable F) : Prop where
  cls : t.Admits v.cls
  value : v.value.Formed t

end Variable

/-- What the host keeps inside an object. -/
def HostState.Formed (t : ClassTable F) : HostState F → Prop
  | .items xs => ∀ x ∈ xs, x.Formed t
  | .count _ => True

/-- The contents of an object. -/
structure Instance.Formed (t : ClassTable F) (i : Instance F) : Prop where
  fields : ∀ f ∈ i.fields, f.2.Placed t
  host : ∀ s, i.host = some s → s.Formed t

/-- What a body belongs to: only that of an instance sees the parameters of its class. -/
def Context.Formed (t : ClassTable F) : Context F → Prop
  | .instance o c => t.Admits o.cls ∧ t.Admits c
  | _ => True

/-- Locals, parameters and memory of a level. -/
structure Level.Formed (t : ClassTable F) (l : Level F) : Prop where
  locals : ∀ e ∈ l.locals, e.2.Placed t
  generics : l.generics.Formed t.arity? []
  cache : l.cache.Valid t

/-- What a body belongs to, and all levels around it. -/
structure Scope.Formed (t : ClassTable F) (s : Scope F) : Prop where
  context : s.context.Formed t
  levels : ∀ l ∈ s.levels, l.Formed t

/-- A machine in which all classes are those of formed types, static views apart. -/
structure Machine.Formed (t : ClassTable F) (m : Machine F) : Prop where
  registry : m.registry.Valid t
  heap : ∀ (id : Nat) i, m.heap[id]? = some i → i.Formed t
  statics : ∀ e ∈ m.statics, e.2.Placed t
  scope : m.scope.Formed t

variable {t : ClassTable F}

/-- What is no object and no class is formed. -/
theorem Value.IsPlain.formed {v : Value F} (h : v.IsPlain) (t : ClassTable F) : v.Formed t := by
  cases v with
  | object o => exact h.elim
  | cls c => exact h.elim
  | _ => trivial

theorem Value.isPlain_defaultFor (c : RuntimeClass F) : (Value.defaultFor c).IsPlain := by
  unfold defaultFor
  split <;> trivial

namespace Variable

variable {v : Variable F}

theorem Placed.formed (h : v.Placed t) : v.Formed t := ⟨.inl h.cls, h.value⟩

/-- The declared type of a variable, as resolution sees it. -/
theorem Formed.argumentType (h : v.Formed t) : t.ArgumentType v.ty := by
  rcases h.cls with hc | ⟨⟨name, hc⟩, -⟩
  · exact .inl hc.formed
  · rw [Variable.ty, RuntimeClass.asTy, hc.ty_eq]
    exact .named name

/-- A variable whose value is no class has the class of a formed type. -/
theorem Formed.admits (h : v.Formed t) (hv : ¬ v.value.IsClass) : t.Admits v.cls :=
  h.cls.resolve_right fun hc => hv hc.2

end Variable

/-! ## Objects -/

namespace Instance.Formed

variable {i : Instance F}

/-- A field of a formed object is a placed variable. -/
theorem field? (h : i.Formed t) {name : String} {v : Variable F} (hv : i.field? name = some v) :
    v.Placed t :=
  h.fields _ (mem_of_lookup hv)

/-- A formed value may be stored in any field. -/
theorem setField (h : i.Formed t) (name : String) {value : Value F} (hv : value.Formed t) :
    (i.setField name value).Formed t where
  fields f hf := by
    rcases mem_setIn hf with hf | ⟨f', hf', rfl⟩
    · exact h.fields f hf
    · exact ⟨(h.fields f' hf').cls, hv⟩
  host := h.host

theorem setHost (h : i.Formed t) {s : HostState F} (hs : s.Formed t) :
    Instance.Formed t { i with host := some s } where
  fields := h.fields
  host s' hs' := by
    cases hs'
    exact hs

end Instance.Formed

/-! ## Scopes -/

theorem Level.Formed.empty : Level.Formed t {} :=
  ⟨fun _ h => absurd h List.not_mem_nil, .nil, .empty⟩

namespace Scope.Formed

variable {s : Scope F}

theorem global : Scope.Formed t (.global : Scope F) :=
  ⟨trivial, fun _ hl => List.mem_singleton.mp hl ▸ .empty⟩

/-- The scope of a call sees the parameters that it is given. -/
theorem invocation {context : Context F} (hc : context.Formed t) {generics : TypeParams}
    (hg : generics.Formed t.arity? []) : (Scope.invocation context generics).Formed t :=
  ⟨hc, fun _ hl => List.mem_singleton.mp hl ▸ ⟨fun _ h => absurd h List.not_mem_nil, hg, .empty⟩⟩

theorem push (h : s.Formed t) : s.push.Formed t where
  context := h.context
  levels l hl := by
    rcases List.mem_cons.mp hl with rfl | hl
    · exact .empty
    · exact h.levels l hl

theorem pop (h : s.Formed t) : s.pop.Formed t := by
  obtain ⟨context, current, outer⟩ := s
  cases outer with
  | nil => exact h
  | cons l rest => exact ⟨h.context, fun k hk => h.levels k (List.mem_cons_of_mem _ hk)⟩

/-- A placed variable may be declared. -/
theorem define (h : s.Formed t) (name : String) {v : Variable F} (hv : v.Placed t) :
    (s.define name v).Formed t where
  context := h.context
  levels l hl := by
    rcases List.mem_cons.mp hl with rfl | hl
    · have hcurrent := h.levels _ List.mem_cons_self
      refine ⟨fun e he => ?_, hcurrent.generics, hcurrent.cache⟩
      rcases List.mem_cons.mp he with rfl | he
      · exact hv
      · exact hcurrent.locals e (List.mem_of_mem_filter he)
    · exact h.levels l (List.mem_cons_of_mem _ hl)

/-- What is found in scope is a placed variable. -/
theorem lookup (h : s.Formed t) {name : String} {v : Variable F} (hv : s.lookup name = some v) :
    v.Placed t := by
  obtain ⟨-, hlevels⟩ := h
  unfold Scope.lookup at hv
  generalize s.levels = ls at hv hlevels
  induction ls with
  | nil => cases hv
  | cons l rest ih =>
    rw [Scope.lookupIn] at hv
    split at hv
    · next hl =>
      cases hv
      exact (hlevels l List.mem_cons_self).locals _ (mem_of_lookup hl)
    · exact ih hv fun k hk => hlevels k (List.mem_cons_of_mem _ hk)

/-- A formed value may be assigned to any variable. -/
theorem assign (h : s.Formed t) {name : String} {value : Value F} (hv : value.Formed t)
    {s' : Scope F} (hs : s.assign name value = some s') : s'.Formed t := by
  have hset : ∀ l : Level F, l.Formed t →
      Level.Formed t { l with locals := Instance.setIn name value l.locals } := by
    refine fun l hl => ⟨fun e he => ?_, hl.generics, hl.cache⟩
    rcases Instance.mem_setIn he with he | ⟨f, hf, rfl⟩
    · exact hl.locals e he
    · exact ⟨(hl.locals f hf).cls, hv⟩
  refine ⟨?_, Scope.forall_assign hset h.levels hs⟩
  unfold Scope.assign at hs
  split at hs
  · cases hs
    exact h.context
  · cases hs

/-- The parameters that a body sees stand for formed types. -/
theorem typeParams (h : s.Formed t) : s.typeParams.Formed t.arity? [] := by
  refine .append (fun e he => ?_) ?_
  · obtain ⟨l, hl, he⟩ := List.mem_flatMap.mp he
    exact (h.levels l hl).generics e he
  · have hcontext := h.context
    generalize s.context = context at hcontext
    cases context with
    | «instance» o c => exact hcontext.2.formed_params []
    | _ => exact .nil

end Scope.Formed

/-! ## Machines -/

namespace Machine.Formed

variable {m : Machine F}

/-- A fresh machine is formed. -/
theorem fresh : Machine.Formed t ({} : Machine F) where
  registry := .empty
  heap id i hi := by simp at hi
  statics _ he := absurd he List.not_mem_nil
  scope := .global

variable (h : m.Formed t)

include h

/-- A formed machine remembers what is valid only. -/
theorem remembers : m.Remembers t := ⟨h.registry, fun l hl => (h.scope.levels l hl).cache⟩

/-- Whether a machine is formed depends neither on open calls nor on events nor on output. -/
theorem of_eq {m' : Machine F} (hr : m'.registry = m.registry) (hh : m'.heap = m.heap)
    (hst : m'.statics = m.statics) (hs : m'.scope = m.scope) : m'.Formed t :=
  ⟨hr ▸ h.registry, hh ▸ h.heap, hst ▸ h.statics, hs ▸ h.scope⟩

theorem tell (eng : Engine F) (event : Event) : (eng.tell event m).Formed t := by
  unfold Engine.tell
  split
  · exact h.of_eq rfl rfl rfl rfl
  · exact h

theorem pushFrame (eng : Engine F) (frame : Frame) : (eng.pushFrame frame m).Formed t :=
  (h.tell eng (.enter frame)).of_eq rfl rfl rfl rfl

theorem popFrame (eng : Engine F) : (eng.popFrame m).Formed t := by
  unfold Engine.popFrame
  split
  · exact h
  · next frame rest _ =>
    have hrest : Machine.Formed t { m with stack := rest } := h.of_eq rfl rfl rfl rfl
    exact hrest.tell eng _

theorem withScope {s : Scope F} (hs : s.Formed t) : Machine.Formed t { m with scope := s } :=
  ⟨h.registry, h.heap, h.statics, hs⟩

theorem inner : m.inner.Formed t := h.withScope h.scope.push

/-- New memory must be valid. -/
theorem withMemory {r : Registry F} {k : ResolutionCache (RuntimeClass F)} (hr : r.Valid t)
    (hk : k.Valid t) : (m.withMemory r k).Formed t := by
  refine ⟨hr, h.heap, h.statics, h.scope.context, fun l hl => ?_⟩
  rcases List.mem_cons.mp hl with rfl | hl
  · have hcurrent := h.scope.levels _ List.mem_cons_self
    exact ⟨hcurrent.locals, hcurrent.generics, hk⟩
  · exact h.scope.levels l (List.mem_cons_of_mem _ hl)

theorem withStatic {e : (String × String) × Variable F} (he : e.2.Placed t) :
    Machine.Formed t { m with statics := e :: m.statics } :=
  ⟨h.registry, h.heap, fun e' he' => (List.mem_cons.mp he').elim (· ▸ he) (h.statics e'), h.scope⟩

/-- Objects are changed one at a time. -/
theorem modifyObject (id : Nat) {f : Instance F → Instance F}
    (hf : ∀ i, i.Formed t → (f i).Formed t) :
    Machine.Formed t { m with heap := m.heap.modify id f } := by
  refine ⟨h.registry, fun j i hi => ?_, h.statics, h.scope⟩
  rw [Array.getElem?_modify] at hi
  split at hi
  · obtain ⟨x, hx, rfl⟩ := Option.map_eq_some_iff.mp hi
    exact hf x (h.heap j x hx)
  · exact h.heap j i hi

/-- A new object must be formed. -/
theorem newObject {i : Instance F} (hi : i.Formed t) :
    Machine.Formed t { m with heap := m.heap.push i } := by
  refine ⟨h.registry, fun j x hx => ?_, h.statics, h.scope⟩
  rw [Array.getElem?_push] at hx
  split at hx
  · cases hx
    exact hi
  · exact h.heap j x hx

end Machine.Formed

/-! ## Computations -/

namespace Engine

/--
From every formed machine, a computation that ends well leaves a formed one, with a result that is
as it should be.
-/
def Forms (eng : Engine F) (x : EvalM F α) (Q : α → Prop) : Prop :=
  ∀ m m' a, m.Formed eng.table → x m = .ok a m' → m'.Formed eng.table ∧ Q a

variable {eng : Engine F} {Q : α → Prop} {R : β → Prop} {x : EvalM F α}

namespace Forms

theorem pure {a : α} (h : Q a) : eng.Forms (Pure.pure a) Q := by
  intro m m' b hm hok
  cases hok
  exact ⟨hm, h⟩

/-- What the first part of a sequence leaves is where the second part starts. -/
theorem bind (hx : eng.Forms x Q) {f : α → EvalM F β} (hf : ∀ a, Q a → eng.Forms (f a) R) :
    eng.Forms (x >>= f) R := by
  intro m m' b hm hok
  obtain ⟨a, m₁, ha, hok⟩ := EvalM.ok_of_bind hok
  obtain ⟨hm₁, hq⟩ := hx m m₁ a hm ha
  exact hf a hq m₁ m' b hm₁ hok

theorem map (hx : eng.Forms x Q) {f : α → β} (hf : ∀ a, Q a → R (f a)) :
    eng.Forms (do return f (← x)) R :=
  hx.bind fun a ha => .pure (hf a ha)

theorem mono {Q' : α → Prop} (hx : eng.Forms x Q) (h : ∀ a, Q a → Q' a) : eng.Forms x Q' :=
  fun m m' a hm hok => (hx m m' a hm hok).imp_right (h a)

/-- What is known of every result that a computation gives. -/
theorem and {P : α → Prop} (hx : eng.Forms x Q) (h : ∀ m m' a, x m = .ok a m' → P a) :
    eng.Forms x fun a => Q a ∧ P a :=
  fun m m' a hm hok => ⟨(hx m m' a hm hok).1, (hx m m' a hm hok).2, h m m' a hok⟩

theorem exhausted : eng.Forms EvalM.exhausted Q := by
  intro m m' a _ hok
  cases hok

theorem raise (fault : Fault F) (span : Span) : eng.Forms (eng.raise fault span) Q := by
  intro m m' a _ hok
  cases hok

theorem invalid (op : InvalidOperation F) (span : Span) : eng.Forms (eng.invalid op span) Q :=
  .raise _ span

theorem types {r : Except TypeError α} (h : ∀ a, r = .ok a → Q a) : eng.Forms (eng.types r) Q := by
  cases r with
  | error e => exact .raise _ _
  | ok a => exact .pure (h a rfl)

theorem operators {r : Except (OperatorError F) α} (span : Span) (h : ∀ a, r = .ok a → Q a) :
    eng.Forms (eng.operators span r) Q := by
  cases r with
  | error e => exact .invalid _ span
  | ok a => exact .pure (h a rfl)

theorem read : eng.Forms get fun m : Machine F => m.Formed eng.table := by
  intro m m' a hm hok
  cases hok
  exact ⟨hm, hm⟩

theorem change {f : Machine F → Machine F} (h : ∀ m, m.Formed eng.table → (f m).Formed eng.table) :
    eng.Forms (modify f) fun _ => True := by
  intro m m' a hm hok
  cases hok
  exact ⟨h m hm, trivial⟩

/-- Frames are put on and taken off the stack, which is not asked for. -/
theorem withFrame (hx : eng.Forms x Q) (frame : Frame) : eng.Forms (eng.withFrame frame x) Q := by
  intro m m' a hm hok
  unfold Engine.withFrame at hok
  split at hok
  · next m₁ hx' =>
    cases hok
    obtain ⟨hm₁, hq⟩ := hx _ _ _ (hm.pushFrame eng frame) hx'
    exact ⟨hm₁.popFrame eng, hq⟩
  · cases hok

/-- A scope of its own, which has to be formed only if what is done in it ends well. -/
theorem withScope {s : Scope F}
    (hs : ∀ (m : Machine F) m' a, m.Formed eng.table → x { m with scope := s } = .ok a m' →
      s.Formed eng.table)
    (hx : eng.Forms x Q) : eng.Forms (EvalM.withScope s x) Q := by
  intro m m' a hm hok
  unfold EvalM.withScope at hok
  dsimp only at hok
  split at hok
  · next m₁ hx' =>
    cases hok
    obtain ⟨hm₁, hq⟩ := hx _ _ _ (hm.withScope (hs _ _ _ hm hx')) hx'
    exact ⟨hm₁.withScope hm.scope, hq⟩
  · cases hok

/-- A level of its own is empty at first, and gone afterwards. -/
theorem nested (hx : eng.Forms x Q) : eng.Forms (EvalM.nested x) Q := by
  intro m m' a hm hok
  obtain ⟨m₁, hx', rfl⟩ := EvalM.ok_of_nested hok
  obtain ⟨hm₁, hq⟩ := hx _ _ _ hm.inner hx'
  exact ⟨hm₁.withScope hm₁.scope.pop, hq⟩

theorem scope : eng.Forms EvalM.scope fun s => s.Formed eng.table := by
  intro m m' s hm hok
  cases hok
  exact ⟨hm, hm.scope⟩

theorem modifyScope {f : Scope F → Scope F}
    (h : ∀ s, s.Formed eng.table → (f s).Formed eng.table) :
    eng.Forms (EvalM.modifyScope f) fun _ => True :=
  .change fun _ hm => hm.withScope (h _ hm.scope)

end Forms

/-! ## The heap -/

theorem forms_contents (o : ObjectRef F) :
    eng.Forms (EvalM.contents o) fun i => ∀ x, i = some x → x.Formed eng.table :=
  Forms.read.map fun _ hm x hx => hm.heap _ x hx

/-- What is read from an object is a placed variable. -/
theorem forms_field? (o : ObjectRef F) (name : String) :
    eng.Forms (EvalM.field? o name) fun v => ∀ w, v = some w → w.Placed eng.table := by
  refine (forms_contents o).map fun i hi w hw => ?_
  obtain ⟨x, rfl, hx⟩ := Option.bind_eq_some_iff.mp hw
  exact (hi x rfl).field? hx

theorem forms_modifyContents (o : ObjectRef F) {f : Instance F → Instance F}
    (hf : ∀ i, i.Formed eng.table → (f i).Formed eng.table) :
    eng.Forms (EvalM.modifyContents o f) fun _ => True :=
  .change fun _ hm => hm.modifyObject o.id hf

theorem forms_setField (o : ObjectRef F) (name : String) {value : Value F}
    (hv : value.Formed eng.table) : eng.Forms (EvalM.setField o name value) fun _ => True := by
  refine (forms_field? o name).bind fun v _ => ?_
  cases v with
  | none => exact .pure trivial
  | some v =>
    exact (forms_modifyContents o fun i hi => hi.setField name hv).bind fun _ _ => .pure trivial

/-- A new object is made of placed variables. -/
theorem forms_newObject (c : RuntimeClass F) {fields : List (String × Variable F)}
    (hf : ∀ f ∈ fields, f.2.Placed eng.table) :
    eng.Forms (EvalM.newObject c fields) fun o => o.cls = c := by
  intro m m' o hm hok
  cases hok
  exact ⟨hm.newObject ⟨hf, fun _ hs => nomatch hs⟩, rfl⟩

/-! ## Events and output -/

theorem forms_tellStatement (span : Span) : eng.Forms (eng.tellStatement span) fun _ => True := by
  unfold tellStatement
  split
  · exact .change fun m hm => hm.tell eng _
  · exact .pure trivial

theorem forms_write (text : String) : eng.Forms (eng.write text) fun _ => True := by
  unfold write
  split
  · exact .pure trivial
  · refine (Forms.change fun m hm => ?_).bind fun _ _ => .pure trivial
    exact hm.of_eq rfl rfl rfl rfl

/-! ## Classes -/

/-- A type that may be an argument gets a class that is admitted. -/
theorem forms_classOf {ty : Ty} (hty : eng.table.ArgumentType ty.resolved) (span : Span) :
    eng.Forms (eng.classOf ty span) fun c => eng.table.Admits c ∧ c.asTy = ty.resolved := by
  intro m m' c hm hok
  obtain ⟨r, hr, heq⟩ := classOf_eq hm.remembers ty span
  rw [heq] at hok
  exact Forms.types (fun c hc => hty.admits hc) _ _ _ (hm.withMemory hr hm.remembers.current) hok

/-- A class that is named without arguments. -/
theorem forms_named (name : String) (span : Span) :
    eng.Forms (eng.classOf (.named name) span) fun c => eng.table.Admits c :=
  (forms_classOf (.named name) span).mono fun _ hc => hc.1

/-- The static view of a name is shown. -/
theorem forms_staticView (name : String) (span : Span) :
    eng.Forms (eng.staticView name span) fun c => eng.table.Shows c := by
  intro m m' c hm hok
  obtain ⟨r, hr, heq⟩ := staticView_eq hm.remembers name span
  rw [heq] at hok
  exact Forms.types (fun c hc => ⟨name, ClassTable.views_of_view hc⟩) _ _ _
    (hm.withMemory hr hm.remembers.current) hok

/-- Whatever the scope remembers, a written type resolves to a class that is admitted. -/
theorem forms_resolveType (e : TypeExpr) :
    eng.Forms (eng.resolveType e) fun c => eng.table.Admits c := by
  intro m m' c hm hok
  obtain ⟨r, k, hr, hk, heq⟩ := resolveType_eq e hm.remembers
  rw [heq] at hok
  exact Forms.types (fun c hc => ClassTable.admits_meaning hm.scope.typeParams hc) _ _ _
    (hm.withMemory hr hk) hok

/-- A bare name gives a static view that is shown, or nothing. -/
theorem forms_staticClass (name : String) (span : Span) :
    eng.Forms (eng.staticClass name span) fun c => ∀ d, c = some d → eng.table.Shows d := by
  intro m m' c hm hok
  obtain ⟨r, k, hr, hk, heq⟩ := staticClass_eq hm.remembers name span
  rw [heq] at hok
  refine Forms.types (Q := fun c => ∀ d, c = some d → eng.table.Shows d) (fun c hc d hd => ?_)
    _ _ _ (hm.withMemory hr hk) hok
  subst hd
  exact ClassTable.shows_namedView hc

/-! ## New objects -/

/-- Fields of formed types are filled with placed variables. -/
theorem forms_newFields (span : Span) : ∀ {slots : List FieldSlot}
    {made : List (String × Variable F)}, (∀ s ∈ slots, s.ty.Formed eng.table.arity? []) →
    (∀ f ∈ made, f.2.Placed eng.table) →
    eng.Forms (eng.newFields span slots made) fun fs => ∀ f ∈ fs, f.2.Placed eng.table := by
  intro slots
  induction slots with
  | nil => exact fun _ hmade => .pure fun f hf => hmade f (List.mem_reverse.mp hf)
  | cons s rest ih =>
    intro made hslots hmade
    obtain ⟨hs, hrest⟩ := List.forall_mem_cons.mp hslots
    unfold newFields
    cases made.lookup s.name with
    | some v => exact ih hrest hmade
    | none =>
      have hty : eng.table.ArgumentType s.ty.resolved :=
        .inl (by rwa [Ty.resolved_of_isGround hs.isGround])
      refine (forms_classOf hty span).bind fun c hc => ih hrest fun f hf => ?_
      rcases List.mem_cons.mp hf with rfl | hf
      · exact ⟨hc.1, (Value.isPlain_defaultFor c).formed _⟩
      · exact hmade f hf

/-- An object of an admitted class is allocated with formed fields. -/
theorem forms_allocate (ht : eng.table.Complete) {c : RuntimeClass F} (hc : eng.table.Admits c)
    (span : Span) : eng.Forms (eng.allocate c span) fun o => o.cls = c :=
  (forms_newFields span (ht.formed_allFields hc.made.instantiates hc.formed)
    fun _ hf => absurd hf List.not_mem_nil).bind fun _ hfs => forms_newObject c hfs

/-! ## Values and names -/

/-- A plain value with a class that is named without arguments. -/
theorem forms_withClass {v : Value F} (hv : v.IsPlain) (name : String) (span : Span) :
    eng.Forms (do return ⟨← eng.classOf (.named name) span, v⟩)
      fun (w : Variable F) => w.Formed eng.table :=
  (forms_named name span).map fun _ hc => ⟨.inl hc, hv.formed _⟩

/-- A formed value with its class is a formed variable. -/
theorem forms_typedValue {v : Value F} (hv : v.Formed eng.table) (span : Span) :
    eng.Forms (eng.typedValue v span) fun w => w.Formed eng.table := by
  cases v with
  | object o => exact .pure ⟨.inl hv, hv⟩
  | cls c => exact .pure ⟨.inr ⟨hv, trivial⟩, hv⟩
  | int n => exact forms_withClass (v := .int n) trivial _ span
  | float x => exact forms_withClass (v := .float x) trivial _ span
  | bool b => exact forms_withClass (v := .bool b) trivial _ span
  | str s => exact forms_withClass (v := .str s) trivial _ span
  | null => exact forms_withClass (v := .null) trivial _ span
  | «namespace» path => exact forms_withClass (v := .namespace path) trivial _ span

theorem forms_ownField? (context : Context F) (name : String) :
    eng.Forms (EvalM.ownField? context name) fun v => ∀ w, v = some w → w.Placed eng.table := by
  unfold EvalM.ownField?
  split
  · exact forms_field? _ name
  · exact .pure fun _ h => nomatch h

theorem forms_lookupClass (name : Identifier) :
    eng.Forms (eng.lookupClass name) fun w => w.Formed eng.table := by
  refine (forms_staticClass _ _).bind fun c hc => ?_
  cases c with
  | some c => exact .pure ⟨.inr ⟨hc c rfl, trivial⟩, hc c rfl⟩
  | none =>
    dsimp only
    split
    · exact forms_typedValue (v := .namespace name.name) trivial _
    · exact .raise _ _

/-- A bare name gives a formed variable. -/
theorem forms_lookup (name : Identifier) :
    eng.Forms (eng.lookup name) fun w => w.Formed eng.table := by
  rw [lookup_eq]
  refine Forms.scope.bind fun s hs => ?_
  unfold lookupIn
  split
  · have hcontext := hs.context
    cases hc : s.context with
    | «instance» o c =>
      rw [hc] at hcontext
      exact .pure ⟨.inl hcontext.1, hcontext.1⟩
    | global => exact .raise _ _
    | static c => exact .raise _ _
  · split
    · next hlookup => exact .pure (hs.lookup hlookup).formed
    · refine (forms_ownField? s.context name.name).bind fun v hv => ?_
      cases v with
      | some v => exact .pure (hv v rfl).formed
      | none => exact forms_lookupClass name

/-! ## Assignment -/

theorem forms_setOwnField (context : Context F) (name : String) {value : Value F}
    (hv : value.Formed eng.table) :
    eng.Forms (EvalM.setOwnField context name value) fun _ => True := by
  unfold EvalM.setOwnField
  split
  · exact forms_setField _ name hv
  · exact .pure trivial

/-- A formed value may be assigned to a bare name. -/
theorem forms_store (target : Identifier) {value : Value F} (hv : value.Formed eng.table) :
    eng.Forms (eng.store target value) fun _ => True := by
  rw [store_eq]
  split
  · exact .invalid _ _
  · refine Forms.scope.bind fun s hs => ?_
    unfold storeIn
    split
    · next hassign => exact .modifyScope fun _ _ => hs.assign hv hassign
    · refine (forms_setOwnField s.context target.name hv).bind fun b _ => ?_
      unfold storedOr
      split
      · exact .pure trivial
      · exact .raise _ _

/-- What an operator gives has no objects and no classes in it. -/
theorem forms_combine (op : AssignOp) {current : EvalM F (Value F)}
    (hcurrent : eng.Forms current fun _ => True) {value : Value F} (hv : value.Formed eng.table)
    (span : Span) :
    eng.Forms (eng.combine op current value span) fun v => v.Formed eng.table := by
  unfold combine
  split
  · exact .pure hv
  · exact hcurrent.bind fun now _ => .operators span fun v h =>
      (BinaryOp.isPlain_apply h).formed _

/-- A formed value may be assigned to a field. -/
theorem forms_storeField (receiver : Value F) (field : Identifier) (op : AssignOp) {value : Value F}
    (hv : value.Formed eng.table) (span : Span) :
    eng.Forms (eng.storeField receiver field op value span) fun _ => True := by
  cases receiver with
  | object o =>
    rw [storeField_object]
    have hnow : eng.Forms (eng.fieldNow o field) fun _ => True := by
      refine (forms_field? o field.name).bind fun v _ => ?_
      cases v with
      | some v => exact .pure trivial
      | none => exact .raise _ _
    refine (forms_combine op hnow hv span).bind fun w hw => ?_
    refine (forms_setField o field.name hw).bind fun b _ => ?_
    split
    · exact .pure trivial
    · exact .raise _ _
  | _ => exact .raise _ _

end Engine

end Middleweight
