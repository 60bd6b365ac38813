import Middleweight.Proofs.ClassTable.Standard
import Middleweight.Proofs.Members.Concrete

/-!
# Worlds

A world lists the classes of the objects that an engine has made so far, in order; it is silent
about objects that are out of reach. Relative to a world it can be said what a valid machine is:
every object in reach is one of the world and has the class that the world gives; every such object
has the fields of its class, declared with the classes of their types; a body belongs to a class
that the running object is of, directly or by extension; only lists keep something for the host; and
the only static field that can have been read is the standard output. Worlds grow, and what is valid
stays so.

A host can make objects of static views, whose parameters are unbound. A `strict` machine has no
such objects; then all parameters that a scope sees are bound to concrete types.

* `Machine.Valid` : valid machines
* `Machine.Valid.newObject`, `Machine.Valid.modifyObject` : changes of the heap
* `Machine.Valid.concrete_typeParams` : the parameters that a scope sees
-/

namespace Middleweight

variable {F : Type}

/-- The classes of the objects in a heap, in order, as far as they are in reach. -/
abbrev World (F : Type) := List (Option (RuntimeClass F))

/-! ## Classes -/

/-- The name of the class whose objects keep items. -/
def Ty.listName : String := "java.util.List"

/-- Lists have one parameter, that of their items. -/
theorem NativeRegistry.exists_list :
    ∃ n ∈ standard.classes, n.fullName = Ty.listName ∧ n.generics = ["E"] := by
  obtain ⟨n, hn, ho⟩ := exists_of_outline (o := (Ty.listName, ["E"], true, false)) (by decide)
  obtain ⟨hname, hgenerics⟩ := Prod.mk.inj ho
  exact ⟨n, hn, hname, (Prod.mk.inj hgenerics).1⟩

/-- Whether a class is a list or extends one. -/
def RuntimeClass.IsList (c : RuntimeClass F) : Prop := ∃ l ∈ c.layers, l.ty.name = Ty.listName

namespace ClassTable

/-- A class that an engine hands out: an instantiation or a static view. -/
def Offers (t : ClassTable F) (c : RuntimeClass F) : Prop := t.Makes c ∨ t.Shows c

/--
A class that objects may have: an instantiation, or else a static view if that is not excluded.
-/
def Creates (t : ClassTable F) (strict : Prop) (c : RuntimeClass F) : Prop :=
  t.Makes c ∨ ¬ strict ∧ t.Shows c

variable {t : ClassTable F} {strict : Prop} {c d : RuntimeClass F}

/-- What may be created is offered by the table. -/
theorem Creates.offers (h : t.Creates strict c) : t.Offers c := h.imp_right And.right

theorem Creates.makes (h : t.Creates strict c) (hs : strict) : t.Makes c :=
  h.resolve_right fun hc => hc.1 hs

/-- With a class its base may be created. -/
theorem Creates.«extends» (h : t.Creates strict c) (hd : c.Extends d) : t.Creates strict d :=
  h.imp (·.extends hd) fun hc => ⟨hc.1, hc.2.extends hd⟩

/-- With a class its base is offered. -/
theorem Offers.«extends» (h : t.Offers c) (hd : c.Extends d) : t.Offers d :=
  h.imp (·.extends hd) (·.extends hd)

/-- A class that is offered has no unbound parameter. -/
theorem Offers.isGround (h : t.Offers c) : c.asTy.IsGround := h.elim Makes.isGround Shows.isGround

/-- A class that is offered is one of the table. -/
theorem Offers.get? (h : t.Offers c) : t.get? c.name = some c.own.template :=
  h.elim Makes.get? Shows.get?

end ClassTable

/-! ## Values -/

/-- An object of a world, with the class that the world gives. -/
def ObjectRef.In (o : ObjectRef F) (W : World F) : Prop := W[o.id]? = some (some o.cls)

/-- A value whose objects are those of a world. -/
def Value.Valid (t : ClassTable F) (W : World F) : Value F → Prop
  | .object o => o.In W
  | .cls c => t.Offers c
  | _ => True

/-- The object that a value is, if it is one. -/
def Value.objects : Value F → List (ObjectRef F)
  | .object o => [o]
  | _ => []

/-- The values that stand for classes. -/
def Value.IsClass : Value F → Prop
  | .cls _ => True
  | _ => False

namespace Variable

variable (t : ClassTable F) (strict : Prop) (W : World F) (v : Variable F)

/-- What a call passes. -/
structure Passed : Prop where
  cls : t.Offers v.cls
  value : v.value.Valid t W

/-- What an expression evaluates to: only a class itself has a static view for its class. -/
structure Valid : Prop where
  cls : t.Makes v.cls ∨ t.Shows v.cls ∧ (strict → v.value.IsClass)
  value : v.value.Valid t W

/-- A local or a field. -/
structure Stored : Prop where
  cls : t.Makes v.cls
  value : v.value.Valid t W

end Variable

/-- What the host keeps inside an object. -/
def HostState.Valid (t : ClassTable F) (W : World F) : HostState F → Prop
  | .items xs => ∀ x ∈ xs, x.Passed t W
  | .count _ => True

/-! ## Objects -/

namespace FieldSlot

/-- Of several fields of a name the first, unless the name has been seen before. -/
def firsts (seen : List String) : List FieldSlot → List FieldSlot
  | [] => []
  | s :: rest => if s.name ∈ seen then firsts seen rest else s :: firsts (s.name :: seen) rest

/-- The variable of a field: its declared class is the class of the type of the field. -/
structure Holds (t : ClassTable F) (s : FieldSlot) (f : String × Variable F) : Prop where
  name : f.1 = s.name
  cls : t.Makes f.2.cls
  ty : f.2.cls.asTy = s.ty.resolved

end FieldSlot

/-- The fields that an object of the class has. -/
def RuntimeClass.slots (c : RuntimeClass F) : List FieldSlot := FieldSlot.firsts [] c.allFields

/-- The variables inside an object: its fields, and the items that it keeps. -/
def Instance.variables (i : Instance F) : List (Variable F) :=
  i.fields.map Prod.snd ++
    match i.host with
    | some (.items xs) => xs
    | _ => []

/-- The contents of an object of a class. -/
structure Instance.Valid (t : ClassTable F) (W : World F) (c : RuntimeClass F) (i : Instance F) :
    Prop where
  layout : List.Forall₂ (FieldSlot.Holds t) c.slots i.fields
  values : ∀ f ∈ i.fields, f.2.value.Valid t W
  host : ∀ s, i.host = some s → s.Valid t W ∧ c.IsList

/-- Contents of which nothing is known but that all classes are those that an engine hands out. -/
def Instance.Known (t : ClassTable F) (i : Instance F) : Prop :=
  ∀ v ∈ i.variables, t.Offers v.cls ∧ ∀ o ∈ v.value.objects, t.Offers o.cls

/-- The contents of an object, given its class if it is in reach. -/
def Instance.Fits (t : ClassTable F) (W : World F) : Option (RuntimeClass F) → Instance F → Prop
  | some c, i => i.Valid t W c
  | none, i => i.Known t

/-- The only static field that there is, the standard output, once it has been read. -/
structure IsOutput (t : ClassTable F) (W : World F) (e : (String × String) × Variable F) :
    Prop where
  key : e.1 = ("java.lang.System", "out")
  cls : t.Instantiates ⟨Ty.printStreamName, []⟩ e.2.cls
  value : ∃ o : ObjectRef F, e.2.value = .object o ∧ o.In W ∧ o.cls = e.2.cls

/-! ## Scopes and machines -/

/-- What a body belongs to; the class of a running object is the class of the body or extends it. -/
def Context.Valid (t : ClassTable F) (W : World F) : Context F → Prop
  | .global => True
  | .static c => t.Offers c
  | .instance o c => o.In W ∧ o.cls.Extends c

/-- What a level of a scope holds and remembers is in order. -/
structure Level.Valid (t : ClassTable F) (strict : Prop) (W : World F) (l : Level F) : Prop where
  locals : ∀ e ∈ l.locals, e.2.Stored t W
  generics : strict → l.generics.Concrete
  cache : l.cache.Valid t

/-- A scope is in order level by level, and in its context. -/
structure Scope.Valid (t : ClassTable F) (strict : Prop) (W : World F) (s : Scope F) : Prop where
  context : s.context.Valid t W
  levels : ∀ l ∈ s.levels, l.Valid t strict W

/-- A machine whose objects are those of a world. -/
structure Machine.Valid (t : ClassTable F) (strict : Prop) (W : World F) (m : Machine F) :
    Prop where
  registry : m.registry.Valid t
  classes : ∀ c, some c ∈ W → t.Creates strict c
  heap : List.Forall₂ (Instance.Fits t W) W m.heap.toList
  statics : ∀ e ∈ m.statics, IsOutput t W e
  scope : m.scope.Valid t strict W

/-! ## Growing worlds -/

variable {t : ClassTable F} {strict : Prop} {W V : World F}

/-- More objects have been made, all of which are in reach. -/
def World.Grows (W V : World F) : Prop := ∃ more : List (RuntimeClass F), V = W ++ more.map some

namespace World.Grows

theorem refl (W : World F) : W.Grows W := ⟨[], (List.append_nil W).symm⟩

theorem trans {U : World F} (h : W.Grows V) (h' : V.Grows U) : W.Grows U := by
  obtain ⟨more, rfl⟩ := h
  obtain ⟨more', rfl⟩ := h'
  exact ⟨more ++ more', by rw [List.map_append, List.append_assoc]⟩

/-- One more object. -/
theorem new (W : World F) (c : RuntimeClass F) : W.Grows (W ++ [some c]) := ⟨[c], rfl⟩

end World.Grows

/-- An object stays one of the world as it grows. -/
theorem ObjectRef.In.mono {o : ObjectRef F} (h : o.In W) (hW : W.Grows V) : o.In V := by
  obtain ⟨more, rfl⟩ := hW
  unfold In at h ⊢
  rw [List.getElem?_append_left (List.getElem?_eq_some_iff.mp h).1]
  exact h

/-- A value that is in order stays so as the world grows. -/
theorem Value.Valid.mono {v : Value F} (h : v.Valid t W) (hW : W.Grows V) : v.Valid t V := by
  cases v with
  | object o => exact ObjectRef.In.mono h hW
  | cls c => exact h
  | _ => trivial

/-- A default value is no object, so it is in order in every world. -/
theorem Value.valid_defaultFor (c : RuntimeClass F) : (Value.defaultFor c).Valid t W := by
  unfold defaultFor
  split <;> trivial

namespace Variable

variable {v : Variable F}

theorem Passed.mono (h : v.Passed t W) (hW : W.Grows V) : v.Passed t V := ⟨h.cls, h.value.mono hW⟩

theorem Valid.mono (h : v.Valid t strict W) (hW : W.Grows V) : v.Valid t strict V :=
  ⟨h.cls, h.value.mono hW⟩

theorem Stored.mono (h : v.Stored t W) (hW : W.Grows V) : v.Stored t V := ⟨h.cls, h.value.mono hW⟩

/-- What may be stored may be the value of an expression. -/
theorem Stored.valid (h : v.Stored t W) : v.Valid t strict W := ⟨.inl h.cls, h.value⟩

/-- What may be stored may be passed. -/
theorem Stored.passed (h : v.Stored t W) : v.Passed t W := ⟨.inl h.cls, h.value⟩

/-- What an expression yields may be passed. -/
theorem Valid.passed (h : v.Valid t strict W) : v.Passed t W := ⟨h.cls.imp_right And.left, h.value⟩

end Variable

/-- What a host object holds stays in order as the world grows. -/
theorem HostState.Valid.mono {s : HostState F} (h : s.Valid t W) (hW : W.Grows V) : s.Valid t V := by
  cases s with
  | items xs => exact fun x hx => (h x hx).mono hW
  | count n => trivial

theorem Instance.Valid.mono {c : RuntimeClass F} {i : Instance F} (h : i.Valid t W c)
    (hW : W.Grows V) : i.Valid t V c where
  layout := h.layout
  values f hf := (h.values f hf).mono hW
  host s hs := ⟨(h.host s hs).1.mono hW, (h.host s hs).2⟩

theorem Instance.Fits.mono {c : Option (RuntimeClass F)} {i : Instance F} (h : i.Fits t W c)
    (hW : W.Grows V) : i.Fits t V c := by
  cases c with
  | none => exact h
  | some c => exact Instance.Valid.mono h hW

theorem IsOutput.mono {e : (String × String) × Variable F} (h : IsOutput t W e) (hW : W.Grows V) :
    IsOutput t V e where
  key := h.key
  cls := h.cls
  value := by
    obtain ⟨o, hvalue, ho, hcls⟩ := h.value
    exact ⟨o, hvalue, ho.mono hW, hcls⟩

theorem Context.Valid.mono {c : Context F} (h : c.Valid t W) (hW : W.Grows V) : c.Valid t V := by
  cases c with
  | global => trivial
  | static c => exact h
  | «instance» o c => exact ⟨h.1.mono hW, h.2⟩

theorem Level.Valid.mono {l : Level F} (h : l.Valid t strict W) (hW : W.Grows V) :
    l.Valid t strict V :=
  ⟨fun e he => (h.locals e he).mono hW, h.generics, h.cache⟩

theorem Scope.Valid.mono {s : Scope F} (h : s.Valid t strict W) (hW : W.Grows V) :
    s.Valid t strict V :=
  ⟨h.context.mono hW, fun l hl => (h.levels l hl).mono hW⟩

/-! ## Scopes -/

theorem Instance.mem_setIn {name : String} {value : Value F} {e : String × Variable F} :
    ∀ {fs : List (String × Variable F)}, e ∈ setIn name value fs →
    e ∈ fs ∨ ∃ f ∈ fs, e = (f.1, { f.2 with value }) := by
  intro fs
  induction fs with
  | nil => exact fun h => nomatch h
  | cons f rest ih =>
    intro h
    obtain ⟨key, v⟩ := f
    rw [setIn] at h
    split at h
    · rcases List.mem_cons.mp h with rfl | h
      · exact .inr ⟨(key, v), List.mem_cons_self, rfl⟩
      · exact .inl (List.mem_cons_of_mem _ h)
    · rcases List.mem_cons.mp h with rfl | h
      · exact .inl List.mem_cons_self
      · rcases ih h with h | ⟨f, hf, rfl⟩
        · exact .inl (List.mem_cons_of_mem _ h)
        · exact .inr ⟨f, List.mem_cons_of_mem _ hf, rfl⟩

/-- Another value leaves the declared classes of fields as they are. -/
theorem Instance.holds_setIn (name : String) (value : Value F) {slots : List FieldSlot}
    {fs : List (String × Variable F)} (h : List.Forall₂ (FieldSlot.Holds t) slots fs) :
    List.Forall₂ (FieldSlot.Holds t) slots (setIn name value fs) := by
  induction h with
  | nil => exact .nil
  | @cons s f slots fs hf hrest ih =>
    obtain ⟨key, v⟩ := f
    rw [setIn]
    split
    · exact .cons ⟨hf.name, hf.cls, hf.ty⟩ hrest
    · exact .cons hf ih

namespace Instance.Valid

variable {c : RuntimeClass F} {i : Instance F}

theorem setField (h : i.Valid t W c) (name : String) {value : Value F} (hv : value.Valid t W) :
    (i.setField name value).Valid t W c where
  layout := holds_setIn name value h.layout
  values f hf := by
    rcases mem_setIn hf with hf | ⟨f', -, rfl⟩
    · exact h.values f hf
    · exact hv
  host := h.host

/-- Only lists keep something for the host. -/
theorem setHost (h : i.Valid t W c) (hc : c.IsList) {s : HostState F} (hs : s.Valid t W) :
    Instance.Valid t W c { i with host := some s } where
  layout := h.layout
  values := h.values
  host s' hs' := by
    cases hs'
    exact ⟨hs, hc⟩

/-- The classes of what is inside an object in reach are those that an engine hands out. -/
theorem known (h : i.Valid t W c) (hclasses : ∀ d, some d ∈ W → t.Offers d) : i.Known t := by
  have hobjects : ∀ {v : Value F}, v.Valid t W → ∀ o ∈ v.objects, t.Offers o.cls := by
    intro v hv o ho
    cases v with
    | object o' =>
      cases List.mem_singleton.mp ho
      exact hclasses _ (List.mem_of_getElem? hv)
    | _ => exact absurd ho List.not_mem_nil
  intro v hv
  rcases List.mem_append.mp hv with hv | hv
  · obtain ⟨f, hf, rfl⟩ := List.mem_map.mp hv
    obtain ⟨s, -, hs⟩ := exists_of_forall₂_mem h.layout hf
    exact ⟨.inl hs.cls, hobjects (h.values f hf)⟩
  · split at hv
    · next xs hhost =>
      have hx := (h.host _ hhost).1 v hv
      exact ⟨hx.cls, hobjects hx.value⟩
    · cases hv

theorem stored (h : i.Valid t W c) {name : String} {v : Variable F}
    (hv : i.field? name = some v) : v.Stored t W := by
  have hmem := mem_of_lookup hv
  obtain ⟨s, -, hs⟩ := exists_of_forall₂_mem h.layout hmem
  exact ⟨hs.cls, h.values _ hmem⟩

end Instance.Valid

theorem Level.Valid.empty : Level.Valid t strict W {} :=
  ⟨fun _ h => absurd h List.not_mem_nil, fun _ _ h => absurd h List.not_mem_nil, .empty⟩

theorem Level.Valid.define {l : Level F} (h : l.Valid t strict W) (name : String) {v : Variable F}
    (hv : v.Stored t W) : (l.define name v).Valid t strict W where
  locals e he := by
    rcases List.mem_cons.mp he with rfl | he
    · exact hv
    · exact h.locals e (List.mem_of_mem_filter he)
  generics := h.generics
  cache := h.cache

theorem Level.Valid.setIn {l : Level F} (h : l.Valid t strict W) (name : String) {value : Value F}
    (hv : value.Valid t W) :
    Level.Valid t strict W { l with locals := Instance.setIn name value l.locals } where
  locals e he := by
    rcases Instance.mem_setIn he with he | ⟨f, hf, rfl⟩
    · exact h.locals e he
    · exact ⟨(h.locals f hf).cls, hv⟩
  generics := h.generics
  cache := h.cache

namespace Scope.Valid

variable {s : Scope F}

theorem global : Scope.Valid t strict W (.global : Scope F) :=
  ⟨trivial, fun _ hl => List.mem_singleton.mp hl ▸ .empty⟩

theorem invocation {context : Context F} (hc : context.Valid t W) {generics : TypeParams}
    (hg : strict → generics.Concrete) : (Scope.invocation context generics).Valid t strict W :=
  ⟨hc, fun _ hl => List.mem_singleton.mp hl ▸ ⟨fun _ h => absurd h List.not_mem_nil, hg, .empty⟩⟩

theorem push (h : s.Valid t strict W) : s.push.Valid t strict W where
  context := h.context
  levels l hl := by
    rcases List.mem_cons.mp hl with rfl | hl
    · exact .empty
    · exact h.levels l hl

theorem pop (h : s.Valid t strict W) : s.pop.Valid t strict W := by
  obtain ⟨context, current, outer⟩ := s
  cases outer with
  | nil => exact h
  | cons l rest => exact ⟨h.context, fun k hk => h.levels k (List.mem_cons_of_mem _ hk)⟩

theorem define (h : s.Valid t strict W) (name : String) {v : Variable F} (hv : v.Stored t W) :
    (s.define name v).Valid t strict W where
  context := h.context
  levels l hl := by
    rcases List.mem_cons.mp hl with rfl | hl
    · exact (h.levels _ List.mem_cons_self).define name hv
    · exact h.levels l (List.mem_cons_of_mem _ hl)

theorem lookup (h : s.Valid t strict W) {name : String} {v : Variable F}
    (hv : s.lookup name = some v) : v.Stored t W := by
  obtain ⟨-, hlevels⟩ := h
  unfold Scope.lookup at hv
  generalize s.levels = ls at hv hlevels
  induction ls with
  | nil => cases hv
  | cons l rest ih =>
    rw [Scope.lookupIn] at hv
    split at hv
    · next hl =>
      cases hv
      exact (hlevels l List.mem_cons_self).locals _ (mem_of_lookup hl)
    · exact ih hv fun k hk => hlevels k (List.mem_cons_of_mem _ hk)

theorem assign (h : s.Valid t strict W) {name : String} {value : Value F} (hv : value.Valid t W)
    {s' : Scope F} (hs : s.assign name value = some s') : s'.Valid t strict W := by
  have hset : ∀ l : Level F, l.Valid t strict W →
      Level.Valid t strict W { l with locals := Instance.setIn name value l.locals } :=
    fun l hl => hl.setIn name hv
  refine ⟨?_, Scope.forall_assign hset h.levels hs⟩
  unfold Scope.assign at hs
  split at hs
  · cases hs
    exact h.context
  · cases hs

end Scope.Valid

/-! ## Machines -/

/-- Related lists stay related when one member of the second changes and keeps its relation. -/
theorem forall₂_modify {α β : Type} {R : α → β → Prop} {as : List α} {bs : List β}
    (h : List.Forall₂ R as bs) {f : β → β} : ∀ {n : Nat},
    (∀ a b, as[n]? = some a → R a b → R a (f b)) → List.Forall₂ R as (bs.modify n f) := by
  induction h with
  | nil =>
    intro n _
    cases n <;> exact .nil
  | cons hr hrest ih =>
    intro n hf
    cases n with
    | zero => exact .cons (hf _ _ rfl hr) hrest
    | succ n => exact .cons hr (ih hf)

namespace Machine.Valid

variable {m : Machine F} (h : m.Valid t strict W)

include h

theorem remembers : m.Remembers t := ⟨h.registry, fun l hl => (h.scope.levels l hl).cache⟩

/-- The parameters that a scope sees are bound to concrete types. -/
theorem concrete_typeParams (hs : strict) : m.scope.typeParams.Concrete := by
  intro e he
  rcases List.mem_append.mp he with he | he
  · obtain ⟨l, hl, he⟩ := List.mem_flatMap.mp he
    exact (h.scope.levels l hl).generics hs e he
  · have hcontext := h.scope.context
    generalize m.scope.context = context at hcontext he
    cases context with
    | global => exact absurd he List.not_mem_nil
    | static c => exact absurd he List.not_mem_nil
    | «instance» o c =>
      have hmade := (h.classes _ (List.mem_of_getElem? hcontext.1)).makes hs
      exact (hmade.extends hcontext.2).concrete_params e he

/-- Validity looks at neither open calls nor events nor output. -/
theorem of_eq {m' : Machine F} (hr : m'.registry = m.registry) (hh : m'.heap = m.heap)
    (hst : m'.statics = m.statics) (hs : m'.scope = m.scope) : m'.Valid t strict W where
  registry := hr ▸ h.registry
  classes := h.classes
  heap := hh ▸ h.heap
  statics := hst ▸ h.statics
  scope := hs ▸ h.scope

theorem tell (eng : Engine F) (event : Event) : (eng.tell event m).Valid t strict W := by
  unfold Engine.tell
  split
  · exact h.of_eq rfl rfl rfl rfl
  · exact h

theorem pushFrame (eng : Engine F) (frame : Frame) : (eng.pushFrame frame m).Valid t strict W :=
  (h.tell eng (.enter frame)).of_eq rfl rfl rfl rfl

theorem popFrame (eng : Engine F) : (eng.popFrame m).Valid t strict W := by
  unfold Engine.popFrame
  split
  · exact h
  · next frame rest _ =>
    have hrest : Machine.Valid t strict W { m with stack := rest } := h.of_eq rfl rfl rfl rfl
    exact hrest.tell eng _

theorem withMemory {r : Registry F} {k : ResolutionCache (RuntimeClass F)} (hr : r.Valid t)
    (hk : k.Valid t) : (m.withMemory r k).Valid t strict W where
  registry := hr
  classes := h.classes
  heap := h.heap
  statics := h.statics
  scope := by
    refine ⟨h.scope.context, fun l hl => ?_⟩
    rcases List.mem_cons.mp hl with rfl | hl
    · have hcurrent := h.scope.levels _ List.mem_cons_self
      exact ⟨hcurrent.locals, hcurrent.generics, hk⟩
    · exact h.scope.levels l (List.mem_cons_of_mem _ hl)

theorem withScope {s : Scope F} (hs : s.Valid t strict W) :
    Machine.Valid t strict W { m with scope := s } :=
  ⟨h.registry, h.classes, h.heap, h.statics, hs⟩

theorem withStatic {e : (String × String) × Variable F} (he : IsOutput t W e) :
    Machine.Valid t strict W { m with statics := e :: m.statics } :=
  ⟨h.registry, h.classes, h.heap,
    fun e' he' => (List.mem_cons.mp he').elim (· ▸ he) (h.statics e'), h.scope⟩

/-! ## The heap -/

theorem creates {o : ObjectRef F} (ho : o.In W) : t.Creates strict o.cls :=
  h.classes _ (List.mem_of_getElem? ho)

theorem contents {o : ObjectRef F} (ho : o.In W) :
    ∃ i, m.heap[o.id]? = some i ∧ i.Valid t W o.cls := by
  obtain ⟨i, hi, hvalid⟩ : ∃ i, m.heap.toList[o.id]? = some i ∧ i.Valid t W o.cls := by
    rcases rel_elim (forall₂_getElem? h.heap o.id) with ⟨h1, -⟩ | ⟨c, i, h1, h2, hi⟩
    · rw [ho] at h1
      cases h1
    · rw [ho] at h1
      cases h1
      exact ⟨i, h2, hi⟩
  exact ⟨i, by rw [← Array.getElem?_toList]; exact hi, hvalid⟩

/-- Other contents of an object, that are valid for its class. -/
theorem modifyObject {o : ObjectRef F} (ho : o.In W) {f : Instance F → Instance F}
    (hf : ∀ i, i.Valid t W o.cls → (f i).Valid t W o.cls) :
    Machine.Valid t strict W { m with heap := m.heap.modify o.id f } where
  registry := h.registry
  classes := h.classes
  heap := by
    rw [Array.toList_modify]
    exact forall₂_modify h.heap fun c i hc hi => by
      rw [ho] at hc
      cases hc
      exact hf i hi
  statics := h.statics
  scope := h.scope

/-- A new object. -/
theorem newObject {c : RuntimeClass F} (hc : t.Creates strict c) {i : Instance F}
    (hi : i.Valid t W c) :
    Machine.Valid t strict (W ++ [some c]) { m with heap := m.heap.push i } := by
  have hW : W.Grows (W ++ [some c]) := .new W c
  refine ⟨h.registry, ?_, ?_, fun e he => (h.statics e he).mono hW, h.scope.mono hW⟩
  · intro d hd
    rcases List.mem_append.mp hd with hd | hd
    · exact h.classes d hd
    · cases List.mem_singleton.mp hd
      exact hc
  · rw [Array.toList_push]
    exact List.rel_append (h.heap.imp fun _ _ h => h.mono hW) (.cons (hi.mono hW) .nil)

theorem size_heap : m.heap.size = W.length := by
  rw [← Array.length_toList, ← h.heap.length_eq]

end Machine.Valid

/-- A fresh machine is valid. -/
theorem Machine.Valid.fresh : Machine.Valid t strict [] ({} : Machine F) where
  registry := .empty
  classes _ hc := nomatch hc
  heap := .nil
  statics _ he := absurd he List.not_mem_nil
  scope := .global

end Middleweight
