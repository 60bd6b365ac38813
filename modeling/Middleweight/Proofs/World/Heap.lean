import Middleweight.Proofs.ClassTable.Complete
import Middleweight.Proofs.World.ConcreteRuns
import Middleweight.Proofs.World.Lasting

/-!
# The heap of a run

At every moment of a run every object has a class, on which all that refers to it agrees, and
exactly the fields of that class: one variable for each field name of the class and of its bases,
declared with the class of the type that the nearest of them gives the field. Fields and their
classes last as long as the run. An object of every formed type can be made. And a body that runs on
an object belongs to the class of the object or to one of its bases.

* `Instance.IsOf` : the fields of an object of a class
* `Engine.allocate_ok` : objects of formed types can be made
* `heap_of_reaches` : the heap at all moments of a run
-/

namespace Middleweight

variable {F : Type}

/-! ## Fields -/

namespace FieldSlot

theorem mem_firsts {s : FieldSlot} : ∀ {l : List FieldSlot} {seen : List String},
    s ∈ firsts seen l → s.name ∉ seen ∧ l.find? (fun f => f.name == s.name) = some s := by
  intro l
  induction l with
  | nil => exact fun h => nomatch h
  | cons f rest ih =>
    intro seen h
    rw [firsts] at h
    split at h
    · next hf =>
      obtain ⟨hs, hfind⟩ := ih h
      refine ⟨hs, ?_⟩
      rw [List.find?_cons_of_neg, hfind]
      simpa using fun heq : f.name = s.name => hs (heq ▸ hf)
    · next hf =>
      rcases List.mem_cons.mp h with rfl | h
      · exact ⟨hf, by simp⟩
      · obtain ⟨hs, hfind⟩ := ih h
        rw [List.mem_cons, not_or] at hs
        refine ⟨hs.2, ?_⟩
        rw [List.find?_cons_of_neg, hfind]
        simpa using fun heq : f.name = s.name => hs.1 heq.symm

theorem nodup_firsts (l : List FieldSlot) :
    ∀ seen : List String, ((firsts seen l).map FieldSlot.name).Nodup := by
  induction l with
  | nil => exact fun _ => List.nodup_nil
  | cons f rest ih =>
    intro seen
    rw [firsts]
    split
    · exact ih seen
    · rw [List.map_cons, List.nodup_cons]
      refine ⟨fun hmem => ?_, ih _⟩
      obtain ⟨s, hs, heq⟩ := List.mem_map.mp hmem
      exact (mem_firsts hs).1 (heq ▸ List.mem_cons_self)

/-- Every field name that has not been seen has a first field. -/
theorem exists_mem_firsts {f : FieldSlot} : ∀ {l : List FieldSlot} {seen : List String}, f ∈ l →
    f.name ∉ seen → ∃ s ∈ firsts seen l, s.name = f.name := by
  intro l
  induction l with
  | nil => exact fun h => nomatch h
  | cons g rest ih =>
    intro seen hf hseen
    rw [firsts]
    split
    · next hg =>
      rcases List.mem_cons.mp hf with rfl | hf
      · exact absurd hg hseen
      · exact ih hf hseen
    · by_cases hname : f.name = g.name
      · exact ⟨g, List.mem_cons_self, hname.symm⟩
      · rcases List.mem_cons.mp hf with rfl | hf
        · exact absurd rfl hname
        · obtain ⟨s, hs, heq⟩ := ih hf fun hmem => (List.mem_cons.mp hmem).elim hname hseen
          exact ⟨s, List.mem_cons_of_mem _ hs, heq⟩

theorem map_fst_of_holds {t : ClassTable F} {slots : List FieldSlot}
    {fs : List (String × Variable F)} (h : List.Forall₂ (Holds t) slots fs) :
    fs.map Prod.fst = slots.map FieldSlot.name := by
  induction h with
  | nil => rfl
  | cons hf _ ih => rw [List.map_cons, List.map_cons, hf.name, ih]

end FieldSlot

/--
The fields of an object of a class: one for each field name of the class and of its bases, declared
with the class of the type of the first field of that name, those of the class itself coming first.
-/
structure Instance.IsOf (t : ClassTable F) (c : RuntimeClass F) (i : Instance F) : Prop where
  nodup : (i.fields.map Prod.fst).Nodup
  names : ∀ name, name ∈ i.fields.map Prod.fst ↔ ∃ s ∈ c.allFields, s.name = name
  declared : ∀ f ∈ i.fields, ∃ s, c.field? f.1 = some s ∧ ∀ span, t.classFor s.ty span = .ok f.2.cls

/-- A class of the type that a type is resolved to is the class of that type. -/
theorem ClassTable.Makes.classFor_eq {t : ClassTable F} {c : RuntimeClass F} (h : t.Makes c)
    {ty : Ty} (hty : c.asTy = ty.resolved) (span : Span) : t.classFor ty span = .ok c := by
  rw [← h.instantiates.classFor_eq span, ClassTable.classFor, ClassTable.classFor, ← hty,
    ← Ty.resolved_of_isGround h.isGround]
  rfl

theorem Instance.Valid.isOf {t : ClassTable F} {W : World F} {c : RuntimeClass F} {i : Instance F}
    (h : i.Valid t W c) : i.IsOf t c := by
  have hnames := FieldSlot.map_fst_of_holds h.layout
  refine ⟨?_, fun name => ?_, fun f hf => ?_⟩
  · rw [hnames]
    exact FieldSlot.nodup_firsts _ _
  · rw [hnames, List.mem_map]
    constructor
    · rintro ⟨s, hs, rfl⟩
      exact ⟨s, List.mem_of_find?_eq_some (FieldSlot.mem_firsts hs).2, rfl⟩
    · rintro ⟨s, hs, rfl⟩
      exact FieldSlot.exists_mem_firsts hs List.not_mem_nil
  · obtain ⟨s, hs, hholds⟩ := exists_of_forall₂_mem h.layout hf
    refine ⟨s, ?_, fun span => hholds.cls.classFor_eq hholds.ty span⟩
    rw [hholds.name]
    exact (FieldSlot.mem_firsts hs).2

/-! ## New objects -/

namespace Engine

variable {eng : Engine F} (ht : eng.table.Complete)

include ht

/-- The class of a formed type can be made, and only the memories of the machine change. -/
theorem classOf_ok {ty : Ty} (hty : ty.resolved.Formed eng.table.arity? []) :
    ∃ c, c.asTy = ty.resolved ∧ eng.table.Instantiates c.ty c ∧
      ∀ (m : Machine F) span, m.Remembers eng.table →
        ∃ m₁, eng.classOf ty span m = .ok c m₁ ∧ m₁.Remembers eng.table := by
  obtain ⟨c, hclass, hasTy, hinst⟩ := ht.classFor_ok hty
  refine ⟨c, hasTy, hinst, fun m span hm => ?_⟩
  obtain ⟨r, hr, heq⟩ := classOf_eq hm ty span
  rw [hclass span] at heq
  exact ⟨_, heq, hm.withMemory hr hm.current⟩

theorem newFields_ok (span : Span) : ∀ {slots : List FieldSlot} (made : List (String × Variable F))
    {m : Machine F}, (∀ s ∈ slots, s.ty.Formed eng.table.arity? []) → m.Remembers eng.table →
    ∃ fs m₁, eng.newFields span slots made m = .ok fs m₁ := by
  intro slots
  induction slots with
  | nil => exact fun _ _ _ _ => ⟨_, _, rfl⟩
  | cons s rest ih =>
    intro made m hslots hm
    have hrest := fun r hr => hslots r (List.mem_cons_of_mem s hr)
    rw [newFields]
    cases made.lookup s.name with
    | some v => exact ih made hrest hm
    | none =>
      have hformed := hslots s List.mem_cons_self
      rw [← Ty.resolved_of_isGround hformed.isGround] at hformed
      obtain ⟨c, -, -, hclass⟩ := classOf_ok ht hformed
      obtain ⟨m₁, hok, hm₁⟩ := hclass m span hm
      obtain ⟨fs, m₂, hfs⟩ := ih ((s.name, ⟨c, Value.defaultFor c⟩) :: made) hrest hm₁
      refine ⟨fs, m₂, ?_⟩
      show EStateM.bind (eng.classOf s.ty span) _ m = _
      unfold EStateM.bind
      rw [hok]
      exact hfs

/-- An object of the class of a formed type can be made. -/
theorem allocate_ok {c : RuntimeClass F} (hc : eng.table.Instantiates c.ty c)
    (hformed : c.asTy.Formed eng.table.arity? []) (span : Span) {m : Machine F}
    (hm : m.Remembers eng.table) : ∃ o m₁, eng.allocate c span m = .ok o m₁ ∧ o.cls = c := by
  obtain ⟨fs, m₁, hfs⟩ := newFields_ok ht span [] (ht.formed_allFields hc hformed) hm
  refine ⟨⟨m₁.heap.size, c⟩, { m₁ with heap := m₁.heap.push { fields := fs } }, ?_, rfl⟩
  show EStateM.bind (eng.newFields span c.allFields []) _ m = _
  unfold EStateM.bind
  rw [hfs]
  rfl

end Engine

/-! ## Machines -/

/-- An object of the class of every formed type can be made, also right after that class. -/
def Machine.Allocates (eng : Engine F) (m : Machine F) : Prop :=
  ∀ ty : Ty, ty.resolved.Formed eng.table.arity? [] → ∃ c, c.asTy = ty.resolved ∧ ∀ span,
    (∃ o m₁, eng.allocate c span m = .ok o m₁ ∧ o.cls = c) ∧
    ∃ m₁, eng.classOf ty span m = .ok c m₁ ∧ ∃ o m₂, eng.allocate c span m₁ = .ok o m₂ ∧ o.cls = c

/--
A machine with some objects in use besides those in its variables: each object has a class, on which
all references to it agree, and the fields of that class; and the body that runs belongs to a class
that the running object is of, directly or by extension.
-/
structure Machine.Orderly (eng : Engine F) (used : List (ObjectRef F)) (m : Machine F) : Prop where
  allocates : m.Allocates eng
  objects : ∃ classes, List.Forall₂ (fun c i => Instance.IsOf eng.table c i) classes m.heap.toList ∧
    ∀ o ∈ used ++ m.variables.flatMap (fun v => v.value.objects), classes[o.id]? = some o.cls
  running : ∀ o c, m.scope.context = .instance o c → o.cls.Extends c

/-- The variables of a machine whose objects are all in reach have objects of its world. -/
theorem Machine.Valid.variables {t : ClassTable F} {strict : Prop} {W : World F} {m : Machine F}
    (h : m.Valid t strict W) (hW : World.Grows [] W) : ∀ v ∈ m.variables, v.value.Valid t W := by
  obtain ⟨classes, rfl⟩ := hW
  intro v hv
  rcases List.mem_append.mp hv with hv | hv
  · rcases List.mem_append.mp hv with hv | hv
    · rcases List.mem_append.mp hv with hv | hv
      · obtain ⟨l, hl, hv⟩ := List.mem_flatMap.mp hv
        obtain ⟨e, he, rfl⟩ := List.mem_map.mp hv
        exact ((h.scope.levels l hl).locals e he).value
      · have hcontext := h.scope.context
        generalize m.scope.context = context at hv hcontext
        cases context with
        | «instance» o c =>
          cases List.mem_singleton.mp hv
          exact hcontext.1
        | _ => exact absurd hv List.not_mem_nil
    · obtain ⟨i, hi, hv⟩ := List.mem_flatMap.mp hv
      obtain ⟨c, hc, hfits⟩ := exists_of_forall₂_mem h.heap hi
      obtain ⟨d, -, rfl⟩ := List.mem_map.mp hc
      exact Instance.Valid.variables hfits hv
  · obtain ⟨e, he, rfl⟩ := List.mem_map.mp hv
    obtain ⟨-, -, o, hvalue, ho, -⟩ := h.statics e he
    rw [hvalue]
    exact ho

theorem Machine.Valid.orderly {eng : Engine F} (ht : eng.table.Complete) {strict : Prop}
    {W : World F} {m : Machine F} (h : m.Valid eng.table strict W) (hW : World.Grows [] W)
    {used : List (ObjectRef F)} (hused : ∀ o ∈ used, o.In W) : m.Orderly eng used := by
  refine ⟨fun ty hty => ?_, ?_, fun o c hcontext => ?_⟩
  · obtain ⟨c, hasTy, hinst, hclass⟩ := Engine.classOf_ok ht hty
    refine ⟨c, hasTy, fun span => ⟨Engine.allocate_ok ht hinst (hasTy ▸ hty) span h.remembers, ?_⟩⟩
    obtain ⟨m₁, hok, hm₁⟩ := hclass m span h.remembers
    exact ⟨m₁, hok, Engine.allocate_ok ht hinst (hasTy ▸ hty) span hm₁⟩
  · -- Grown from nothing, the world has a known class for every object, and that is the list.
    have hvariables := h.variables hW
    obtain ⟨classes, rfl⟩ := hW
    refine ⟨classes, ?_, fun o ho => ?_⟩
    · have hheap := h.heap
      rw [List.nil_append, List.forall₂_map_left_iff] at hheap
      exact hheap.imp fun c i hi => Instance.Valid.isOf hi
    · have hin : o.In ([] ++ classes.map some) := by
        rcases List.mem_append.mp ho with ho | ho
        · exact hused o ho
        · obtain ⟨v, hv, ho⟩ := List.mem_flatMap.mp ho
          exact (hvariables v hv).objects o ho
      rw [ObjectRef.In, List.nil_append, List.getElem?_map, Option.map_eq_some_iff] at hin
      obtain ⟨c, hc, heq⟩ := hin
      rw [hc, Option.some.inj heq]
  · have hvalid := h.scope.context
    rw [hcontext] at hvalid
    exact hvalid.2

/-! ## Moments -/

/-- The member that an activity runs on an object, and the object. -/
def Activity.running? : Activity F → Option (Selected F (RuntimeClass F) × ObjectRef F)
  | method s (.object o) _ _ => some (s, o)
  | constructor s o _ _ _ _ => some (s, o)
  | _ => none

/-- The objects that an activity starts with. -/
def Activity.used (a : Activity F) : List (ObjectRef F) :=
  a.objects ++ a.passed.flatMap fun v => v.value.objects

/-- The machine in which the activity of a moment ends. -/
def Moment.final [HostFunctions F] (eng : Engine F) (M : Moment F) : Machine F :=
  finalMachine (M.activity.perform eng M.depth M.machine)

/--
A moment whose activity starts and ends with an orderly machine; and a member that it runs on an
object is one of the class of the object or of one of its bases.
-/
structure Moment.Orderly [HostFunctions F] (eng : Engine F) (M : Moment F) : Prop where
  start : M.machine.Orderly eng M.activity.used
  ends : (M.final eng).Orderly eng []
  results : ∀ vs m', M.activity.perform eng M.depth M.machine = .ok vs m' →
    m'.Orderly eng (vs.flatMap fun v => v.value.objects)
  members : ∀ s o, M.activity.running? = some (s, o) → o.cls.Extends s.owner ∧
    (s.member ∈ s.owner.own.template.methods ∨ s.member ∈ s.owner.own.template.constructors)

variable {eng : Engine StandardFn} {p : Program}

theorem Activity.Valid.members {t : ClassTable F} {strict : Prop} {W : World F} {a : Activity F}
    (h : a.Valid t strict W) {s : Selected F (RuntimeClass F)} {o : ObjectRef F}
    (hs : a.running? = some (s, o)) : o.cls.Extends s.owner ∧
      (s.member ∈ s.owner.own.template.methods ∨ s.member ∈ s.owner.own.template.constructors) := by
  cases a with
  | method s' this args span =>
    cases this with
    | object o' =>
      cases hs
      exact ⟨h.receiver _ rfl, h.selected.member⟩
    | _ => cases hs
  | constructor s' o' isStaticView rest args span =>
    cases hs
    exact ⟨h.1.receiver _ rfl, h.1.selected.member⟩
  | _ => cases hs

theorem Moment.ValidFrom.orderly (h : ClassTable.build p .standard = .ok eng.table) {strict : Prop}
    {M : Moment StandardFn} (hM : M.ValidFrom eng.table strict []) : M.Orderly eng := by
  have ht := ClassTable.complete_of_build h
  obtain ⟨W, hW, hm, ha⟩ := hM
  have hperform := Activity.sustains_perform h M.depth ha M.machine hm
  have hpassed : ∀ {V : World StandardFn} {vs : List (Variable StandardFn)},
      (∀ v ∈ vs, v.Passed eng.table V) → ∀ o ∈ vs.flatMap (fun v => v.value.objects), o.In V := by
    intro V vs hvs o ho
    obtain ⟨v, hv, ho⟩ := List.mem_flatMap.mp ho
    exact (hvs v hv).value.objects o ho
  refine ⟨hm.orderly ht hW fun o ho => ?_, ?_, fun vs m' hok => ?_, fun s o hs => ha.members hs⟩
  · exact (List.mem_append.mp ho).elim (ha.objects o) (hpassed ha.passed o)
  · have hnone : ∀ V : World StandardFn, ∀ o ∈ ([] : List (ObjectRef StandardFn)), o.In V :=
      fun _ _ ho => absurd ho List.not_mem_nil
    unfold Moment.final
    generalize M.activity.perform eng M.depth M.machine = r at hperform
    cases hperform with
    | ok hV hm' _ => exact hm'.orderly ht (hW.trans hV) (hnone _)
    | error hV hm' _ => exact hm'.orderly ht (hW.trans hV) (hnone _)
  · rw [hok] at hperform
    cases hperform with
    | ok hV hm' hvs => exact hm'.orderly ht (hW.trans hV) (hpassed hvs)

/--
The heap of everything that a host can do with an engine, whatever it did before: all moments are
orderly; and there is one list of fields with their declared classes, object by object, with which
all of them agree about the objects that there are by then.
-/
theorem heap_of_reaches (hserves : eng.Serves p) {given : List (ObjectRef StandardFn)}
    {m : Machine StandardFn} (hist : History eng False given m) {op : HostOperation StandardFn}
    (hop : op.Allowed eng.table False given) :
    ∃ layouts, ∀ M, Reaches eng ⟨eng.budget, .operation op, m⟩ M →
      M.Orderly eng ∧ M.machine.layouts <+: layouts ∧ (M.final eng).layouts <+: layouts := by
  have h := hserves.build
  obtain ⟨W, hW, hm, hgiven⟩ := hist.valid h
  -- Layouts are only ever added to, so the list is that of the end of the whole operation.
  refine ⟨(Moment.final eng ⟨eng.budget, .operation op, m⟩).layouts, fun M hreach => ?_⟩
  have hstart : Moment.ValidFrom eng.table False [] ⟨eng.budget, .operation op, m⟩ :=
    ⟨W, hW, hm, ⟨given, hgiven, hop⟩, fun hf => hf.elim⟩
  have hwithin := hreach.within
  have hlasting := (M.activity.built_perform eng M.depth).lasting M.machine
  exact ⟨(hreach.validFrom h hstart).orderly h, hlasting.trans hwithin.ends, hwithin.ends⟩

open Build in
/-- A tally is a cell that hides the field of the cell behind one of its own. -/
def tallyProgram : Program :=
  program
    [{ name := ident "Cell", generics := [ident "T"], fields := [field "T" "held"],
       constructors := [constructor [param "T" "x"] [assign "held" (var "x")]] },
     { name := ident "Tally", generics := [ident "U"], base := some (ty "Cell<U>"),
       fields := [field "int" "held", field "U" "last"],
       constructors := [{ constructor [param "U" "x"] [assign "last" (var "x")] with
         superArguments := some [int 1] }] },
     { name := ident "Main",
       methods := [mainMethod
         [localVariable "Tally<String>" "t" (some (new "Tally<String>" [string "a"])),
          expr (postIncrement (fieldOf (var "t") "held"))]] }]

/-- The fields of all objects at the end of a run of a fresh engine, with their classes as texts. -/
def Engine.finalFields (eng : Engine StandardFn) : List (List (String × String)) :=
  (finalMachine (eng.run {})).layouts.map fun l => l.map fun e => (e.1, e.2.text)

theorem heap_of_reaches_tally : ∃ eng, Engine.new tallyProgram .standard = .ok eng ∧
    eng.finalFields = [[("held", "int"), ("last", "java.lang.String")]] ∧
    ∃ layouts, ∀ M, Reaches eng ⟨eng.budget, .operation .run, {}⟩ M →
      M.Orderly eng ∧ M.machine.layouts <+: layouts ∧ (M.final eng).layouts <+: layouts := by
  have h : (Engine.new tallyProgram .standard).toOption.map Engine.finalFields =
      some [[("held", "int"), ("last", "java.lang.String")]] := by decide +kernel
  cases hnew : Engine.new tallyProgram .standard with
  | error e => simp [hnew, Except.toOption] at h
  | ok eng =>
    rw [hnew] at h
    exact ⟨eng, rfl, Option.some.inj h,
      heap_of_reaches ⟨eng, hnew, rfl⟩ (.fresh : History eng False [] {}) trivial⟩

end Middleweight
