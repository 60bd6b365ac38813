import Middleweight.Proofs.Engine.KeptScope
import Middleweight.Proofs.World.Members

/-!
# What a host has done with an engine

A host can run a program, call its static methods and make classes and objects, one after the other,
and go on after an error. What it passes are values that it can have: plain ones, classes, and
objects that it was given or found in objects. Whatever it did, the machine that it left is valid.

* `HostOperation`, `History` : operations of a host, and what a series of them leaves
* `History.scope_eq`, `History.stack_eq` : no scope and no call is left behind
* `History.valid` : the machine after any history is valid
-/

namespace Middleweight

variable {F : Type}

/-! ## Operations -/

/-- Something that a host asks of an engine. -/
inductive HostOperation (F : Type) where
  | run
  | callStatic (className method : String) (args : List (Variable F)) (span : Span)
  | classOf (ty : Ty) (span : Span)
  | construct (c : RuntimeClass F) (args : List (Variable F)) (span : Span)
  | allocate (c : RuntimeClass F) (span : Span)

/-- A value that a host can have that was given some objects. -/
def Value.Obtainable (t : ClassTable F) (given : List (ObjectRef F)) : Value F → Prop
  | .object o => o ∈ given
  | .cls c => t.Offers c
  | _ => True

/-- A variable that a host can have: any value it can have, with any class of the engine. -/
structure Variable.Obtainable (t : ClassTable F) (given : List (ObjectRef F)) (v : Variable F) :
    Prop where
  cls : t.Offers v.cls
  value : v.value.Obtainable t given

namespace HostOperation

/-- Carries an operation out; the host is given the objects that it results in. -/
def perform [HostFunctions F] (eng : Engine F) : HostOperation F → EvalM F (List (ObjectRef F))
  | run => do
    eng.run
    return []
  | callStatic className method args span => do
    match ← eng.callStatic className method args span with
    | some v => return v.value.objects
    | none => return []
  | classOf ty span => do
    let _ ← eng.classOf ty span
    return []
  | construct c args span => do return [← eng.constructObject c args span]
  | allocate c span => do return [← eng.allocate c span]

/-- An operation that a host can ask for; a strict one makes no objects of static views. -/
def Allowed (t : ClassTable F) (strict : Prop) (given : List (ObjectRef F)) :
    HostOperation F → Prop
  | run => True
  | callStatic _ _ args _ => ∀ v ∈ args, v.Obtainable t given
  | classOf _ _ => True
  | construct c args _ => t.Creates strict c ∧ ∀ v ∈ args, v.Obtainable t given
  | allocate c _ => t.Creates strict c

end HostOperation

/--
A machine that a host can have left, and the objects that it has been given by then. An operation
ends well or in an error, and the next one follows; and a host can look into its objects.
-/
inductive History [HostFunctions F] (eng : Engine F) (strict : Prop) :
    List (ObjectRef F) → Machine F → Prop
  | fresh : History eng strict [] {}
  | success {given new : List (ObjectRef F)} {m m' : Machine F} {op : HostOperation F} :
      History eng strict given m → op.Allowed eng.table strict given →
      op.perform eng m = .ok new m' → History eng strict (new ++ given) m'
  | failure {given : List (ObjectRef F)} {m m' : Machine F} {op : HostOperation F}
      {e : RuntimeError F} :
      History eng strict given m → op.Allowed eng.table strict given →
      op.perform eng m = .error (.error e) m' → History eng strict given m'
  | inspect {given : List (ObjectRef F)} {m : Machine F} {o : ObjectRef F} {i : Instance F}
      {v : Variable F} :
      History eng strict given m → o ∈ given → m.heap[o.id]? = some i → v ∈ i.variables →
      History eng strict (v.value.objects ++ given) m

/--
An engine for a program with the standard library, whoever observes it, wherever it writes to, and
whatever its budget is.
-/
def Engine.Serves (eng : Engine StandardFn) (p : Program) : Prop :=
  ∃ made, Engine.new p .standard = .ok made ∧
    eng = { made with observed := eng.observed, sink := eng.sink, budget := eng.budget }

/-! ## Scopes and open calls -/

section Left

variable [HostFunctions F] (eng : Engine F)

theorem HostOperation.built_perform (op : HostOperation F) : eng.Built (op.perform eng) := by
  cases op with
  | run => exact .bind eng.built_run fun _ => .pure _
  | callStatic className method args span =>
    refine .bind (eng.built_callStatic className method args span) fun r => ?_
    cases r with
    | none => exact .pure _
    | some v => exact .pure _
  | classOf ty span => exact .bind (Engine.built_classOf ty span) fun _ => .pure _
  | construct c args span => exact .map (eng.built_constructObject c args span) _
  | allocate c span => exact .map (Engine.built_allocate c span) _

theorem HostOperation.scopeKept_perform (op : HostOperation F) :
    EvalM.ScopeKept (op.perform eng) := by
  cases op with
  | run => exact .bind eng.scopeKept_run fun _ => .pure _
  | callStatic className method args span =>
    refine .bind (eng.scopeKept_callStatic className method args span) fun r => ?_
    cases r with
    | none => exact .pure _
    | some v => exact .pure _
  | classOf ty span => exact .bind (eng.scopeKept_register _) fun _ => .pure _
  | construct c args span => exact .map (eng.scopeKept_constructObject c args span) _
  | allocate c span => exact .map (eng.scopeKept_allocate c span) _

variable {eng} {strict : Prop} {given : List (ObjectRef F)} {m : Machine F}

/-- Between operations a machine is at the scope it started with. -/
theorem History.scope_eq (hist : History eng strict given m) : m.scope = .global := by
  induction hist with
  | fresh => rfl
  | @success given new m m' op _ _ hperform ih =>
    have hkept := op.scopeKept_perform eng m
    rw [hperform] at hkept
    exact hkept.trans ih
  | @failure given m m' op e _ _ hperform ih =>
    have hkept := op.scopeKept_perform eng m
    rw [hperform] at hkept
    exact hkept.trans ih
  | inspect _ _ _ _ ih => exact ih

/-- Between operations no call is open. -/
theorem History.stack_eq (hist : History eng strict given m) : m.stack = [] := by
  induction hist with
  | fresh => rfl
  | @success given new m m' op _ _ hperform ih =>
    have hrestored := ((op.built_perform eng).restored m).stack
    rw [hperform] at hrestored
    exact hrestored.trans ih
  | @failure given m m' op e _ _ hperform ih =>
    have hrestored := ((op.built_perform eng).restored m).stack
    rw [hperform] at hrestored
    exact hrestored.trans ih
  | inspect _ _ _ _ ih => exact ih

end Left

/-! ## Validity -/

variable {t : ClassTable F} {W V : World F} {given : List (ObjectRef F)}

theorem Value.Obtainable.valid {v : Value F} (h : v.Obtainable t given)
    (hgiven : ∀ o ∈ given, o.In W) : v.Valid t W := by
  cases v with
  | object o => exact hgiven o h
  | cls c => exact h
  | _ => trivial

theorem Variable.Obtainable.passed {v : Variable F} (h : v.Obtainable t given)
    (hgiven : ∀ o ∈ given, o.In W) : v.Passed t W :=
  ⟨h.cls, h.value.valid hgiven⟩

theorem Value.Valid.objects {v : Value F} (h : v.Valid t W) : ∀ o ∈ v.objects, o.In W := by
  cases v with
  | object o =>
    intro o' ho'
    rw [List.mem_singleton.mp ho']
    exact h
  | _ => exact fun _ ho => absurd ho List.not_mem_nil

theorem Instance.Valid.variables {c : RuntimeClass F} {i : Instance F} (h : i.Valid t W c)
    {v : Variable F} (hv : v ∈ i.variables) : v.value.Valid t W := by
  rcases List.mem_append.mp hv with hv | hv
  · obtain ⟨f, hf, rfl⟩ := List.mem_map.mp hv
    exact h.values f hf
  · split at hv
    · next xs hhost => exact ((h.host _ hhost).1 v hv).value
    · cases hv

variable {eng : Engine StandardFn} {strict : Prop} {p : Program}

theorem Engine.Serves.build (h : eng.Serves p) : ClassTable.build p .standard = .ok eng.table := by
  obtain ⟨made, hnew, heq⟩ := h
  unfold Engine.new at hnew
  split at hnew
  · cases hnew
  · next table hbuild =>
    cases hnew
    rw [heq]
    exact hbuild

/-- An operation that a host can ask for sustains validity, unless it asks for an open type. -/
theorem HostOperation.sustains_perform (h : ClassTable.build p .standard = .ok eng.table)
    {W : World StandardFn} {given : List (ObjectRef StandardFn)}
    (hgiven : ∀ o ∈ given, o.In W) {op : HostOperation StandardFn}
    (hop : op.Allowed eng.table strict given)
    (hty : strict → ∀ ty span, op = .classOf ty span → ty.firstUnbound? = none) :
    eng.Sustains strict W (op.perform eng) fun V new => ∀ o ∈ new, o.In V := by
  have ht := ClassTable.closed_of_build h
  cases op with
  | run => exact (Engine.sustains_run h).bind fun _ _ _ _ =>
      .pure fun _ ho => absurd ho List.not_mem_nil
  | callStatic className method args span =>
    refine (Engine.sustains_callStatic h className method
      (fun v hv => (hop v hv).passed hgiven) span).bind fun V r _ hr => ?_
    cases r with
    | none => exact .pure fun _ ho => absurd ho List.not_mem_nil
    | some v => exact .pure (hr v rfl).value.objects
  | classOf ty span =>
    exact (Engine.sustains_classOf ht (fun hs => hty hs ty span rfl) span).bind fun _ _ _ _ =>
      .pure fun _ ho => absurd ho List.not_mem_nil
  | construct c args span =>
    refine (Engine.sustains_constructObject h hop.1
      (fun v hv => (hop.2 v hv).passed hgiven) span).map fun V o _ ho o' ho' => ?_
    rw [List.mem_singleton.mp ho']
    exact ho.1
  | allocate c span =>
    refine (Engine.sustains_allocate ht hop span).map fun V o _ ho o' ho' => ?_
    rw [List.mem_singleton.mp ho']
    exact ho.1

/-- An operation leaves a valid machine, however it ends, and results in objects of that machine. -/
theorem HostOperation.valid_perform (h : ClassTable.build p .standard = .ok eng.table)
    {W : World StandardFn} {given : List (ObjectRef StandardFn)}
    (hgiven : ∀ o ∈ given, o.In W) {op : HostOperation StandardFn}
    (hop : op.Allowed eng.table strict given) {m : Machine StandardFn}
    (hm : m.Valid eng.table strict W) :
    ∃ V, W.Grows V ∧ (finalMachine (op.perform eng m)).Valid eng.table strict V ∧
      ∀ new m', op.perform eng m = .ok new m' → ∀ o ∈ new, o.In V := by
  by_cases hclass : ∃ ty span, op = .classOf ty span
  · obtain ⟨ty, span, rfl⟩ := hclass
    -- A class is made without objects, for an open type not even a class.
    obtain ⟨r, hr, heq⟩ := Engine.classOf_eq hm.remembers ty span
    have hleft := hm.withMemory hr hm.remembers.current
    refine ⟨W, .refl W, ?_⟩
    show (finalMachine (EStateM.bind (eng.classOf ty span) _ m)).Valid _ _ _ ∧
      ∀ new m', EStateM.bind (eng.classOf ty span) _ m = _ → _
    unfold EStateM.bind
    rw [heq]
    cases eng.table.classFor ty span with
    | ok c =>
      refine ⟨hleft, fun new m' h => ?_⟩
      cases h
      exact fun _ ho => absurd ho List.not_mem_nil
    | error e => exact ⟨hleft, fun new m' h => nomatch h⟩
  · have hperform := sustains_perform h hgiven hop
      (fun _ ty span heq => absurd ⟨ty, span, heq⟩ hclass) m hm
    generalize op.perform eng m = r at hperform
    cases hperform with
    | ok hV hm' hnew => exact ⟨_, hV, hm', fun new m' h => by cases h; exact hnew⟩
    | error hV hm' _ => exact ⟨_, hV, hm', fun new m' h => nomatch h⟩

/--
The machine after any history is valid in a world of objects in reach, and the objects that the host
was given are in it.
-/
theorem History.valid (h : ClassTable.build p .standard = .ok eng.table)
    {given : List (ObjectRef StandardFn)} {m : Machine StandardFn}
    (hist : History eng strict given m) :
    ∃ W, World.Grows [] W ∧ m.Valid eng.table strict W ∧ ∀ o ∈ given, o.In W := by
  induction hist with
  | fresh => exact ⟨[], .refl [], .fresh, fun _ ho => absurd ho List.not_mem_nil⟩
  | success _ hop hperform ih =>
    obtain ⟨W, hW, hm, hgiven⟩ := ih
    obtain ⟨V, hV, hm', hnew⟩ := HostOperation.valid_perform h hgiven hop hm
    rw [hperform] at hm'
    refine ⟨V, hW.trans hV, hm', fun o ho => ?_⟩
    rcases List.mem_append.mp ho with ho | ho
    · exact hnew _ _ hperform o ho
    · exact (hgiven o ho).mono hV
  | failure _ hop hperform ih =>
    obtain ⟨W, hW, hm, hgiven⟩ := ih
    obtain ⟨V, hV, hm', -⟩ := HostOperation.valid_perform h hgiven hop hm
    rw [hperform] at hm'
    exact ⟨V, hW.trans hV, hm', fun o ho => (hgiven o ho).mono hV⟩
  | @inspect given m o i v _ ho hi hv ih =>
    obtain ⟨W, hW, hm, hgiven⟩ := ih
    obtain ⟨i', hi', hvalid⟩ := hm.contents (hgiven o ho)
    rw [hi] at hi'
    cases hi'
    refine ⟨W, hW, hm, fun o' ho' => ?_⟩
    rcases List.mem_append.mp ho' with ho' | ho'
    · exact (hvalid.variables hv).objects o' ho'
    · exact hgiven o' ho'

/-! ## What a run can reach -/

/-- Whether a class is that of the standard output. -/
def RuntimeClass.isOutput (c : RuntimeClass F) : Bool :=
  !c.isStaticView && c.name == Ty.printStreamName && c.ty.args.isEmpty

theorem RuntimeClass.isOutput_iff {c : RuntimeClass F} :
    c.isOutput = true ↔ c.isStaticView = false ∧ c.asTy = .named Ty.printStreamName := by
  simp only [isOutput, asTy, name, ClassTy.toTy, Ty.named, Bool.and_eq_true, Bool.not_eq_true',
    beq_iff_eq, List.isEmpty_iff, Ty.cls.injEq, and_assoc]

/-- A world in which only the standard output is in reach. -/
def World.outputs (W : World F) : World F := W.map (Option.filter RuntimeClass.isOutput)

theorem World.in_outputs {W : World F} {o : ObjectRef F} (ho : o.In W)
    (houtput : o.cls.isOutput = true) : o.In W.outputs := by
  unfold ObjectRef.In at ho ⊢
  rw [World.outputs, List.getElem?_map, ho, Option.map_some]
  exact congrArg some (Option.filter_eq_some_iff.mpr ⟨rfl, houtput⟩)

/--
From the scope of nothing in particular only the standard output is in reach. It has no fields and
keeps nothing, so that objects that a host made before stay out of reach, those of static views
among them.
-/
theorem Machine.Valid.outputs {t : ClassTable StandardFn}
    (h : ClassTable.build p .standard = .ok t) {W : World StandardFn} {m : Machine StandardFn}
    {strict' : Prop}
    (hm : m.Valid t strict' W) (hscope : m.scope = .global) : m.Valid t strict W.outputs := by
  have hmakes : ∀ c, some c ∈ W → c.isOutput = true → t.Makes c := by
    intro c hc houtput
    refine (hm.classes c hc).resolve_right fun hshows => ?_
    have hview := (RuntimeClass.isOutput_iff.mp houtput).1
    rw [hshows.2.isStaticView_eq] at hview
    cases hview
  refine ⟨hm.registry, fun c hc => ?_, ?_, fun e he => ?_, hscope ▸ .global⟩
  · obtain ⟨d, hd, hfilter⟩ := List.mem_map.mp hc
    obtain ⟨rfl, houtput⟩ := Option.filter_eq_some_iff.mp hfilter
    exact .inl (hmakes c hd houtput)
  · rw [World.outputs, List.forall₂_map_left_iff]
    refine (forall₂_with_mem hm.heap).imp fun c i hi => ?_
    obtain ⟨hmem, -, hfits⟩ := hi
    cases c with
    | none => exact hfits
    | some d =>
      rw [Option.filter_some]
      split
      · next houtput =>
        obtain ⟨hslots, hlist⟩ := ClassTable.fieldless_printStream h
          ((hmakes d hmem houtput).instantiates_of_asTy (RuntimeClass.isOutput_iff.mp houtput).2)
        have hlayout := hfits.layout
        rw [hslots] at hlayout
        refine ⟨hfits.layout, fun f hf => ?_, fun s hs => absurd (hfits.host s hs).2 hlist⟩
        rw [List.forall₂_nil_left_iff.mp hlayout] at hf
        cases hf
      · exact hfits.known fun e he => (hm.classes e he).offers
  · obtain ⟨hkey, hcls, o, hvalue, ho, hocls⟩ := hm.statics e he
    refine ⟨hkey, hcls, o, hvalue, World.in_outputs ho (RuntimeClass.isOutput_iff.mpr ?_), hocls⟩
    rw [hocls, RuntimeClass.asTy, hcls.ty_eq]
    exact ⟨hcls.isStaticView_eq, rfl⟩

end Middleweight
