import Middleweight.Proofs.World.Moments
import Middleweight.Syntax.Build

/-!
# Runs meet no unbound parameters

However a program is written, at no moment of a run does an unbound parameter turn up: the classes
of all variables and objects have concrete arguments, static views apart; the parameters that a
scope sees are bound to concrete types; and so are, once the parameters that the arguments leave
open are bound to the root class, the parameter and return types of every member that is invoked.

The same holds of everything else that a host can do, if it makes no objects of static views.

* `Moment.IsConcrete` : a moment at which no unbound parameter turns up
* `concrete_of_reaches` : all moments of a run are such moments
-/

namespace Middleweight

variable {F : Type}

/-! ## Concrete states -/

/-- A class with concrete arguments, unless it is a static view. -/
def RuntimeClass.IsConcrete (c : RuntimeClass F) : Prop :=
  c.isStaticView = false → ∀ a ∈ c.ty.args, a.isConcrete = true

/-- A variable whose declared class is concrete, and that of its object if it has one. -/
structure Variable.IsConcrete (v : Variable F) : Prop where
  cls : v.cls.IsConcrete
  objects : ∀ o ∈ v.value.objects, o.cls.IsConcrete

/--
All variables of a machine: locals, the running object, what is in objects, and static fields.
-/
def Machine.variables (m : Machine F) : List (Variable F) :=
  m.scope.levels.flatMap (fun l => l.locals.map Prod.snd) ++ m.scope.context.this?.toList ++
    m.heap.toList.flatMap Instance.variables ++ m.statics.map Prod.snd

/-- A machine with concrete variables whose scope sees only parameters that are bound. -/
structure Machine.IsConcrete (m : Machine F) : Prop where
  held : ∀ v ∈ m.variables, v.IsConcrete
  params : ∀ e ∈ m.scope.typeParams, e.2.isConcrete = true

/-- The parameter and return types of a signature are concrete once its parameters are bound. -/
structure Signature.IsConcrete (s : Signature) (b : Bindings) : Prop where
  params : ∀ q ∈ s.params, (q.ty.substitute b).isConcrete = true
  returnType : ∀ ty, s.returnType = some ty → (ty.substitute b).isConcrete = true

/--
A moment at which no unbound parameter turns up, neither as an activity starts nor as it ends.
-/
structure Moment.IsConcrete [HostFunctions F] (eng : Engine F) (M : Moment F) : Prop where
  passed : ∀ v ∈ M.activity.passed, v.IsConcrete
  objects : ∀ o ∈ M.activity.objects, o.cls.IsConcrete
  invoked : ∀ s b, M.activity.invoked? = some (s, b) → s.IsConcrete b
  before : M.machine.IsConcrete
  after : (finalMachine (M.activity.perform eng M.depth M.machine)).IsConcrete
  results : ∀ vs m', M.activity.perform eng M.depth M.machine = .ok vs m' → ∀ v ∈ vs, v.IsConcrete
  stop : ∀ e m', M.activity.perform eng M.depth M.machine = .error e m' →
    e.isUnboundGeneric = false

/-! ## Valid states are concrete -/

variable {t : ClassTable F} {W : World F}

theorem Ty.isConcrete_of_isGround {ty : Ty} (h : ty.IsGround) : ty.isConcrete = true := by
  rw [Ty.isConcrete, Ty.firstUnbound?_of_isGround h]
  rfl

theorem ClassTable.Offers.isConcrete {c : RuntimeClass F} (h : t.Offers c) : c.IsConcrete :=
  fun _ a ha => Ty.isConcrete_of_isGround (Ty.allGround_iff.mp (Ty.isGround_cls.mp h.isGround) a ha)

theorem Variable.isConcrete_of_value {v : Variable F} (hcls : t.Offers v.cls)
    (hvalue : v.value.Valid t W) (hclasses : ∀ d, some d ∈ W → t.Offers d) : v.IsConcrete :=
  ⟨hcls.isConcrete, fun o ho =>
    (hclasses _ (List.mem_of_getElem? (hvalue.objects o ho))).isConcrete⟩

/-- A valid machine without objects of static views in reach is concrete. -/
theorem Machine.Valid.isConcrete {m : Machine F} (h : m.Valid t True W) : m.IsConcrete := by
  have hclasses : ∀ d, some d ∈ W → t.Offers d := fun d hd => (h.classes d hd).offers
  refine ⟨fun v hv => ?_, fun e he => ?_⟩
  · rcases List.mem_append.mp hv with hv | hv
    · rcases List.mem_append.mp hv with hv | hv
      · rcases List.mem_append.mp hv with hv | hv
        · obtain ⟨l, hl, hv⟩ := List.mem_flatMap.mp hv
          obtain ⟨e, he, rfl⟩ := List.mem_map.mp hv
          have hstored := (h.scope.levels l hl).locals e he
          exact Variable.isConcrete_of_value (.inl hstored.cls) hstored.value hclasses
        · have hcontext := h.scope.context
          generalize m.scope.context = context at hv hcontext
          cases context with
          | «instance» o c =>
            cases List.mem_singleton.mp hv
            exact Variable.isConcrete_of_value (v := ⟨o.cls, .object o⟩)
              (hclasses _ (List.mem_of_getElem? hcontext.1)) hcontext.1 hclasses
          | _ => exact absurd hv List.not_mem_nil
      · obtain ⟨i, hi, hv⟩ := List.mem_flatMap.mp hv
        obtain ⟨c, -, hfits⟩ := exists_of_forall₂_mem h.heap hi
        have hknown : i.Known t := by
          cases c with
          | none => exact hfits
          | some c => exact Instance.Valid.known hfits hclasses
        exact ⟨(hknown v hv).1.isConcrete, fun o ho => ((hknown v hv).2 o ho).isConcrete⟩
    · obtain ⟨e, he, rfl⟩ := List.mem_map.mp hv
      obtain ⟨-, hcls, o, hvalue, ho, -⟩ := h.statics e he
      exact Variable.isConcrete_of_value (.inl ⟨_, hcls⟩) (hvalue ▸ ho) hclasses
  · rw [Ty.isConcrete, h.concrete_typeParams trivial e he]
    rfl

section Activities

variable {strict : Prop} {a : Activity F}

theorem Activity.Valid.passed (h : a.Valid t strict W) : ∀ v ∈ a.passed, v.Passed t W := by
  cases a with
  | call c this name isStatic args argTypes span => exact h.args
  | method s this args span => exact h.args
  | construction c args argTypes span => exact h.args
  | constructors o isStaticView layers args argTypes span => exact h.2.1
  | constructor s o isStaticView rest args span => exact h.1.args
  | parameters bindings params args span => exact h.2
  | _ => exact fun _ hv => absurd hv List.not_mem_nil

theorem Activity.Valid.objects (h : a.Valid t strict W) : ∀ o ∈ a.objects, o.In W := by
  cases a with
  | call c this name isStatic args argTypes span => exact h.valid.objects
  | method s this args span => exact h.valid.objects
  | constructors o isStaticView layers args argTypes span =>
    exact fun o' ho' => List.mem_singleton.mp ho' ▸ h.1
  | constructor s o isStaticView rest args span =>
    exact fun o' ho' => List.mem_singleton.mp ho' ▸ h.1.valid
  | _ => exact fun _ ho => absurd ho List.not_mem_nil

/-- The parameters of an invoked member are bound to ground types. -/
theorem Activity.Valid.isConcrete_invoked (h : a.Valid t True W) {s : Signature} {b : Bindings}
    (hs : a.invoked? = some (s, b)) : s.IsConcrete b := by
  have hsound : ∀ {s : Selected F (RuntimeClass F)} {b : Bindings}, s.Sound t →
      Ty.BindsAll b s.signature.generics → s.signature.IsConcrete b := fun hs hb =>
    ⟨fun q hq => Ty.isConcrete_of_isGround (hs.isGround_param hb hq),
      fun ty hty => Ty.isConcrete_of_isGround (hs.isGround_returnType hb hty)⟩
  cases a with
  | method s this args span =>
    cases hs
    exact hsound (h.selected.sound trivial) (h.bindsAll trivial)
  | constructor s o isStaticView rest args span =>
    cases hs
    exact hsound (h.1.selected.sound trivial) (Bindings.bindsAll_complete_nil _)
  | _ => cases hs

end Activities

/-- At a valid moment no unbound parameter turns up. -/
theorem Moment.Valid.isConcrete {eng : Engine StandardFn} {p : Program}
    (h : ClassTable.build p .standard = .ok eng.table) {M : Moment StandardFn}
    (hM : M.Valid eng.table True) : M.IsConcrete eng := by
  obtain ⟨W, hm, ha⟩ := hM
  have hclasses : ∀ {V : World StandardFn} {m : Machine StandardFn},
      m.Valid eng.table True V → ∀ d, some d ∈ V → eng.table.Offers d :=
    fun hm d hd => (hm.classes d hd).offers
  have hpassed : ∀ {V : World StandardFn} {m : Machine StandardFn}, m.Valid eng.table True V →
      ∀ {v : Variable StandardFn}, v.Passed eng.table V → v.IsConcrete :=
    fun hm _ hv => Variable.isConcrete_of_value hv.cls hv.value (hclasses hm)
  have hperform := Activity.sustains_perform h M.depth ha M.machine hm
  refine ⟨fun v hv => hpassed hm (ha.passed v hv), fun o ho => ?_,
    fun s b hs => ha.isConcrete_invoked hs, hm.isConcrete, ?_, fun vs m' hok => ?_,
    fun e m' herror => ?_⟩
  · exact (hclasses hm _ (List.mem_of_getElem? (ha.objects o ho))).isConcrete
  · generalize M.activity.perform eng M.depth M.machine = r at hperform
    cases hperform with
    | ok _ hm' _ => exact hm'.isConcrete
    | error _ hm' _ => exact hm'.isConcrete
  · rw [hok] at hperform
    cases hperform with
    | ok _ hm' hvs => exact fun v hv => hpassed hm' (hvs v hv)
  · rw [herror] at hperform
    cases hperform with
    | error _ _ he => exact he trivial

/-! ## Runs -/

/--
An operation starts validly after any history that excludes objects of static views; a run does so
even if there are such objects, since they are out of its reach.
-/
theorem History.valid_operation {eng : Engine StandardFn} {p : Program} {strict : Prop}
    (h : ClassTable.build p .standard = .ok eng.table) {given : List (ObjectRef StandardFn)}
    {m : Machine StandardFn} (hist : History eng strict given m) {op : HostOperation StandardFn}
    (hop : op.Allowed eng.table strict given)
    (hrun : op = .run ∨ strict ∧ ∀ ty span, op = .classOf ty span → ty.isConcrete = true) :
    Moment.Valid eng.table True ⟨eng.budget, .operation op, m⟩ := by
  obtain ⟨W, -, hm, hgiven⟩ := hist.valid h
  rcases hrun with rfl | ⟨hstrict, hty⟩
  · exact ⟨W.outputs, hm.outputs h hist.scope_eq,
      ⟨[], fun _ ho => absurd ho List.not_mem_nil, trivial⟩, fun _ _ _ heq => nomatch heq⟩
  · cases eq_true hstrict
    exact ⟨W, hm, ⟨given, hgiven, hop⟩, fun _ ty span heq =>
      Option.isNone_iff_eq_none.mp (hty ty span heq)⟩

/--
No run meets an unbound parameter, whatever the host did before: none ends in that error, and none
turns up at any moment of the run. The same holds of everything else that the host does that makes
no objects of static views and asks for no class of an open type.
-/
theorem concrete_of_reaches {p : Program} {eng : Engine StandardFn} (hserves : eng.Serves p)
    {strict : Prop} {given : List (ObjectRef StandardFn)} {m : Machine StandardFn}
    (hist : History eng strict given m) {op : HostOperation StandardFn}
    (hop : op.Allowed eng.table strict given)
    (hrun : op = .run ∨ strict ∧ ∀ ty span, op = .classOf ty span → ty.isConcrete = true) :
    (∀ e m', op.perform eng m = .error (.error e) m' → e.fault.isUnboundGeneric = false) ∧
      ∀ M, Reaches eng ⟨eng.budget, .operation op, m⟩ M → M.IsConcrete eng := by
  have h := hserves.build
  have hstart := hist.valid_operation h hop hrun
  refine ⟨fun e m' herror => ?_, fun M hreach => (hreach.valid h hstart).isConcrete h⟩
  refine (hstart.isConcrete h).stop (.error e) m' ?_
  show EStateM.bind (op.perform eng) _ m = _
  unfold EStateM.bind
  rw [herror]

open Build in
/--
A generic class, and a generic method that is called with `null` and with a crate: the call with
`null` leaves its parameter open.
-/
def crateProgram : Program :=
  program
    [{ name := ident "Crate", generics := [ident "T"], fields := [field "T" "held"],
       constructors := [constructor [param "T" "x"] [assign "held" (var "x")]],
       methods := [method "get" (some "T") [] [returns (some (var "held"))]] },
     { name := ident "Main",
       methods :=
         [{ staticMethod "same" (some "U") [param "U" "x"] [returns (some (var "x"))] with
            generics := [ident "U"] },
          mainMethod
            [localVariable "Crate<String>" "c" (some (new "Crate<String>" [string "a"])),
             expr (call (var "Main") "same" [null]),
             expr (call (call (var "Main") "same" [var "c"]) "get" [])]] }]

theorem concrete_of_reaches_crate : ∃ eng, Engine.new crateProgram .standard = .ok eng ∧
    (∀ e m', HostOperation.run.perform eng {} = .error (.error e) m' →
      e.fault.isUnboundGeneric = false) ∧
    ∀ M, Reaches eng ⟨eng.budget, .operation .run, {}⟩ M → M.IsConcrete eng := by
  have h : (Engine.new crateProgram .standard).toBool = true := by decide +kernel
  obtain ⟨eng, hnew⟩ := exists_ok_of_toBool h
  exact ⟨eng, hnew, concrete_of_reaches ⟨eng, hnew, rfl⟩ (.fresh : History eng True [] {}) trivial
    (.inl rfl)⟩

end Middleweight
