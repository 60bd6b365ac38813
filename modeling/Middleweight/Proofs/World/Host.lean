import Middleweight.Proofs.World.Sustained

/-!
# Native functions sustain validity

A program of the host that asks only for what it may ask for is carried out without harm. The
functions of the standard library are such programs when they are called as members of their
classes: the functions of lists keep their items inside the receiver, which is then a list.

* `HostProgram.Sound` : programs that ask only for what they may
* `StandardFn.sound_perform` : the functions of the standard library
* `Engine.sustains_runHost`, `Engine.sustains_staticField` : carrying them out
-/

namespace Middleweight

variable {F α β : Type}

/-! ## Calls of other members -/

/-- A call of a method that can be resolved: its receiver is of the class, its types are ground. -/
structure IsCall (t : ClassTable F) (strict : Prop) (W : World F) (c : RuntimeClass F)
    (this : Value F) (isStatic : Bool) (args : List (Variable F)) (argTypes : List Ty) : Prop where
  cls : t.Offers c
  made : strict → t.Makes c ∨ isStatic = true
  valid : this.Valid t W
  receiver : ∀ o, this = .object o → o.cls = c
  args : ∀ v ∈ args, v.Passed t W
  argTypes : Ty.AllGround argTypes

/-- A construction that can be resolved. -/
structure IsConstruction (t : ClassTable F) (strict : Prop) (W : World F) (c : RuntimeClass F)
    (args : List (Variable F)) (argTypes : List Ty) : Prop where
  cls : t.Creates strict c
  args : ∀ v ∈ args, v.Passed t W
  argTypes : Ty.AllGround argTypes

/-- Calls of other members that sustain validity. -/
structure Calls.Sustained (eng : Engine F) (strict : Prop) (calls : Calls F) : Prop where
  dispatch : ∀ {W : World F} {c : RuntimeClass F} {this : Value F} {isStatic : Bool}
    {args : List (Variable F)} {argTypes : List Ty} (name : String) (span : Span),
    IsCall eng.table strict W c this isStatic args argTypes →
    eng.Sustains strict W (calls.dispatch c this name isStatic args argTypes span)
      fun V r => ∀ v, r = some v → v.Stored eng.table V
  construct : ∀ {W : World F} {c : RuntimeClass F} {args : List (Variable F)}
    {argTypes : List Ty} (span : Span), IsConstruction eng.table strict W c args argTypes →
    eng.Sustains strict W (calls.construct c args argTypes span) fun V o => o.In V ∧ o.cls = c

theorem allGround_declaredTypes {t : ClassTable F} {W : World F} {args : List (Variable F)}
    (h : ∀ v ∈ args, v.Passed t W) : Ty.AllGround (declaredTypes args) := by
  rw [Ty.allGround_iff]
  intro ty hty
  obtain ⟨v, hv, rfl⟩ := List.mem_map.mp hty
  exact (h v hv).cls.isGround

/-- A call of a static method by the name of its class. -/
theorem IsCall.ofView {t : ClassTable F} {strict : Prop} {W : World F} {view : RuntimeClass F}
    (hview : t.Shows view) {args : List (Variable F)} (hargs : ∀ v ∈ args, v.Passed t W) :
    IsCall t strict W view .null true args (declaredTypes args) where
  cls := .inr hview
  made _ := .inr rfl
  valid := trivial
  receiver _ ho := by cases ho
  args := hargs
  argTypes := allGround_declaredTypes hargs

/-! ## Programs of the host -/

/-- A program that asks for classes of ground types, and for objects that it has been given. -/
inductive HostProgram.Sound (t : ClassTable F) (strict : Prop) (Q : World F → α → Prop) :
    World F → HostProgram F α → Prop
  | done {W : World F} {a : α} : Q W a → Sound t strict Q W (.done a)
  | fail {W : World F} (fault : HostFault) : Sound t strict Q W (.fail fault)
  | write {W : World F} (text : String) {next : HostProgram F α} :
      (∀ V, W.Grows V → Sound t strict Q V next) → Sound t strict Q W (.write text next)
  | classOf {W : World F} {ty : Ty} {next : RuntimeClass F → HostProgram F α} : ty.IsGround →
      (∀ V c, W.Grows V → t.Makes c → c.asTy = ty → Sound t strict Q V (next c)) →
      Sound t strict Q W (.classOf ty next)
  | allocate {W : World F} {c : RuntimeClass F} {next : ObjectRef F → HostProgram F α} :
      t.Creates strict c →
      (∀ V o, W.Grows V → o.In V → o.cls = c → Sound t strict Q V (next o)) →
      Sound t strict Q W (.allocate c next)
  | construct {W : World F} {c : RuntimeClass F} {args : List (Variable F)}
      {next : ObjectRef F → HostProgram F α} :
      IsConstruction t strict W c args (declaredTypes args) →
      (∀ V o, W.Grows V → o.In V → o.cls = c → Sound t strict Q V (next o)) →
      Sound t strict Q W (.construct c args next)
  | getState {W : World F} {o : ObjectRef F} {next : Option (HostState F) → HostProgram F α} :
      o.In W →
      (∀ V s, W.Grows V → (∀ x, s = some x → x.Valid t V) → Sound t strict Q V (next s)) →
      Sound t strict Q W (.getState o next)
  | setState {W : World F} {o : ObjectRef F} {s : HostState F} {next : HostProgram F α} :
      o.In W → o.cls.IsList → s.Valid t W → (∀ V, W.Grows V → Sound t strict Q V next) →
      Sound t strict Q W (.setState o s next)
  | depth {W : World F} {next : Nat → HostProgram F α} :
      (∀ V n, W.Grows V → Sound t strict Q V (next n)) → Sound t strict Q W (.depth next)

namespace HostProgram.Sound

variable {t : ClassTable F} {strict : Prop} {Q : World F → α → Prop} {R : World F → β → Prop}
  {W : World F}

theorem bind {p : HostProgram F α} (h : p.Sound t strict Q W) {f : α → HostProgram F β}
    (hf : ∀ V a, W.Grows V → Q V a → (f a).Sound t strict R V) : (p >>= f).Sound t strict R W := by
  show (p.bind f).Sound t strict R W
  induction h with
  | done ha => exact hf _ _ (.refl _) ha
  | fail fault => exact .fail fault
  | write text _ ih =>
    exact .write text fun V hV => ih V hV fun U a hU => hf U a (hV.trans hU)
  | classOf hty _ ih =>
    exact .classOf hty fun V c hV hc hcty => ih V c hV hc hcty fun U a hU => hf U a (hV.trans hU)
  | allocate hc _ ih =>
    exact .allocate hc fun V o hV ho hcls => ih V o hV ho hcls fun U a hU => hf U a (hV.trans hU)
  | construct hc _ ih =>
    exact .construct hc fun V o hV ho hcls => ih V o hV ho hcls fun U a hU => hf U a (hV.trans hU)
  | getState ho _ ih =>
    exact .getState ho fun V s hV hs => ih V s hV hs fun U a hU => hf U a (hV.trans hU)
  | setState ho hlist hs _ ih =>
    exact .setState ho hlist hs fun V hV => ih V hV fun U a hU => hf U a (hV.trans hU)
  | depth _ ih => exact .depth fun V n hV => ih V n hV fun U a hU => hf U a (hV.trans hU)

/-- A program that makes nothing asks for nothing that it may not. -/
theorem of_plain {P : α → Prop} {p : HostProgram F α} (h : p.Plain P) (W : World F) :
    p.Sound t strict (fun _ a => P a) W := by
  induction h generalizing W with
  | done ha => exact .done ha
  | fail fault => exact .fail fault
  | write text _ ih => exact .write text fun V _ => ih V

end HostProgram.Sound

/-! ## The standard library -/

namespace StandardFn

/-- The functions of lists. -/
def onList : StandardFn → Bool
  | listNew | listAdd | listClear | listContains | listGet | listSize | listSet | listSubList
  | listRemove | listIsEmpty => true
  | _ => false

end StandardFn

/-- A call of a native function as a member of its class. -/
structure HostCall.Valid (t : ClassTable F) (strict : Prop) (W : World F) (f : StandardFn)
    (call : HostCall F) : Prop where
  this : call.this.Valid t W
  receiver : ∀ o, call.this = .object o → o.cls.Extends call.cls ∧ t.Creates strict call.cls
  args : ∀ v ∈ call.args, v.Passed t W
  list : f.onList = true → call.cls.name = Ty.listName

namespace HostCall.Valid

variable {t : ClassTable F} {strict : Prop} {W V : World F} {f : StandardFn} {call : HostCall F}

theorem mono (h : call.Valid t strict W f) (hW : W.Grows V) : call.Valid t strict V f :=
  ⟨h.this.mono hW, h.receiver, fun v hv => (h.args v hv).mono hW, h.list⟩

theorem arg (h : call.Valid t strict W f) (i : Nat) :
    (call.arg i).Sound t strict (fun V v => v.Passed t V) W := by
  unfold HostCall.arg
  split
  · next v hv => exact .done (h.args v (List.mem_of_getElem? hv))
  · exact .fail _

theorem receiverObject (h : call.Valid t strict W f) :
    call.receiver.Sound t strict
      (fun V o => o.In V ∧ o.cls.Extends call.cls ∧ t.Creates strict call.cls) W := by
  unfold HostCall.receiver
  split
  · next o ho =>
    have hthis := h.this
    rw [ho] at hthis
    exact .done ⟨hthis, h.receiver o ho⟩
  · exact .fail _

/-- The receiver is a list where the function is one of lists. -/
theorem isList (h : call.Valid t strict W f) (hf : f.onList = true) {c : RuntimeClass F}
    (hc : c.Extends call.cls) : c.IsList :=
  ⟨call.cls.own, hc.own_mem, h.list hf⟩

/-- The receiver and the items it keeps. -/
structure Keeps (t : ClassTable F) (strict : Prop) (W : World F) (call : HostCall F)
    (r : ObjectRef F × List (Variable F)) : Prop where
  object : r.1.In W
  isList : r.1.cls.IsList
  creates : t.Creates strict call.cls
  items : ∀ x ∈ r.2, x.Passed t W

theorem keptItems (h : call.Valid t strict W f) (hf : f.onList = true) :
    call.items.Sound t strict (fun V r => Keeps t strict V call r) W := by
  refine h.receiverObject.bind fun V o hV ho => .getState ho.1 fun U s hU hs => ?_
  split
  · next xs => exact .done ⟨ho.1.mono hU, h.isList hf ho.2.1, ho.2.2, hs _ rfl⟩
  · exact .fail _

end HostCall.Valid

namespace StandardFn

open HostProgram

variable {t : ClassTable F} {strict : Prop} {W : World F}

theorem passed_getElem? {xs : List (Variable F)} (h : ∀ x ∈ xs, x.Passed t W) {i : Nat}
    {x : Variable F} (hx : xs[i]? = some x) : x.value.Valid t W :=
  (h x (List.mem_of_getElem? hx)).value

/--
A function of the standard library, called as a member of its class, asks only for what it may.
-/
theorem sound_perform {f : StandardFn} {call : HostCall F} (h : call.Valid t strict W f) :
    (f.perform call).Sound t strict (fun V v => v.Valid t V) W := by
  cases f with
  | stringLength => exact (Sound.of_plain call.plain_thisStr W).bind fun _ _ _ _ => .done trivial
  | stringEquals =>
    refine (Sound.of_plain call.plain_thisStr W).bind fun V s hV _ => ?_
    refine (Sound.of_plain (call.plain_arg 0) V).bind fun U v _ _ => ?_
    split
    · exact .done trivial
    · exact .done trivial
  | integerToString =>
    exact (Sound.of_plain (call.plain_intArg 0) W).bind fun _ _ _ _ => .done trivial
  | integerParse =>
    refine (Sound.of_plain (call.plain_strArg 0) W).bind fun V text _ _ => ?_
    split
    · exact .done trivial
    · exact .fail _
  | floatToString =>
    exact (Sound.of_plain (call.plain_floatArg 0) W).bind fun _ _ _ _ => .done trivial
  | floatParse =>
    refine (Sound.of_plain (call.plain_strArg 0) W).bind fun V text _ _ => ?_
    split
    · exact .done trivial
    · exact .fail _
  | booleanToString =>
    exact (Sound.of_plain (call.plain_boolArg 0) W).bind fun _ _ _ _ => .done trivial
  | systemOut =>
    refine .classOf (Ty.isGround_cls.mpr Ty.allGround_nil) fun V c _ hc _ => ?_
    refine .construct ⟨.inl hc, fun _ hv => absurd hv List.not_mem_nil, Ty.allGround_nil⟩
      fun U o _ ho _ => .done ho
  | print =>
    refine (Sound.of_plain (call.plain_strArg 0) W).bind fun V text _ _ => ?_
    exact .write text fun _ _ => .done trivial
  | println =>
    refine (Sound.of_plain (call.plain_strArg 0) W).bind fun V text _ _ => ?_
    exact .write _ fun _ _ => .done trivial
  | newline => exact .write _ fun _ _ => .done trivial
  | listNew =>
    refine Sound.bind (Q := fun _ _ => True) ?_ fun _ _ _ _ => .done trivial
    refine h.receiverObject.bind fun V o _ ho => ?_
    exact .setState ho.1 (h.isList rfl ho.2.1) (fun _ hx => absurd hx List.not_mem_nil)
      fun _ _ => .done trivial
  | listAdd =>
    refine (h.arg 0).bind fun V x hV hx => ?_
    refine ((h.mono hV).keptItems rfl).bind fun U r hU hr => ?_
    refine .setState hr.object hr.isList (fun y hy => ?_) fun _ _ => .done trivial
    rcases List.mem_append.mp hy with hy | hy
    · exact hr.items y hy
    · rw [List.mem_singleton.mp hy]
      exact hx.mono hU
  | listClear =>
    refine (h.keptItems rfl).bind fun V r _ hr => ?_
    exact .setState hr.object hr.isList (fun _ hx => absurd hx List.not_mem_nil)
      fun _ _ => .done trivial
  | listContains =>
    refine (h.arg 0).bind fun V x hV _ => ?_
    exact ((h.mono hV).keptItems rfl).bind fun U r _ _ => .done trivial
  | listGet =>
    refine (Sound.of_plain (call.plain_intArg 0) W).bind fun V n hV _ => ?_
    refine ((h.mono hV).keptItems rfl).bind fun U r _ hr => ?_
    dsimp only
    split
    · next x hx =>
      obtain ⟨i, -, hx⟩ := Option.bind_eq_some_iff.mp hx
      exact .done (passed_getElem? hr.items hx)
    · exact .fail _
  | listSize => exact (h.keptItems rfl).bind fun _ _ _ _ => .done trivial
  | listSet =>
    refine (Sound.of_plain (call.plain_intArg 0) W).bind fun V n hV _ => ?_
    refine ((h.mono hV).arg 1).bind fun V₁ y hV₁ hy => ?_
    refine (((h.mono hV).mono hV₁).keptItems rfl).bind fun U r hU hr => ?_
    dsimp only
    split
    · split
      · next x hx =>
        refine .setState hr.object hr.isList (fun z hz => ?_) fun T hT =>
          .done ((passed_getElem? hr.items hx).mono hT)
        rcases List.mem_or_eq_of_mem_set hz with hz | rfl
        · exact hr.items z hz
        · exact hy.mono hU
      · exact .fail _
    · exact .fail _
  | listSubList =>
    refine (Sound.of_plain (call.plain_intArg 0) W).bind fun V n hV _ => ?_
    refine (Sound.of_plain (call.plain_intArg 1) V).bind fun V₁ k hV₁ _ => ?_
    have h₁ := (h.mono hV).mono hV₁
    refine (h₁.keptItems rfl).bind fun U r _ hr => ?_
    dsimp only
    split
    · refine .allocate hr.creates fun T o hT ho hcls => ?_
      refine .setState ho ?_ (fun x hx => ?_) fun _ hle => .done (ho.mono hle)
      · rw [hcls]
        exact h.isList rfl (.refl _)
      · exact (hr.items x (List.mem_of_mem_take (List.mem_of_mem_drop hx))).mono hT
    · exact .fail _
  | listRemove =>
    refine (Sound.of_plain (call.plain_intArg 0) W).bind fun V n hV _ => ?_
    refine ((h.mono hV).keptItems rfl).bind fun U r _ hr => ?_
    dsimp only
    split
    · split
      · next x hx =>
        refine .setState hr.object hr.isList (fun z hz => ?_) fun T hT =>
          .done ((passed_getElem? hr.items hx).mono hT)
        exact hr.items z (List.mem_of_mem_eraseIdx hz)
      · exact .fail _
    · exact .fail _
  | listIsEmpty => exact (h.keptItems rfl).bind fun _ _ _ _ => .done trivial

/-- The standard output is an object of its class. -/
theorem sound_systemOut (call : HostCall F) :
    (systemOut.perform call).Sound t strict (fun V v => ∃ o : ObjectRef F, v = .object o ∧ o.In V ∧
      t.Instantiates ⟨Ty.printStreamName, []⟩ o.cls) W := by
  refine .classOf (Ty.isGround_cls.mpr Ty.allGround_nil) fun V c _ hc hty => ?_
  refine .construct ⟨.inl hc, fun _ hv => absurd hv List.not_mem_nil, Ty.allGround_nil⟩
    fun U o _ ho hcls => .done ⟨o, rfl, ho, ?_⟩
  rw [hcls]
  exact hc.instantiates_of_asTy hty

end StandardFn

/-! ## Native members -/

namespace ClassTable

variable {t : ClassTable StandardFn} {p : Program} (h : build p .standard = .ok t)

include h

/-- A native member of a class is one of a class of the library. -/
theorem exists_native_member {name : String} {tm : Template StandardFn}
    (hget : t.get? name = some tm) {m : Member StandardFn}
    (hm : m ∈ tm.methods ∨ m ∈ tm.constructors) {f : StandardFn} (hbody : m.body = .native f) :
    ∃ n ∈ NativeRegistry.standard.classes, n.fullName = name ∧
      ∃ k ∈ n.methods ++ n.constructors, m = .ofNative n.fullName k := by
  have hname := get?_name hget
  rcases mem_classes_cases h (get?_mem hget) with ⟨q, rfl⟩ | ⟨n, hn, hmade⟩ | ⟨d, -, hmade⟩
  · rcases hm with hm | hm <;> cases hm
  · cases nativeTemplate_standard hn hmade
    refine ⟨n, hn, hname, ?_⟩
    rcases hm with hm | hm
    · obtain ⟨k, hk, rfl⟩ := List.mem_map.mp hm
      exact ⟨k, List.mem_append_left _ hk, rfl⟩
    · obtain ⟨k, hk, rfl⟩ := List.mem_map.mp hm
      exact ⟨k, List.mem_append_right _ hk, rfl⟩
  · obtain ⟨base, fields, -, -, rfl⟩ := declaredTemplate_ok hmade
    rcases hm with hm | hm
    · obtain ⟨d', -, rfl⟩ := List.mem_map.mp hm
      cases hbody
    · obtain ⟨d', -, rfl⟩ := List.mem_map.mp hm
      cases hbody

/-- The functions of lists are members of the class of lists only. -/
theorem name_of_onList {name : String} {tm : Template StandardFn} (hget : t.get? name = some tm)
    {m : Member StandardFn} (hm : m ∈ tm.methods ∨ m ∈ tm.constructors) {f : StandardFn}
    (hbody : m.body = .native f) (hf : f.onList = true) : name = Ty.listName := by
  have hlist : ∀ n ∈ NativeRegistry.standard.classes, ∀ k ∈ n.methods ++ n.constructors,
      k.function.onList = true → n.fullName = Ty.listName := by decide +kernel
  obtain ⟨n, hn, rfl, k, hk, rfl⟩ := exists_native_member h hget hm hbody
  cases hbody
  exact hlist n hn k hk hf

/-- A native class extends nothing but the root class, and neither has fields. -/
theorem layers_native {n : NativeClass StandardFn} (hn : n ∈ NativeRegistry.standard.classes)
    {key : ClassTy} {c : RuntimeClass StandardFn} (hc : t.Instantiates key c)
    (hkey : key.name = n.fullName) : ∀ l ∈ c.layers, l.fields = [] ∧
      ∃ k ∈ NativeRegistry.standard.classes, l.ty.name = k.fullName ∧ l.template = k.template ∧
        (k = n ∨ k.fullName = Ty.objectName) := by
  have hroot : ∃ r ∈ NativeRegistry.standard.classes, r.fullName = Ty.objectName :=
    NativeRegistry.exists_named (by decide)
  have hget : ∀ {tm : Template StandardFn}, t.get? key.name = some tm → tm = n.template := by
    intro tm htm
    rw [hkey, get?_standard h hn] at htm
    exact (Option.some.inj htm).symm
  cases hc with
  | root _ hg _ _ =>
    intro l hl
    cases List.mem_singleton.mp hl
    cases hget hg
    exact ⟨rfl, n, hn, hkey, rfl, .inl rfl⟩
  | derived _ hg _ hbase hb =>
    cases hget hg
    cases NativeClass.base_template hbase
    intro l hl
    rcases List.mem_cons.mp hl with rfl | hl
    · exact ⟨rfl, n, hn, hkey, rfl, .inl rfl⟩
    · obtain ⟨r, hr, hname⟩ := hroot
      have hobject := get?_standard h hr
      rw [hname] at hobject
      cases hb with
      | root _ hg' _ _ =>
        rw [show (NativeClass.template n).baseKey ⟨Ty.objectName, []⟩ key.args =
          ⟨Ty.objectName, []⟩ from rfl] at hg'
        cases hobject.symm.trans hg'
        cases List.mem_singleton.mp hl
        exact ⟨rfl, r, hr, hname.symm, rfl, .inr hname⟩
      | derived _ hg' _ hbase' _ =>
        cases hobject.symm.trans hg'
        simp [NativeClass.template, hname] at hbase'

/-- The standard output has no fields and no constructors, and it is no list. -/
theorem layers_printStream {c : RuntimeClass StandardFn}
    (hc : t.Instantiates ⟨Ty.printStreamName, []⟩ c) : ∀ l ∈ c.layers, l.fields = [] ∧
      l.template.constructors = [] ∧ l.ty.name ≠ Ty.listName := by
  have hnative : ∃ n ∈ NativeRegistry.standard.classes, n.fullName = Ty.printStreamName :=
    NativeRegistry.exists_named (by decide)
  have hplain : ∀ k ∈ NativeRegistry.standard.classes,
      k.fullName = Ty.printStreamName ∨ k.fullName = Ty.objectName →
      k.constructors.isEmpty = true ∧ k.fullName ≠ Ty.listName := by decide +kernel
  obtain ⟨n, hn, hname⟩ := hnative
  intro l hl
  obtain ⟨hfields, k, hk, hty, htemplate, hkn⟩ := layers_native h hn hc hname.symm l hl
  obtain ⟨hconstructors, hlist⟩ := hplain k hk (hkn.imp_left fun heq => by rw [heq, hname])
  refine ⟨hfields, ?_, hty ▸ hlist⟩
  rw [htemplate, NativeClass.template, List.isEmpty_iff.mp hconstructors]
  rfl

theorem allFields_printStream {c : RuntimeClass StandardFn}
    (hc : t.Instantiates ⟨Ty.printStreamName, []⟩ c) : c.allFields = [] :=
  List.flatMap_eq_nil_iff.mpr fun l hl => (layers_printStream h hc l hl).1

/-- The standard output keeps nothing. -/
theorem fieldless_printStream {c : RuntimeClass StandardFn}
    (hc : t.Instantiates ⟨Ty.printStreamName, []⟩ c) : c.slots = [] ∧ ¬ c.IsList := by
  constructor
  · rw [RuntimeClass.slots, allFields_printStream h hc]
    rfl
  · rintro ⟨l, hl, hlist⟩
    exact (layers_printStream h hc l hl).2.2 hlist

/-- The only static field is the standard output. -/
theorem staticField_standard {name : String} {tm : Template StandardFn}
    (hget : t.get? name = some tm) {n : NativeClass StandardFn} (hn : tm.native? = some n)
    {field : NativeField StandardFn} (hfield : field ∈ n.staticFields) :
    name = "java.lang.System" ∧ field.name = "out" ∧ field.init = .systemOut ∧
      t.lower [] field.ty = .ok (.named Ty.printStreamName) := by
  have hout : ∀ n ∈ NativeRegistry.standard.classes, ∀ f ∈ n.staticFields,
      n.fullName = "java.lang.System" ∧ f.name = "out" ∧ f.init = .systemOut ∧
      f.ty.name = Kind.printStream.typeName ∧ f.ty.generics.isEmpty = true := by decide +kernel
  have hname := get?_name hget
  rcases mem_classes_cases h (get?_mem hget) with ⟨q, rfl⟩ | ⟨n', hn', hmade⟩ | ⟨d, -, hmade⟩
  · cases hn
  · cases nativeTemplate_standard hn' hmade
    cases hn
    obtain ⟨hsystem, hfname, hinit, htyname, hgenerics⟩ := hout _ hn' field hfield
    rw [← hname]
    exact ⟨hsystem, hfname, hinit, lower_kind h htyname (List.isEmpty_iff.mp hgenerics)⟩
  · obtain ⟨base, fields, -, -, rfl⟩ := declaredTemplate_ok hmade
    cases hn

end ClassTable

namespace Engine

/-- A static field belongs to a class or to one of its bases. -/
theorem staticFieldOwner?_eq_some {c owner : RuntimeClass F} {name : String}
    {field : NativeField F} : ∀ {ls : List (Layer F)} {d : RuntimeClass F}, d.layers = ls →
    d.isStaticView = c.isStaticView → staticFieldOwner? c name ls = some (owner, field) →
    d.Extends owner ∧ ∃ n, owner.own.template.native? = some n ∧ field ∈ n.staticFields := by
  intro ls
  induction ls with
  | nil => exact fun _ _ h => nomatch h
  | cons l rest ih =>
    intro d hlayers hview h
    cases hlayers
    rw [staticFieldOwner?] at h
    split at h
    · next f hf =>
      cases h
      obtain ⟨n, hn, hf⟩ := Option.bind_eq_some_iff.mp hf
      rw [← hview]
      exact ⟨.refl d, n, hn, List.mem_of_find?_eq_some hf⟩
    · cases hancestors : d.ancestors with
      | nil =>
        rw [hancestors] at h
        cases h
      | cons l' rest' =>
        have hbase : d.base? = some ⟨d.isStaticView, l', rest'⟩ := by
          unfold RuntimeClass.base?
          rw [hancestors]
        obtain ⟨hext, hfield⟩ := ih (d := ⟨d.isStaticView, l', rest'⟩) hancestors.symm hview h
        exact ⟨.base hbase hext, hfield⟩

/-! ## Carrying programs of the host out -/

variable {eng : Engine F} {strict : Prop} {W : World F} {calls : Calls F}

theorem sustains_runHost (ht : eng.table.Closed) (hcalls : calls.Sustained eng strict)
    {Q : World F → α → Prop} (span : Span) {p : HostProgram F α}
    (h : p.Sound eng.table strict Q W) :
    eng.Sustains strict W (eng.runHost calls span p) Q := by
  induction h with
  | done ha => exact .pure ha
  | fail fault =>
    cases fault with
    | message text => exact .invalid _ span
    | nullDereference member => exact .raise span fun _ => rfl
  | write text _ ih =>
    refine (sustains_write text).bind fun V e hV _ => ?_
    cases e with
    | none => exact ih V hV
    | some e => exact .invalid _ span
  | classOf hty _ ih =>
    refine (sustains_classOf ht (fun _ => Ty.firstUnbound?_of_isGround hty) span).bind
      fun V c hV hc => ih V c hV hc.1 ?_
    rw [hc.2, Ty.resolved_of_isGround hty]
  | allocate hc _ ih =>
    exact (sustains_allocate ht hc span).bind fun V o hV ho => ih V o hV ho.1 ho.2
  | construct hc _ ih => exact (hcalls.construct span hc).bind fun V o hV ho => ih V o hV ho.1 ho.2
  | getState ho _ ih =>
    refine (sustains_contents ho).bind fun V i hV hi => ih V _ hV ?_
    obtain ⟨x, rfl, hx⟩ := hi
    exact fun s hs => (hx.host s hs).1
  | setState ho hlist hs _ ih =>
    exact (sustains_modifyContents ho fun i hi => hi.setHost hlist hs).bind fun V _ hV _ => ih V hV
  | depth _ ih => exact Sustains.read.bind fun V m hV _ => ih V _ hV

end Engine

namespace Engine

variable {eng : Engine StandardFn} {strict : Prop} {W : World StandardFn} {calls : Calls StandardFn}
  {p : Program} (h : ClassTable.build p .standard = .ok eng.table)

include h

theorem sustains_callHost (hcalls : calls.Sustained eng strict) {f : StandardFn}
    {call : HostCall StandardFn} (hcall : call.Valid eng.table strict W f) :
    eng.Sustains strict W (eng.callHost calls f call) fun V v => v.Valid eng.table V :=
  sustains_runHost (ClassTable.closed_of_build h) hcalls call.span (StandardFn.sound_perform hcall)

/-- The static fields of a class and of its bases. -/
theorem sustains_staticField (hcalls : calls.Sustained eng strict) {c : RuntimeClass StandardFn}
    (hc : eng.table.Offers c) (name : String) (span : Span) :
    eng.Sustains strict W (eng.staticField calls c name span)
      fun V v => v.Stored eng.table V := by
  have ht := ClassTable.closed_of_build h
  cases howner : staticFieldOwner? c name c.layers with
  | none =>
    rw [staticField_of_none _ _ howner]
    exact .raise span fun _ => rfl
  | some r =>
    obtain ⟨owner, field⟩ := r
    obtain ⟨hext, n, hn, hfield⟩ := staticFieldOwner?_eq_some rfl rfl howner
    obtain ⟨hsystem, hfname, hinit, hlower⟩ :=
      ClassTable.staticField_standard h (hc.extends hext).get? hn hfield
    rw [staticField_eq _ _ howner]
    refine Sustains.read.bind fun V m _ hm => ?_
    cases hread : m.statics.lookup (owner.name, field.name) with
    | some v =>
      have hv := hm.statics _ (mem_of_lookup hread)
      obtain ⟨o, hvalue, ho, -⟩ := hv.value
      refine .pure ⟨⟨_, hv.cls⟩, ?_⟩
      show Value.Valid eng.table V v.value
      rw [hvalue]
      exact ho
    | none =>
      unfold staticOr initStatic
      rw [hlower]
      have hground : (Ty.named Ty.printStreamName).IsGround :=
        Ty.isGround_cls.mpr Ty.allGround_nil
      refine (sustains_classOf ht (fun _ => Ty.firstUnbound?_of_isGround hground) span).bind
        fun U cls _ hcls => ?_
      rw [Ty.resolved_of_isGround hground] at hcls
      have hcls := hcls.1.instantiates_of_asTy hcls.2
      rw [hinit]
      refine (sustains_runHost ht hcalls span (StandardFn.sound_systemOut _)).bind
        fun U' value _ hvalue => ?_
      obtain ⟨o, rfl, ho, hocls⟩ := hvalue
      have hentry : IsOutput eng.table U' ((owner.name, field.name), ⟨cls, .object o⟩) :=
        ⟨by rw [hfname, ← hsystem], hcls, o, rfl, ho, hocls.unique hcls⟩
      exact (Sustains.change fun m hm => hm.withStatic hentry).bind
        fun T _ hT _ => .pure ⟨⟨_, hcls⟩, ho.mono hT⟩

end Engine

end Middleweight
