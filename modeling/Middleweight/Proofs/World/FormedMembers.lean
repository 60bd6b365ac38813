import Middleweight.Proofs.World.FormedBodies

/-!
# Members keep machines formed

A method may be called with a class for an argument, even if the class is generic and its bare name
is no formed type. If the type of the parameter is a parameter of the method itself, that parameter
would stand for the bare name in the body. But such a call does not get as far as the body, since
the parameter cannot be declared without a class. Hence all that a body sees is formed.

* `IsFormedInvocation.binds_of_ok` : the parameters of a method once its arguments are bound
* `Engine.forms_invoke`, `Engine.forms_runConstructors` : methods and constructors
* `Calls.formed_atDepth` : calls at every depth
-/

namespace Middleweight

/-! ## Chosen members -/

/-- A member that is chosen from a class whose members can be called. -/
structure Selected.Formed {F : Type} (t : ClassTable F) (s : Selected F (RuntimeClass F)) :
    Prop where
  serves : t.Serves s.member.isStatic s.owner
  member : s.member ∈ s.owner.own.template.methods ∨
    s.member ∈ s.owner.own.template.constructors
  signature : t.signature s.member s.owner.params = .ok s.signature

namespace Selected.Formed

variable {F : Type} {t : ClassTable F} {s : Selected F (RuntimeClass F)} (h : s.Formed t)

include h

/-- What the types of a chosen member are written in: its own parameters stand for themselves. -/
theorem formed_memberParams : (ClassTable.memberParams s.member s.owner.params).Formed t.arity?
    s.signature.generics := by
  rw [(ClassTable.signature_ok h.signature).2.2]
  refine .pushUnbound ?_ (List.Subset.refl _)
  split
  · exact .nil
  · next hinstance =>
    cases h.serves with
    | made hmade hformed => exact ClassTable.Admits.formed_params ⟨hmade, hformed⟩ _
    | shown _ hstatic => exact absurd hstatic hinstance

theorem formed_param {q : Param} (hq : q ∈ s.signature.params) :
    q.ty.resolved.Formed t.arity? s.signature.generics := by
  obtain ⟨e, -, -, hlower⟩ :=
    exists_of_forall₂_mem (ClassTable.signature_lowers h.signature).1 hq
  exact LoweringContext.formed_resolved_lower h.formed_memberParams hlower

theorem formed_returnType {ty : Ty} (hty : s.signature.returnType = some ty) :
    ty.resolved.Formed t.arity? s.signature.generics := by
  rcases rel_elim (ClassTable.signature_lowers h.signature).2 with
    ⟨-, hnone⟩ | ⟨e, ty', -, hsome, hlower⟩
  · cases hnone.symm.trans hty
  · cases hsome.symm.trans hty
    exact LoweringContext.formed_resolved_lower h.formed_memberParams hlower

/-- The types of the parameters of a chosen member, once its own parameters are bound. -/
theorem argumentType_param {b : Bindings} (hb : Ty.BindsFormed t.arity? b s.signature.generics)
    {q : Param} (hq : q ∈ s.signature.params) : t.ArgumentType (q.ty.substitute b).resolved :=
  .inl ((h.formed_param hq).resolved_substitute hb)

end Selected.Formed

namespace ClassTable

variable {t : ClassTable StandardFn} {p : Program}

/-- Native members have no parameters of their own. -/
theorem generics_of_native (h : build p .standard = .ok t) {name : String}
    {tm : Template StandardFn} (hget : t.get? name = some tm) {m : Member StandardFn}
    (hm : m ∈ tm.methods ∨ m ∈ tm.constructors) {f : StandardFn} (hbody : m.body = .native f) :
    m.generics = [] := by
  obtain ⟨n, -, -, k, -, rfl⟩ := exists_native_member h hget hm hbody
  rfl

/-- The root class is one without parameters. -/
theorem formed_object (h : build p .standard = .ok t) : Ty.object.Formed t.arity? [] := by
  obtain ⟨c, hc, hg, -⟩ := get?_object h
  exact Program.WellTyped.formed_named hc hg

end ClassTable

/-- The parameters that the body of a method sees stand for what they are bound to. -/
theorem Signature.formed_boundGenerics {arity : String → Option Nat} {s : Signature} {b : Bindings}
    (hb : Ty.BindsFormed arity b s.generics) : (s.boundGenerics b).Formed arity [] := by
  intro e he
  obtain ⟨g, hg, rfl⟩ := List.mem_map.mp (List.mem_reverse.mp he)
  obtain ⟨u, hu, hformed⟩ := hb g hg
  rw [hu, Ty.resolved, Option.getD_some, Ty.resolved_resolved,
    Ty.resolved_of_isGround hformed.isGround]
  exact hformed

/-! ## Invocations -/

/--
A chosen method with what it is called with. Its parameters are bound to formed types, if there are
classes for the types of its arguments.
-/
structure IsFormedInvocation {F : Type} (t : ClassTable F) (s : Selected F (RuntimeClass F))
    (this : Value F) (args : List (Variable F)) : Prop where
  selected : s.Formed t
  value : this.Formed t
  receiver : ∀ o, this = .object o → t.Admits s.owner
  length : s.signature.params.length = args.length
  args : ∀ v ∈ args, v.Formed t
  binds : (∀ q ∈ s.signature.params, ∃ span c,
      t.classFor (q.ty.substitute (s.bindings.complete s.signature)) span = .ok c) →
    Ty.BindsFormed t.arity? (s.bindings.complete s.signature) s.signature.generics

/-- A chosen constructor with the object that it runs on. -/
structure IsFormedInitialization {F : Type} (t : ClassTable F) (s : Selected F (RuntimeClass F))
    (o : ObjectRef F) (args : List (Variable F)) : Prop where
  selected : s.Formed t
  object : t.Admits o.cls
  owner : t.Admits s.owner
  args : ∀ v ∈ args, v.Formed t

theorem IsFormedCall.invocation {t : ClassTable StandardFn} {c : RuntimeClass StandardFn}
    {this : Value StandardFn} {isStatic : Bool} {args : List (Variable StandardFn)}
    {argTypes : List Ty} (h : IsFormedCall t c this isStatic args argTypes) {p : Program}
    (hbuild : ClassTable.build p .standard = .ok t) {name : String}
    {s : Selected StandardFn (RuntimeClass StandardFn)}
    (hs : t.runtimeMembers.resolveMethod t c name isStatic argTypes = .ok (.found s)) :
    IsFormedInvocation t s this args := by
  have ht := ClassTable.complete_of_build hbuild
  obtain ⟨hmem, hsig, happ⟩ := ClassTable.method_of_found hs
  obtain ⟨hmethod, hstatic⟩ := Template.mem_methodsNamed hmem
  have hext := ClassTable.extends_of_found hs
  refine ⟨⟨hstatic ▸ h.serves.extends ht hext, .inl hmethod, hsig⟩, h.value,
    fun o ho => (h.receiver o ho).extends ht hext, ?_, h.arguments.formed, ?_⟩
  · rw [ClassTable.length_params_of_applicable happ, h.arguments.length]
  · exact ClassTable.bindsFormed_of_classes (ClassTable.formed_object hbuild) h.arguments.types happ

theorem ClassTable.Admits.initialization {t : ClassTable StandardFn} {c : RuntimeClass StandardFn}
    (hc : t.Admits c) {o : ObjectRef StandardFn} (ho : t.Admits o.cls)
    {args : List (Variable StandardFn)} (hargs : ∀ v ∈ args, v.Formed t) {argTypes : List Ty}
    {s : Selected StandardFn (RuntimeClass StandardFn)}
    (hs : t.runtimeMembers.resolveConstructor t c argTypes = .ok (.found s)) :
    IsFormedInitialization t s o args := by
  obtain ⟨rfl, hm, hsig⟩ := ClassTable.constructor_of_found hs
  rw [RuntimeClass.constructors, hc.made.isStaticView_eq, if_neg Bool.false_ne_true] at hm
  exact ⟨⟨hc.serves _, .inr hm, hsig⟩, ho, hc, hargs⟩

namespace IsFormedInitialization

variable {t : ClassTable StandardFn} {s : Selected StandardFn (RuntimeClass StandardFn)}
  {o : ObjectRef StandardFn} {args : List (Variable StandardFn)}
  (h : IsFormedInitialization t s o args)

include h

/-- The scope in which the body of a constructor starts. -/
theorem scope : (Scope.invocation (.instance o s.owner) []).Formed t := by
  have hcontext : Context.Formed t (.instance o s.owner) := ⟨h.object, h.owner⟩
  exact .invocation hcontext .nil

theorem hostCall (span : Span) : HostCall.Formed t ⟨s.owner, .object o, args, span⟩ :=
  ⟨fun _ _ => h.owner, h.args⟩

/-- Whatever is generic in a constructor stands for the root class. -/
theorem argumentType_param (hobject : Ty.object.Formed t.arity? []) {q : Param}
    (hq : q ∈ s.signature.params) :
    t.ArgumentType (q.ty.substitute (Bindings.complete [] s.signature)).resolved := by
  have hnil : ∀ n u, List.lookup n ([] : Bindings) = some u → u.Formed t.arity? [] :=
    fun _ _ hu => by cases hu
  exact h.selected.argumentType_param (ClassTable.bindsFormed_complete hobject hnil) hq

end IsFormedInitialization

namespace IsFormedInvocation

variable {t : ClassTable StandardFn} {s : Selected StandardFn (RuntimeClass StandardFn)}
  {this : Value StandardFn} {args : List (Variable StandardFn)}
  (h : IsFormedInvocation t s this args)

include h

/-- The scope in which the body of a method starts. -/
theorem scope
    (hb : Ty.BindsFormed t.arity? (s.bindings.complete s.signature) s.signature.generics) :
    (Scope.invocation (Engine.bodyContext s.owner this)
      (s.signature.boundGenerics (s.bindings.complete s.signature))).Formed t := by
  refine .invocation ?_ (Signature.formed_boundGenerics hb)
  have hvalue := h.value
  cases this with
  | object o => exact ⟨hvalue, h.receiver o rfl⟩
  | _ => trivial

theorem hostCall (span : Span) : HostCall.Formed t ⟨s.owner, this, args, span⟩ :=
  ⟨h.receiver, h.args⟩

end IsFormedInvocation

/-! ## Binding parameters -/

/-- A new local does not concern what a machine remembers. -/
theorem Machine.Remembers.define {F : Type} {t : ClassTable F} {m : Machine F}
    (h : m.Remembers t) (name : String) (v : Variable F) :
    Machine.Remembers t { m with scope := m.scope.define name v } where
  registry := h.registry
  caches l hl := by
    rcases List.mem_cons.mp hl with rfl | hl
    · exact h.current
    · exact h.caches l (List.mem_cons_of_mem _ hl)

/-- A scope of its own has nothing cached yet. -/
theorem Machine.Remembers.invocation {F : Type} {t : ClassTable F} {m : Machine F}
    (h : m.Remembers t) (context : Context F) (generics : TypeParams) :
    Machine.Remembers t { m with scope := .invocation context generics } where
  registry := h.registry
  caches l hl := by
    cases List.mem_singleton.mp hl
    exact .empty

namespace Engine

variable {eng : Engine StandardFn}

/-- Where parameters have been declared with arguments, their types have classes. -/
theorem classes_of_bindParameters {bindings : Bindings} {span : Span} : ∀ {ps : List Param}
    {vs : List (Variable StandardFn)} {m m' : Machine StandardFn}, m.Remembers eng.table →
    ps.length = vs.length → eng.bindParameters bindings span ps vs m = .ok () m' →
    ∀ q ∈ ps, ∃ c, eng.table.classFor (q.ty.substitute bindings) span = .ok c := by
  intro ps
  induction ps with
  | nil => exact fun _ _ _ _ hq => absurd hq List.not_mem_nil
  | cons q ps ih =>
    intro vs m m' hm hlength hok
    cases vs with
    | nil => cases hlength
    | cons v vs =>
      rw [bindParameters] at hok
      obtain ⟨c, m₁, hclass, hok⟩ := EvalM.ok_of_bind hok
      obtain ⟨r, hr, heq⟩ := classOf_eq hm (q.ty.substitute bindings) span
      rw [heq] at hclass
      cases hfor : eng.table.classFor (q.ty.substitute bindings) span with
      | error e =>
        rw [hfor] at hclass
        cases hclass
      | ok d =>
        rw [hfor] at hclass
        cases hclass
        obtain ⟨_, m₂, hdefine, hok⟩ := EvalM.ok_of_bind hok
        cases hdefine
        have hmemory := (hm.withMemory hr hm.current).define q.name ⟨c, v.value⟩
        exact List.forall_mem_cons.mpr ⟨⟨c, hfor⟩, ih hmemory (Nat.succ.inj hlength) hok⟩

theorem forms_bindParameters {bindings : Bindings} (span : Span) : ∀ {ps : List Param}
    {vs : List (Variable StandardFn)},
    (∀ q ∈ ps, eng.table.ArgumentType (q.ty.substitute bindings).resolved) →
    (∀ v ∈ vs, v.Formed eng.table) →
    eng.Forms (eng.bindParameters bindings span ps vs) fun _ => True := by
  intro ps
  induction ps with
  | nil =>
    intro vs _ _
    rw [bindParameters]
    · exact .pure trivial
    · simp
  | cons q ps ih =>
    intro vs hps hvs
    cases vs with
    | nil =>
      rw [bindParameters]
      · exact .pure trivial
      · simp
    | cons v vs =>
      obtain ⟨hq, hps⟩ := List.forall_mem_cons.mp hps
      obtain ⟨hv, hvs⟩ := List.forall_mem_cons.mp hvs
      rw [bindParameters]
      refine (forms_classOf hq span).bind fun c hc => ?_
      have hplaced : Variable.Placed eng.table ⟨c, v.value⟩ := ⟨hc.1, hv.value⟩
      exact (Forms.modifyScope fun _ hs => hs.define q.name hplaced).bind fun _ _ => ih hps hvs

end Engine

/-- Once the arguments of a method are bound, its parameters are bound to formed types. -/
theorem IsFormedInvocation.binds_of_ok {eng : Engine StandardFn}
    {s : Selected StandardFn (RuntimeClass StandardFn)} {this : Value StandardFn}
    {args : List (Variable StandardFn)} (h : IsFormedInvocation eng.table s this args)
    {m m' : Machine StandardFn} (hm : m.Remembers eng.table) {span : Span}
    (hok : eng.bindParameters (s.bindings.complete s.signature) span s.signature.params args m =
      .ok () m') :
    Ty.BindsFormed eng.table.arity? (s.bindings.complete s.signature) s.signature.generics :=
  h.binds fun q hq => ⟨span, Engine.classes_of_bindParameters hm h.length hok q hq⟩

/-- A native method has no parameters to bind. -/
theorem IsFormedInvocation.binds_native {t : ClassTable StandardFn}
    {s : Selected StandardFn (RuntimeClass StandardFn)} {this : Value StandardFn}
    {args : List (Variable StandardFn)} (h : IsFormedInvocation t s this args) {p : Program}
    (hbuild : ClassTable.build p .standard = .ok t) {f : StandardFn}
    (hbody : s.member.body = .native f) :
    Ty.BindsFormed t.arity? (s.bindings.complete s.signature) s.signature.generics := by
  rw [(ClassTable.signature_ok h.selected.signature).2.2,
    ClassTable.generics_of_native hbuild h.selected.serves.offers.get? h.selected.member hbody]
  exact fun _ hn => absurd hn List.not_mem_nil

namespace Engine

variable {eng : Engine StandardFn} {calls : Calls StandardFn} {p : Program}
  {s : Selected StandardFn (RuntimeClass StandardFn)} {this : Value StandardFn}
  {args : List (Variable StandardFn)}

/-- Where the parameters of a method get declared, they leave a formed machine. -/
theorem forms_methodParameters (hs : IsFormedInvocation eng.table s this args) (span : Span) :
    eng.Forms (eng.bindParameters (s.bindings.complete s.signature) span s.signature.params args)
      fun _ => Ty.BindsFormed eng.table.arity? (s.bindings.complete s.signature)
        s.signature.generics := by
  intro m m' a hm hok
  have hb := hs.binds_of_ok hm.remembers hok
  have htypes : ∀ q ∈ s.signature.params, eng.table.ArgumentType
      (q.ty.substitute (s.bindings.complete s.signature)).resolved :=
    fun q hq => hs.selected.argumentType_param hb hq
  exact ⟨(forms_bindParameters span htypes hs.args m m' a hm hok).1, hb⟩

theorem forms_constructorParameters (hobject : Ty.object.Formed eng.table.arity? [])
    {o : ObjectRef StandardFn} (hs : IsFormedInitialization eng.table s o args) (span : Span) :
    eng.Forms (eng.bindParameters (Bindings.complete [] s.signature) span s.signature.params args)
      fun _ => True :=
  forms_bindParameters span (fun _ hq => hs.argumentType_param hobject hq) hs.args

/-! ## Methods and constructors -/

section Members

variable (h : ClassTable.build p .standard = .ok eng.table) (hcalls : calls.Formed eng)

include h hcalls

theorem forms_methodValue (hs : IsFormedInvocation eng.table s this args) (span : Span) :
    eng.Forms (eng.methodValue calls s (s.bindings.complete s.signature) this args span)
      fun r => (∀ v, r = some v → v.Formed eng.table) ∧
        Ty.BindsFormed eng.table.arity? (s.bindings.complete s.signature) s.signature.generics := by
  have ht := ClassTable.complete_of_build h
  unfold methodValue
  split
  · next f hbody =>
    refine (forms_callHost ht hcalls f (hs.hostCall span)).map fun v hv =>
      ⟨fun w hw => ?_, hs.binds_native h hbody⟩
    cases hw
    exact hv
  · refine .withScope (fun m m' a hm hok => ?_) ?_
    · -- The scope is formed since the parameters have been declared in it.
      obtain ⟨_, m₁, hbind, -⟩ := EvalM.ok_of_bind hok
      exact hs.scope (hs.binds_of_ok (hm.remembers.invocation _ _) hbind)
    · refine (forms_methodParameters hs span).bind fun _ hb => ?_
      refine (forms_execBlock ht hcalls _).bind fun flow hflow => ?_
      cases flow with
      | normal => exact .pure ⟨(fun _ hv => nomatch hv), hb⟩
      | returned v =>
        refine .pure ⟨fun w hw => ?_, hb⟩
        obtain ⟨v', rfl, rfl⟩ := Option.map_eq_some_iff.mp hw
        exact (hflow v' rfl).value

theorem forms_invoke (hs : IsFormedInvocation eng.table s this args) (span : Span) :
    eng.Forms (eng.invoke calls s this args span) fun r => ∀ v, r = some v → v.Placed eng.table := by
  refine .withFrame ((forms_methodValue h hcalls hs span).bind fun result hresult => ?_) _
  split
  · next ty value hty =>
    have hreturn : eng.table.ArgumentType
        (ty.substitute (s.bindings.complete s.signature)).resolved :=
      .inl ((hs.selected.formed_returnType hty).resolved_substitute hresult.2)
    refine (forms_classOf hreturn span).map fun c hc w hw => ?_
    cases hw
    exact ⟨hc.1, hresult.1 value rfl⟩
  · exact .pure fun _ hv => nomatch hv

theorem forms_dispatch {c : RuntimeClass StandardFn} {isStatic : Bool} {argTypes : List Ty}
    (name : String) (span : Span) (hcall : IsFormedCall eng.table c this isStatic args argTypes) :
    eng.Forms (eng.dispatch calls c this name isStatic args argTypes span)
      fun r => ∀ v, r = some v → v.Placed eng.table := by
  unfold dispatch
  cases hresolve : eng.table.runtimeMembers.resolveMethod eng.table c name isStatic argTypes with
  | error e => exact .raise _ _
  | ok r =>
    rw [types_ok_bind]
    cases r with
    | found s => exact forms_invoke h hcalls (hcall.invocation h hresolve) span
    | ambiguous a => exact .raise _ _
    | missing m => exact .raise _ _
    | defaultConstructor => exact .pure fun _ hv => nomatch hv

theorem forms_runConstructor {o : ObjectRef StandardFn}
    (hs : IsFormedInitialization eng.table s o args) (span : Span)
    {base : Option (List (Variable StandardFn) → List Ty → Span → EvalM StandardFn Unit)}
    (hbase : ∀ construct ∈ base, ∀ vs tys sp, AreArguments eng.table vs tys →
      eng.Forms (construct vs tys sp) fun _ => True) :
    eng.Forms (eng.runConstructor calls s o args span base) fun _ => True := by
  have ht := ClassTable.complete_of_build h
  refine .withFrame ?_ _
  split
  · next f hbody => exact (forms_callHost ht hcalls f (hs.hostCall span)).bind fun _ _ => .pure trivial
  · refine .withScope (fun _ _ _ _ _ => hs.scope) ?_
    refine (forms_constructorParameters (ClassTable.formed_object h) hs span).bind fun _ _ => ?_
    cases base with
    | none => exact (forms_execBlock ht hcalls _).bind fun _ _ => .pure trivial
    | some construct =>
      refine (forms_arguments ht hcalls _).bind fun superArgs hsuper => ?_
      refine (hbase construct rfl superArgs _ _ hsuper).bind fun _ _ => ?_
      exact (forms_execBlock ht hcalls _).bind fun _ _ => .pure trivial

/-- The constructors of a class and of its bases, on an object of a formed type. -/
theorem forms_runConstructors {o : ObjectRef StandardFn} (ho : eng.table.Admits o.cls)
    {isStaticView : Bool} : ∀ {layers : List (Layer StandardFn)}
    {args : List (Variable StandardFn)} {argTypes : List Ty} (span : Span),
    (∀ layer rest, layers = layer :: rest → eng.table.Admits ⟨isStaticView, layer, rest⟩) →
    AreArguments eng.table args argTypes →
    eng.Forms (eng.runConstructors calls o isStaticView layers args argTypes span)
      fun _ => True := by
  intro layers
  induction layers with
  | nil => exact fun _ _ _ => .pure trivial
  | cons layer rest ih =>
    intro args argTypes span hlayers hargs
    have hc := hlayers layer rest rfl
    -- The base of the class, for whatever is passed to it.
    have hrest : ∀ layer' rest', rest = layer' :: rest' →
        eng.table.Admits ⟨isStaticView, layer', rest'⟩ := by
      rintro layer' rest' rfl
      exact hc.extends (ClassTable.complete_of_build h) (.base rfl (.refl _))
    unfold runConstructors
    dsimp only
    cases hresolve : eng.table.runtimeMembers.resolveConstructor eng.table
        ⟨isStaticView, layer, rest⟩ argTypes with
    | error e => exact .raise _ _
    | ok r =>
      rw [types_ok_bind]
      cases r with
      | found s =>
        refine forms_runConstructor h hcalls (hc.initialization ho hargs.formed hresolve) span
          fun construct hmem vs tys sp hvs => ?_
        split at hmem
        · cases hmem
        · cases hmem
          exact ih sp hrest hvs
      | ambiguous a => exact .raise _ _
      | missing m => exact .raise _ _
      | defaultConstructor => exact ih span hrest .nil

theorem forms_construct {c : RuntimeClass StandardFn} (hc : eng.table.Admits c)
    {argTypes : List Ty} (hargs : AreArguments eng.table args argTypes) (span : Span) :
    eng.Forms (eng.construct calls c args argTypes span) fun o => o.cls = c := by
  refine (forms_allocate (ClassTable.complete_of_build h) hc span).bind fun o ho => ?_
  refine (forms_runConstructors h hcalls (ho ▸ hc) span (fun layer rest hlayers => ?_) hargs).bind
    fun _ _ => .pure ho
  cases hlayers
  exact hc

end Members

end Engine

/-! ## Calls at every depth -/

/-- Calls leave formed machines at every depth. -/
theorem Calls.formed_atDepth {eng : Engine StandardFn} {p : Program}
    (h : ClassTable.build p .standard = .ok eng.table) (n : Nat) :
    (Calls.atDepth eng n).Formed eng := by
  induction n with
  | zero => exact ⟨fun _ _ _ => .exhausted, fun _ _ _ => .exhausted⟩
  | succ n ih =>
    rw [Calls.atDepth]
    exact ⟨fun name span hc => Engine.forms_dispatch h ih name span hc,
      fun span hc hargs => Engine.forms_construct h ih hc hargs span⟩

end Middleweight
