import Middleweight.Proofs.World.Bodies

/-!
# Members sustain validity

Members of a class sustain validity when they are called on an object of that class, given that the
calls in their bodies do. By induction on the depth all calls do, and so does all that a host can
do.

* `Engine.sustains_invoke`, `Engine.sustains_runConstructors` : methods and constructors
* `Calls.sustained_atDepth` : calls at every depth
* `Engine.sustains_run`, `Engine.sustains_callStatic`, `Engine.sustains_constructObject` : hosts
-/

namespace Middleweight

/-! ## Chosen members -/

/-- A member that a class or one of its bases declares, with ground types on a strict machine. -/
structure Selected.Valid {F : Type} (t : ClassTable F) (strict : Prop)
    (s : Selected F (RuntimeClass F)) : Prop where
  owner : t.Offers s.owner
  member : s.member ∈ s.owner.own.template.methods ∨
    s.member ∈ s.owner.own.template.constructors
  sound : strict → s.Sound t

/-- A chosen member with what it is called with: a receiver that is an object is of its class. -/
structure IsInvocation {F : Type} (t : ClassTable F) (strict : Prop) (W : World F)
    (s : Selected F (RuntimeClass F)) (this : Value F) (args : List (Variable F)) : Prop where
  selected : s.Valid t strict
  valid : this.Valid t W
  receiver : ∀ o, this = .object o → o.cls.Extends s.owner
  args : ∀ v ∈ args, v.Passed t W

namespace IsInvocation

variable {F : Type} {t : ClassTable F} {strict : Prop} {W : World F}
  {s : Selected F (RuntimeClass F)} {this : Value F} {args : List (Variable F)}

/-- An invocation stays one as objects are made. -/
theorem mono (h : IsInvocation t strict W s this args) {V : World F} (hV : W.Grows V) :
    IsInvocation t strict V s this args :=
  ⟨h.selected, h.valid.mono hV, h.receiver, fun v hv => (h.args v hv).mono hV⟩

theorem bindsAll (h : IsInvocation t strict W s this args) (hs : strict) :
    Ty.BindsAll (s.bindings.complete s.signature) s.signature.generics :=
  Bindings.bindsAll_complete (h.selected.sound hs).bindings _

/-- The scope in which the body of a method starts. -/
theorem scope (h : IsInvocation t strict W s this args) :
    (Scope.invocation (Engine.bodyContext s.owner this)
      (s.signature.boundGenerics (s.bindings.complete s.signature))).Valid t strict W := by
  refine .invocation ?_ fun hs => Signature.concrete_boundGenerics (h.bindsAll hs)
  have hvalid := h.valid
  cases this with
  | object o => exact ⟨hvalid, h.receiver o rfl⟩
  | _ => exact h.selected.owner

/-- The scope in which the body of a constructor starts. -/
theorem constructorScope {o : ObjectRef F} (h : IsInvocation t strict W s (.object o) args) :
    (Scope.invocation (.instance o s.owner) []).Valid t strict W := by
  have hcontext : Context.Valid t W (.instance o s.owner) := ⟨h.valid, h.receiver o rfl⟩
  exact .invocation hcontext fun _ _ he => absurd he List.not_mem_nil

end IsInvocation

/-- Where nothing is bound by arguments, all parameters are bound to the root class. -/
theorem Bindings.bindsAll_complete_nil (s : Signature) :
    Ty.BindsAll (Bindings.complete [] s) s.generics :=
  Bindings.bindsAll_complete (fun _ he => absurd he List.not_mem_nil) _

/-- Constructors of a class that the class of an object is or extends. -/
structure IsInitialization {F : Type} (t : ClassTable F) (W : World F) (o : ObjectRef F)
    (c : RuntimeClass F) (args : List (Variable F)) (argTypes : List Ty) : Prop where
  object : o.In W
  chain : o.cls.Extends c
  args : ∀ v ∈ args, v.Passed t W
  argTypes : Ty.AllGround argTypes

/-- A method that a call resolves to may be invoked with its arguments. -/
theorem IsCall.invocation {F : Type} {t : ClassTable F} {strict : Prop} {W : World F}
    {c : RuntimeClass F} {this : Value F} {isStatic : Bool} {args : List (Variable F)}
    {argTypes : List Ty} (h : IsCall t strict W c this isStatic args argTypes) {name : String}
    {s : Selected F (RuntimeClass F)}
    (hs : t.runtimeMembers.resolveMethod t c name isStatic argTypes = .ok (.found s)) :
    IsInvocation t strict W s this args := by
  obtain ⟨hmem, hsig, happ⟩ := ClassTable.method_of_found hs
  obtain ⟨hmethod, hstatic⟩ := Template.mem_methodsNamed hmem
  have hext := ClassTable.extends_of_found hs
  refine ⟨⟨h.cls.extends hext, .inl hmethod, fun hstrict => ⟨?_, hsig, ?_⟩⟩, h.valid, ?_, h.args⟩
  · rcases h.cls with hc | hc
    · exact .inl (hc.extends hext)
    · rcases h.made hstrict with hmade | hst
      · exact .inl (hmade.extends hext)
      · exact .inr ⟨hc.extends hext, hstatic.trans hst⟩
  · exact ClassTable.allGround_applicable happ h.argTypes
  · intro o ho
    rw [h.receiver o ho]
    exact hext

/-- A constructor that resolution finds may be invoked on the object it initializes. -/
theorem IsInitialization.invocation {F : Type} {t : ClassTable F} {strict : Prop} {W : World F}
    {o : ObjectRef F} {c : RuntimeClass F} {args : List (Variable F)} {argTypes : List Ty}
    (h : IsInitialization t W o c args argTypes) (hc : t.Creates strict c)
    {s : Selected F (RuntimeClass F)}
    (hs : t.runtimeMembers.resolveConstructor t c argTypes = .ok (.found s)) :
    s.owner = c ∧ IsInvocation t strict W s (.object o) args := by
  obtain ⟨howner, cs, hcs, hmem, happ⟩ := MemberSource.resolveConstructor_found hs
  obtain ⟨hm, hsig⟩ := ClassTable.mem_signatures hcs hmem
  rw [← howner] at hsig hm
  have hconstructor : s.member ∈ s.owner.own.template.constructors := by
    unfold RuntimeClass.constructors at hm
    split at hm
    · cases hm
    · exact hm
  refine ⟨howner, ⟨howner ▸ hc.offers, .inr hconstructor, fun hstrict =>
    ⟨.inl (howner ▸ hc.makes hstrict), hsig, ClassTable.allGround_applicable happ h.argTypes⟩⟩,
    h.object, fun o' ho' => ?_, h.args⟩
  cases ho'
  rw [howner]
  exact h.chain

/-- A native member is called as a member of its class. -/
theorem IsInvocation.hostCall {t : ClassTable StandardFn} {p : Program}
    (h : ClassTable.build p .standard = .ok t) {strict : Prop} {W : World StandardFn}
    (hobjects : ∀ o : ObjectRef StandardFn, o.In W → t.Creates strict o.cls)
    {s : Selected StandardFn (RuntimeClass StandardFn)} {this : Value StandardFn}
    {args : List (Variable StandardFn)} (hs : IsInvocation t strict W s this args)
    {f : StandardFn} (hbody : s.member.body = .native f) (span : Span) :
    HostCall.Valid t strict W f ⟨s.owner, this, args, span⟩ := by
  refine ⟨hs.valid, fun o ho => ?_, hs.args, ?_⟩
  · have hvalid := hs.valid
    rw [show this = .object o from ho] at hvalid
    exact ⟨hs.receiver o ho, (hobjects o hvalid).extends (hs.receiver o ho)⟩
  · exact ClassTable.name_of_onList h hs.selected.owner.get? hs.selected.member hbody

namespace Engine

variable {eng : Engine StandardFn} {strict : Prop} {W : World StandardFn} {calls : Calls StandardFn}
  {p : Program}

/-- Parameters are bound to the arguments at the types that are declared for them. -/
theorem sustains_bindParameters (ht : eng.table.Closed) {bindings : Bindings} (span : Span) :
    ∀ {ps : List Param} {vs : List (Variable StandardFn)} {W : World StandardFn},
    (strict → ∀ q ∈ ps, (q.ty.substitute bindings).IsGround) →
    (∀ v ∈ vs, v.Passed eng.table W) →
    eng.Sustains strict W (eng.bindParameters bindings span ps vs) fun _ _ => True := by
  intro ps
  induction ps with
  | nil =>
    intro vs W _ _
    rw [bindParameters]
    · exact .pure trivial
    · simp
  | cons q ps ih =>
    intro vs W hps hvs
    cases vs with
    | nil =>
      rw [bindParameters]
      · exact .pure trivial
      · simp
    | cons v vs =>
      rw [bindParameters]
      have hty : strict → (q.ty.substitute bindings).firstUnbound? = none := fun hs =>
        Ty.firstUnbound?_of_isGround (hps hs q List.mem_cons_self)
      refine (sustains_classOf ht hty span).bind fun V c hV hc => ?_
      refine (sustains_define q.name (v := ⟨c, v.value⟩)
        ⟨hc.1, (hvs v List.mem_cons_self).value.mono hV⟩).bind fun U _ hU _ => ?_
      exact ih (fun hs r hr => hps hs r (List.mem_cons_of_mem _ hr)) fun w hw =>
        (hvs w (List.mem_cons_of_mem _ hw)).mono (hV.trans hU)

/-- The parameters of a method: what its arguments leave open stands for the root class. -/
theorem sustains_methodParameters (ht : eng.table.Closed)
    {s : Selected StandardFn (RuntimeClass StandardFn)} {this : Value StandardFn}
    {args : List (Variable StandardFn)} (hs : IsInvocation eng.table strict W s this args)
    (span : Span) :
    eng.Sustains strict W
      (eng.bindParameters (s.bindings.complete s.signature) span s.signature.params args)
      fun _ _ => True :=
  sustains_bindParameters ht span (fun hstrict _ hq =>
    (hs.selected.sound hstrict).isGround_param (hs.bindsAll hstrict) hq) hs.args

/-- The parameters of a constructor: whatever is generic in it stands for the root class. -/
theorem sustains_constructorParameters (ht : eng.table.Closed)
    {s : Selected StandardFn (RuntimeClass StandardFn)} {this : Value StandardFn}
    {args : List (Variable StandardFn)} (hs : IsInvocation eng.table strict W s this args)
    (span : Span) :
    eng.Sustains strict W
      (eng.bindParameters (Bindings.complete [] s.signature) span s.signature.params args)
      fun _ _ => True :=
  sustains_bindParameters ht span (fun hstrict _ hq =>
    (hs.selected.sound hstrict).isGround_param (Bindings.bindsAll_complete_nil _) hq) hs.args

section Members

variable (h : ClassTable.build p .standard = .ok eng.table) (hcalls : calls.Sustained eng strict)

include h hcalls

/-- A native member, called with what it may be called with. -/
theorem sustains_native {s : Selected StandardFn (RuntimeClass StandardFn)}
    {this : Value StandardFn} {args : List (Variable StandardFn)}
    (hs : IsInvocation eng.table strict W s this args) {f : StandardFn}
    (hbody : s.member.body = .native f) (span : Span) :
    eng.Sustains strict W (eng.callHost calls f ⟨s.owner, this, args, span⟩)
      fun V v => v.Valid eng.table V := by
  exact .assuming fun hobjects => sustains_callHost h hcalls (hs.hostCall h hobjects hbody span)

/-- A body gives a value that is in order. -/
theorem sustains_methodValue {s : Selected StandardFn (RuntimeClass StandardFn)}
    {this : Value StandardFn} {args : List (Variable StandardFn)}
    (hs : IsInvocation eng.table strict W s this args) (span : Span) :
    eng.Sustains strict W
      (eng.methodValue calls s (s.bindings.complete s.signature) this args span)
      fun V r => ∀ v, r = some v → v.Valid eng.table V := by
  unfold methodValue
  split
  · next f hbody =>
    refine (sustains_native h hcalls hs hbody span).map fun V v _ hv w hw => ?_
    cases hw
    exact hv
  · refine .withScope hs.scope ?_
    refine (sustains_methodParameters (ClassTable.closed_of_build h) hs span).bind
      fun V _ _ _ => ?_
    refine (sustains_execBlock h hcalls _).bind fun U flow _ hflow => ?_
    cases flow with
    | normal => exact .pure fun _ hv => nomatch hv
    | returned v =>
      refine .pure fun w hw => ?_
      obtain ⟨v', rfl, rfl⟩ := Option.map_eq_some_iff.mp hw
      exact (hflow v' rfl).value

/-- An invocation ends with nothing or with a value in order. -/
theorem sustains_invoke {s : Selected StandardFn (RuntimeClass StandardFn)}
    {this : Value StandardFn} {args : List (Variable StandardFn)}
    (hs : IsInvocation eng.table strict W s this args) (span : Span) :
    eng.Sustains strict W (eng.invoke calls s this args span)
      fun V r => ∀ v, r = some v → v.Stored eng.table V := by
  refine .withFrame ((sustains_methodValue h hcalls hs span).bind fun V result _ hresult => ?_) _
  split
  · next ty value hty =>
    have hground : strict →
        (ty.substitute (s.bindings.complete s.signature)).firstUnbound? = none := fun hstrict =>
      Ty.firstUnbound?_of_isGround
        ((hs.selected.sound hstrict).isGround_returnType (hs.bindsAll hstrict) hty)
    refine (sustains_classOf (ClassTable.closed_of_build h) hground span).map
      fun U c hU hc w hw => ?_
    cases hw
    exact ⟨hc.1, (hresult value rfl).mono hU⟩
  · exact .pure fun _ hv => nomatch hv

/-- A dispatched call ends with nothing or with a value in order. -/
theorem sustains_dispatch {c : RuntimeClass StandardFn} {this : Value StandardFn} {isStatic : Bool}
    {args : List (Variable StandardFn)} {argTypes : List Ty} (name : String) (span : Span)
    (hcall : IsCall eng.table strict W c this isStatic args argTypes) :
    eng.Sustains strict W (eng.dispatch calls c this name isStatic args argTypes span)
      fun V r => ∀ v, r = some v → v.Stored eng.table V := by
  unfold dispatch
  cases hresolve : eng.table.runtimeMembers.resolveMethod eng.table c name isStatic argTypes with
  | error e => exact .raise _ fun _ => ClassTable.resolveMethod_error hresolve
  | ok r =>
    rw [types_ok_bind]
    cases r with
    | found s => exact sustains_invoke h hcalls (hcall.invocation hresolve) span
    | ambiguous a => exact .raise _ fun _ => rfl
    | missing m => exact .raise _ fun _ => rfl
    | defaultConstructor => exact .pure fun _ hv => nomatch hv

theorem sustains_runConstructor {s : Selected StandardFn (RuntimeClass StandardFn)}
    {o : ObjectRef StandardFn} {args : List (Variable StandardFn)}
    (hs : IsInvocation eng.table strict W s (.object o) args) (span : Span)
    {base : Option (List (Variable StandardFn) → List Ty → Span → EvalM StandardFn Unit)}
    (hbase : ∀ construct ∈ base, ∀ V vs tys sp, W.Grows V → (∀ v ∈ vs, v.Passed eng.table V) →
      Ty.AllGround tys → eng.Sustains strict V (construct vs tys sp) fun _ _ => True) :
    eng.Sustains strict W (eng.runConstructor calls s o args span base) fun _ _ => True := by
  refine .withFrame ?_ _
  split
  · next f hbody => exact (sustains_native h hcalls hs hbody span).bind fun _ _ _ _ => .pure trivial
  · refine .withScope hs.constructorScope ?_
    refine (sustains_constructorParameters (ClassTable.closed_of_build h) hs span).bind
      fun V _ hV _ => ?_
    cases base with
    | none => exact (sustains_execBlock h hcalls _).bind fun _ _ _ _ => .pure trivial
    | some construct =>
      refine (sustains_evalAll h hcalls _).bind fun U superArgs hU hsuper => ?_
      have hpassed : ∀ v ∈ superArgs, v.Passed eng.table U := fun v hv => (hsuper v hv).passed
      refine (hbase construct rfl U superArgs _ _ (hV.trans hU) hpassed
        (allGround_argumentTypes hpassed)).bind fun T _ _ _ => ?_
      exact (sustains_execBlock h hcalls _).bind fun _ _ _ _ => .pure trivial

/-- The constructors of a class and of its bases, on an object of the class. -/
theorem sustains_runConstructors {o : ObjectRef StandardFn} {isStaticView : Bool} :
    ∀ {layers : List (Layer StandardFn)} {args : List (Variable StandardFn)} {argTypes : List Ty}
    {W : World StandardFn} (span : Span),
    (∀ layer rest, layers = layer :: rest →
      IsInitialization eng.table W o ⟨isStaticView, layer, rest⟩ args argTypes) →
    eng.Sustains strict W (eng.runConstructors calls o isStaticView layers args argTypes span)
      fun _ _ => True := by
  intro layers
  induction layers with
  | nil => exact fun _ _ => .pure trivial
  | cons layer rest ih =>
    intro args argTypes W span hinit
    have hinit := hinit layer rest rfl
    -- The base of the class, for whatever is passed to it.
    have hrest : ∀ {V : World StandardFn} {vs : List (Variable StandardFn)} {tys : List Ty},
        W.Grows V → (∀ v ∈ vs, v.Passed eng.table V) → Ty.AllGround tys →
        ∀ layer' rest', rest = layer' :: rest' →
        IsInitialization eng.table V o ⟨isStaticView, layer', rest'⟩ vs tys := by
      rintro V vs tys hV hvs htys layer' rest' rfl
      exact ⟨hinit.object.mono hV, hinit.chain.trans (.base rfl (.refl _)), hvs, htys⟩
    refine .assuming fun hobjects => ?_
    have hcreates := (hobjects o hinit.object).extends hinit.chain
    unfold runConstructors
    dsimp only
    cases hresolve : eng.table.runtimeMembers.resolveConstructor eng.table
        ⟨isStaticView, layer, rest⟩ argTypes with
    | error e => exact .raise _ fun _ => ClassTable.resolveConstructor_error hresolve
    | ok r =>
      rw [types_ok_bind]
      cases r with
      | found s =>
        refine sustains_runConstructor h hcalls (hinit.invocation hcreates hresolve).2 span
          fun construct hc V vs tys sp hV hvs htys => ?_
        split at hc
        · cases hc
        · cases hc
          exact ih sp (hrest hV hvs htys)
      | ambiguous a => exact .raise _ fun _ => rfl
      | missing m => exact .raise _ fun _ => rfl
      | defaultConstructor =>
        exact ih span (hrest (.refl W) (fun _ hv => absurd hv List.not_mem_nil)
          Ty.allGround_nil)

/-- Construction gives an object of the class that was asked for. -/
theorem sustains_construct {c : RuntimeClass StandardFn} {args : List (Variable StandardFn)}
    {argTypes : List Ty} (span : Span)
    (hc : IsConstruction eng.table strict W c args argTypes) :
    eng.Sustains strict W (eng.construct calls c args argTypes span)
      fun V o => o.In V ∧ o.cls = c := by
  refine (sustains_allocate (ClassTable.closed_of_build h) hc.cls span).bind fun V o hV ho => ?_
  refine (sustains_runConstructors h hcalls span fun layer rest hlayers => ?_).bind
    fun U _ hU _ => .pure ⟨ho.1.mono hU, ho.2⟩
  cases hlayers
  refine ⟨ho.1, ?_, fun v hv => (hc.args v hv).mono hV, hc.argTypes⟩
  rw [ho.2]
  exact .refl c

end Members

end Engine

/-! ## Calls at every depth -/

/-- Calls sustain validity at every depth. -/
theorem Calls.sustained_atDepth {eng : Engine StandardFn} {p : Program}
    (h : ClassTable.build p .standard = .ok eng.table) (strict : Prop) (n : Nat) :
    (Calls.atDepth eng n).Sustained eng strict := by
  induction n with
  | zero => exact ⟨fun _ _ _ => .exhausted, fun _ _ => .exhausted⟩
  | succ n ih =>
    rw [Calls.atDepth]
    exact ⟨fun name span hc => Engine.sustains_dispatch h ih name span hc,
      fun span hc => Engine.sustains_construct h ih span hc⟩

namespace Engine

variable {eng : Engine StandardFn} {strict : Prop} {W : World StandardFn} {p : Program}
  (h : ClassTable.build p .standard = .ok eng.table)

include h

/-- A call of the host ends with nothing or with a value in order. -/
theorem sustains_callStatic (className method : String) {args : List (Variable StandardFn)}
    (hargs : ∀ v ∈ args, v.Passed eng.table W) (span : Span) :
    eng.Sustains strict W (eng.callStatic className method args span)
      fun V r => ∀ v, r = some v → v.Stored eng.table V := by
  unfold callStatic
  split
  · exact .raise _ fun _ => rfl
  · refine (sustains_staticView _ span).bind fun V view hV hview => ?_
    exact (Calls.sustained_atDepth h strict eng.budget).dispatch method span
      (.ofView hview fun v hv => (hargs v hv).mono hV)

theorem sustains_constructObject {c : RuntimeClass StandardFn} (hc : eng.table.Creates strict c)
    {args : List (Variable StandardFn)} (hargs : ∀ v ∈ args, v.Passed eng.table W) (span : Span) :
    eng.Sustains strict W (eng.constructObject c args span) fun V o => o.In V ∧ o.cls = c :=
  (Calls.sustained_atDepth h strict eng.budget).construct span
    ⟨hc, hargs, allGround_declaredTypes hargs⟩

/-- A run keeps every machine in order. -/
theorem sustains_run : eng.Sustains strict W eng.run fun _ _ => True := by
  refine .withFrame ?_ _
  split
  · exact .raise _ fun _ => rfl
  · refine (sustains_callStatic h _ _ (fun _ hv => absurd hv List.not_mem_nil) _).bind
      fun V _ _ _ => ?_
    unfold flush
    split
    · exact .invalid _ _
    · exact .pure trivial

end Engine

end Middleweight
