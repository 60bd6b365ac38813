import Middleweight.Proofs.Objects.Host
import Middleweight.Proofs.Objects.Statements
import Middleweight.Proofs.Soundness.Runs

/-!
# Members

A member that is called with arguments that suit its parameters gives what it declares. The scope of
a body declares what the checker starts from, and its parameters go into that scope one by one as
the checker takes them in. A constructor passes on to its base what suits that one; so by induction
on the chain of classes an object is made, and by induction on the depth all calls are typed.

* `Engine.gives_methodValue` : the value that a method gives
* `Engine.gives_runConstructors` : constructors
* `Calls.typed_atDepth` : calls at every depth
-/

namespace Middleweight

open NativeRegistry (standard)

/-! ## The scopes of bodies -/

section Scopes

variable {F : Type} {t : ClassTable F}

theorem Context.Sees.thisTy? {κ : Context F} {this? : Option ClassTy} (h : κ.Sees this?) :
    κ.thisTy? = this?.map ClassTy.toTy := by
  cases h with
  | nothing hnone =>
    cases κ with
    | «instance» o c => cases hnone
    | _ => rfl
  | this o _ => rfl

/-- The scope of a body declares what the checker starts from. -/
theorem Scope.declares_invocation {κ : Context F} {this? : Option ClassTy} (hκ : κ.Sees this?)
    (hparams : κ.typeParams = []) (cls : Template F) (rt : Option Ty) :
    (Scope.invocation κ []).Declares t κ (BodyContext.ofClass t cls this? rt).firstLocals where
  context := rfl
  params := hparams
  levels := by
    cases this? with
    | none => exact .cons .empty .nil
    | some this =>
      refine .cons ⟨rfl, fun name hname => ?_⟩ .nil
      rw [List.lookup_cons, beq_false_of_ne hname]
      exact .none
  this := by
    rw [hκ.thisTy?]
    cases this? <;> rfl

end Scopes

/-! ## Parameters -/

/-- Arguments given by their types suit parameters that these types fit. -/
theorem Variable.suits_params {p : Program} {t : ClassTable StandardFn} (h : p.WellTyped t)
    {W : World StandardFn} {qs : List Param} (hqs : ∀ q ∈ qs, q.ty.resolved.Formed t.arity? []) :
    ∀ {args : List (Variable StandardFn)} {tys : List Ty},
    List.Forall₂ (Variable.GivenAs t W) args tys →
    List.Forall₂ (fun a (q : Param) => t.check a q.ty.resolved = true) tys qs →
    List.Forall₂ (fun v (q : Param) => v.value.Suits t q.ty.resolved) args qs := by
  intro args tys hgiven hcheck
  induction hgiven generalizing qs with
  | nil =>
    cases hcheck
    exact .nil
  | cons hv _ ih =>
    cases hcheck with
    | cons hq hrest =>
      obtain ⟨hhead, htail⟩ := List.forall_mem_cons.mp hqs
      exact .cons (hv.suits_of_check h hhead hq) (ih htail hrest)

section Given

variable {F : Type} {t : ClassTable F} {W : World F} {args : List (Variable F)} {tys : List Ty}

theorem Variable.passed_of_given (h : List.Forall₂ (Variable.GivenAs t W) args tys) :
    ∀ v ∈ args, v.Passed t W := by
  induction h with
  | nil => exact fun _ hv => absurd hv List.not_mem_nil
  | cons hv _ ih => exact List.forall_mem_cons.mpr ⟨hv.stored.passed, ih⟩

theorem Variable.allGround_of_given (h : List.Forall₂ (Variable.GivenAs t W) args tys) :
    Ty.AllGround tys := by
  rw [Ty.allGround_iff]
  intro ty hty
  obtain ⟨v, -, hv⟩ := exists_of_forall₂_mem h hty
  rcases hv.formed_or_null with rfl | hformed
  · exact Ty.isGround_cls.mpr Ty.allGround_nil
  · exact hformed.isGround

/-- A call that serves its receiver can be resolved. -/
theorem isCall_of_given {c : RuntimeClass F} {this : Value F} {isStatic : Bool}
    (hc : t.Serves isStatic c) (hthis : c.Receives W this isStatic)
    (h : List.Forall₂ (Variable.GivenAs t W) args tys) :
    IsCall t True W c this isStatic args tys where
  cls := hc.offers
  made _ := by
    cases hc with
    | made hmakes _ => exact .inl hmakes
    | shown _ hs => exact .inr hs
  valid := by
    cases hthis with
    | object ho => exact ho
    | _ => trivial
  receiver o ho := by
    cases hthis with
    | object _ =>
      cases ho
      rfl
    | _ => cases ho
  args := Variable.passed_of_given h
  argTypes := Variable.allGround_of_given h

end Given

namespace Engine

variable {p : Program} {eng : Engine StandardFn} {κ : Context StandardFn} {W : World StandardFn}
  {L : Locals}

/-- Parameters go into the scope as the checker takes them in. -/
theorem yields_bindParameters (h : p.WellTyped eng.table) {this? : Option ClassTy}
    {cls : Template StandardFn} {rt : Option Ty} (bindings : Bindings) (span : Span) :
    ∀ {ps : List Parameter} {qs : List Param} {args : List (Variable StandardFn)}
    {W : World StandardFn} {L L' : Locals},
    (BodyContext.ofClass eng.table cls this? rt).defineParameters L ps = .ok L' →
    List.Forall₂ (fun e q => q.name = e.1 ∧ eng.table.lower [] e.2 = .ok q.ty)
      (Member.writtenParams ps) qs →
    List.Forall₂ (fun v q => v.value.Suits eng.table q.ty.resolved) args qs →
    (∀ v ∈ args, v.Passed eng.table W) → (∀ q ∈ ps, q.name.name ≠ "this") →
    eng.Yields κ W L (eng.bindParameters bindings span qs args) fun _ L₁ _ => L₁ = L'
  | [], _, _, _, _, _, hdefine, .nil, .nil, _, _ => by
    cases hdefine
    exact Yields.pure rfl
  | q :: ps, _, _, W, L, L', hdefine, .cons (b := r) hq hqs, .cons (a := v) hv hargs, hpassed,
      hthis => by
    obtain ⟨ty, hty, hfirst⟩ := ok_of_bind hdefine
    obtain ⟨L₁, hL₁, hrest⟩ := ok_of_bind hfirst
    obtain ⟨hhead, htail⟩ := List.forall_mem_cons.mp hthis
    obtain ⟨hvalid, hvalids⟩ := List.forall_mem_cons.mp hpassed
    obtain ⟨name, ty'⟩ := r
    obtain ⟨rfl, hlower⟩ := hq
    cases (typed_ok hty).symm.trans hlower
    have hformed : ty'.Formed eng.table.arity? [] := ClassTable.formed_of_lower hlower
    rw [bindParameters]
    dsimp only
    rw [Ty.substitute_of_isGround _ hformed.isGround]
    refine (gives_classOf_formed h hformed span).bind fun V c hV hc => ?_
    have hdeclares := hc.declares hformed (Value.suits_resolved.mp hv)
    have hstored := hc.stored (hvalid.value.mono hV)
    refine Yields.bind (yields_define hhead hdeclares hstored (BodyContext.define_ok hL₁))
      fun U L₂ _ hU hL₂ => ?_
    cases hL₂
    exact yields_bindParameters h bindings span hrest hqs hargs
      (fun w hw => (hvalids w hw).mono (hV.trans hU)) htail

/-- What holds of all results holds where a computation ends well. -/
theorem Yields.and_of_ok {F α : Type} {eng : Engine F} {κ : Context F} {W : World F} {L : Locals}
    {x : EvalM F α} {Q : World F → Locals → α → Prop} {P : α → Prop} (hx : eng.Yields κ W L x Q)
    (hP : ∀ m a m', x m = .ok a m' → P a) : eng.Yields κ W L x fun V L' a => Q V L' a ∧ P a := by
  intro m hm
  have h := hx m hm
  cases hr : x m with
  | ok a m' =>
    rw [hr] at h
    cases h with
    | ok hV hm' hq => exact .ok hV hm' ⟨hq, hP m a m' hr⟩
  | error e m' =>
    rw [hr] at h
    cases h with
    | stop he => exact .stop he

end Engine

/-! ## Invocations -/

/-- A chosen member, called with arguments that suit its parameters. -/
structure IsTypedInvocation (t : ClassTable StandardFn) (W : World StandardFn)
    (s : Selected StandardFn (RuntimeClass StandardFn)) (this : Value StandardFn)
    (vs : List (Variable StandardFn)) : Prop extends IsInvocation t True W s this vs where
  serves : t.Serves s.member.isStatic s.owner
  settled : s.signature.Settled t
  suits : List.Forall₂ (fun v q => v.value.Suits t q.ty.resolved) vs s.signature.params
  makes : ∀ o, this = .object o → t.Makes o.cls
  running : s.owner.own.template.isDeclared = true →
    (s.member.isStatic = true ∧ this = .null) ∨ s.member.isStatic = false ∧ ∃ o, this = .object o

namespace IsTypedInvocation

variable {t : ClassTable StandardFn} {W : World StandardFn}
  {s : Selected StandardFn (RuntimeClass StandardFn)} {this : Value StandardFn}
  {args : List (Variable StandardFn)} (h : IsTypedInvocation t W s this args)

include h

theorem signature : t.signature s.member s.owner.params = .ok s.signature :=
  (h.selected.sound trivial).signature

theorem boundGenerics (b : Bindings) : s.signature.boundGenerics b = [] := by
  rw [Signature.boundGenerics, h.settled.generics]
  rfl

end IsTypedInvocation

namespace Program.WellTyped

variable {p : Program} {t : ClassTable StandardFn} (h : p.WellTyped t)

include h

/-- A method of a class is one of the library or one that the program declares. -/
theorem method_cases {c : RuntimeClass StandardFn} (hc : t.Offers c) {m : Member StandardFn}
    (hm : m ∈ c.own.template.methods) :
    (∃ n ∈ standard.classes, n.fullName = c.name ∧
      ∃ m' ∈ n.methods ++ n.constructors, m = .ofNative n.fullName m') ∨
    ∃ d ∈ p.classes, d.name.name = c.name ∧ ∃ m' ∈ d.methods, m = .ofMethod d.name.name m' := by
  rcases h.member_cases hc.get? (.inl hm) with
    ⟨n, hn, -, hname, m', hm', rfl⟩ | ⟨d, hd, hname, hdeclared⟩
  · exact .inl ⟨n, hn, hname, m', List.mem_append.mpr hm', rfl⟩
  · refine .inr ⟨d, hd, hname, ?_⟩
    obtain ⟨cls, hcls, -, -, -, hmethods, -⟩ := h.get?_of_declared hd
    rw [hname] at hcls
    rw [Option.some.inj (hc.get?.symm.trans hcls), hmethods] at hm
    obtain ⟨m', hm', rfl⟩ := List.mem_map.mp hm
    exact ⟨m', hm', rfl⟩

/-- A constructor of a class is one of the library or one that the program declares. -/
theorem constructor_cases {c : RuntimeClass StandardFn} (hc : t.Offers c) {m : Member StandardFn}
    (hm : m ∈ c.own.template.constructors) :
    (∃ n ∈ standard.classes, n.fullName = c.name ∧
      ∃ m' ∈ n.methods ++ n.constructors, m = .ofNative n.fullName m') ∨
    ∃ d ∈ p.classes, d.name.name = c.name ∧
      ∃ k ∈ d.constructors, m = .ofConstructor d.name.name k := by
  rcases h.member_cases hc.get? (.inr hm) with
    ⟨n, hn, -, hname, m', hm', rfl⟩ | ⟨d, hd, hname, hdeclared⟩
  · exact .inl ⟨n, hn, hname, m', List.mem_append.mpr hm', rfl⟩
  · refine .inr ⟨d, hd, hname, ?_⟩
    obtain ⟨cls, hcls, -, -, -, -, hconstructors⟩ := h.get?_of_declared hd
    rw [hname] at hcls
    rw [Option.some.inj (hc.get?.symm.trans hcls), hconstructors] at hm
    obtain ⟨k, hk, rfl⟩ := List.mem_map.mp hm
    exact ⟨k, hk, rfl⟩

omit h in
/-- The class of an instance whose class is not generic is the type of `this` there. -/
theorem selfType_eq {c : RuntimeClass StandardFn} (hc : t.Makes c)
    (hformed : c.asTy.Formed t.arity? []) (hg : c.own.template.generics = []) :
    c.own.template.selfType = c.ty := by
  rw [ty_of_generics hc hformed hg, Template.selfType, hg,
    ClassTable.get?_name (ClassTable.Offers.get? (.inl hc))]
  rfl

/-- The checks of the members that a program declares in a class. -/
theorem check_owner {d : ClassDecl} (hd : d ∈ p.classes) {c : RuntimeClass StandardFn}
    (hc : t.Offers c) (hname : d.name.name = c.name) :
    c.own.template.isDeclared = true ∧ c.own.template.generics = [] ∧
      (∀ k ∈ d.constructors, ConstructorDecl.check t c.own.template k = .ok ()) ∧
      ∀ m ∈ d.methods, MethodDecl.check t c.own.template m = .ok () := by
  obtain ⟨cls, hcls, -, hg, hdeclared, -, -⟩ := h.get?_of_declared hd
  obtain ⟨hconstructors, hmethods⟩ := h.check_members hd hcls
  rw [hname] at hcls
  cases Option.some.inj (hc.get?.symm.trans hcls)
  exact ⟨hdeclared, hg, hconstructors, hmethods⟩

/-- The types in a member that a program declares lower where no parameter is in scope. -/
theorem lowers_declared {W : World StandardFn} {s : Selected StandardFn (RuntimeClass StandardFn)}
    {this : Value StandardFn} {args : List (Variable StandardFn)}
    (hs : IsTypedInvocation t W s this args)
    (hdeclared : s.owner.own.template.isDeclared = true) (hgenerics : s.member.generics = []) :
    List.Forall₂ (fun e q => q.name = e.1 ∧ t.lower [] e.2 = .ok q.ty) s.member.params
        s.signature.params ∧
      Option.Rel (fun e ty => t.lower [] e = .ok ty) s.member.returnType
        s.signature.returnType := by
  have hlowers := ClassTable.signature_lowers hs.signature
  have hg := h.generics_of_declared hs.serves.offers.get? hdeclared
  rwa [hs.serves.offers.params_eq_nil hg, ClassTable.memberParams_eq_nil hgenerics (.inr rfl)]
    at hlowers

/-- The body of a declared method sees what the checker says that it sees. -/
theorem sees_method {W : World StandardFn} {s : Selected StandardFn (RuntimeClass StandardFn)}
    {this : Value StandardFn} {args : List (Variable StandardFn)}
    (hs : IsTypedInvocation t W s this args)
    (hdeclared : s.owner.own.template.isDeclared = true) :
    (Engine.bodyContext s.owner this).Sees
        (if s.member.isStatic then none else some s.owner.own.template.selfType) ∧
      (Engine.bodyContext s.owner this).typeParams = [] := by
  have hg := h.generics_of_declared hs.serves.offers.get? hdeclared
  rcases hs.running hdeclared with ⟨hstatic, rfl⟩ | ⟨hinstance, o, rfl⟩
  · rw [hstatic, if_pos rfl]
    exact ⟨.nothing rfl, rfl⟩
  · have hserves := hs.serves
    rw [hinstance] at hserves ⊢
    rw [if_neg Bool.false_ne_true]
    cases hserves with
    | shown _ hst => cases hst
    | made hmakes hformed =>
      rw [selfType_eq hmakes hformed hg]
      exact ⟨.this o hdeclared, ClassTable.Offers.params_eq_nil (.inl hmakes) hg⟩

end Program.WellTyped

namespace Engine

variable {p : Program} {eng : Engine StandardFn} {calls : Calls StandardFn}
  (h : p.WellTyped eng.table) {κ : Context StandardFn} {W : World StandardFn} {L : Locals}
  {s : Selected StandardFn (RuntimeClass StandardFn)} {this : Value StandardFn}
  {args : List (Variable StandardFn)}

/-- A value of the declared return type. -/
def Returned (t : ClassTable StandardFn) (sig : Signature) (V : World StandardFn)
    (v? : Option (Value StandardFn)) : Prop :=
  ∀ ty ∈ sig.returnType, ∃ v, v? = some v ∧ v.Valid t V ∧ v.Suits t ty.resolved

include h

section Natives

variable {n : NativeClass StandardFn} (hn : n ∈ standard.classes) {m : NativeMember StandardFn}
  (hm : m ∈ n.methods ++ n.constructors) (hname : n.fullName = s.owner.name)
  (hmember : s.member = .ofNative n.fullName m) (hs : IsTypedInvocation eng.table W s this args)
  (span : Span)

include hn hm hname hmember hs

/-- A native member that is called with arguments that suit its parameters keeps what suits. -/
theorem careful_native (hmakes : ∀ o : ObjectRef StandardFn, o.In W → eng.table.Makes o.cls) :
    (m.function.perform ⟨s.owner, this, args, span⟩).Careful eng.table
      (fun V v => m.function.result.Holds eng.table s.owner V v) W := by
  have hserves := hs.serves
  have hsig := hs.signature
  rw [hmember] at hserves hsig
  have hvalid := hs.hostCall h.build (fun o ho => .inl (hmakes o ho))
    (f := m.function) (by rw [hmember]; rfl) span
  have htyped := h.typed_hostCall hn hm hserves hname.symm hsig hvalid
    (fun o ho => ⟨hs.makes o ho, hs.receiver o ho⟩) hs.suits
  exact StandardFn.careful_perform htyped (NativeRegistry.results_standard n hn m hm).1

/-- A native member gives what it declares. -/
theorem gives_native :
    eng.Gives κ W L (eng.callHost calls m.function ⟨s.owner, this, args, span⟩)
      fun V v => Returned eng.table s.signature V (some v) := by
  refine Yields.of_typed fun machine hmachine => ?_
  have hserves := hs.serves
  have hsig := hs.signature
  rw [hmember] at hserves hsig
  have hcareful := careful_native h hn hm hname hmember hs span fun o ho => hmachine.makes ho
  refine (gives_runHost h calls hcareful span).mono fun V v hV hv ty hty => ?_
  exact ⟨v, rfl, h.suits_result hn hm hserves hname.symm hsig hv ty hty⟩

end Natives

/--
Where a declared member is called, its body sees what the checker says that it sees, and parameters
with ordinary names become the locals with which the checker starts.
-/
theorem typed_start (hs : IsTypedInvocation eng.table W s this args)
    (hdeclared : s.owner.own.template.isDeclared = true) (hgenerics : s.member.generics = [])
    {ps : List Parameter} (hps : s.member.params = Member.writtenParams ps)
    (hthis : ∀ q ∈ ps, q.name.name ≠ "this") {rt : Option Ty} {L₁ : Locals}
    (hL₁ : (BodyContext.ofClass eng.table s.owner.own.template
      (if s.member.isStatic then none else some s.owner.own.template.selfType) rt).initialLocals ps =
        .ok L₁) :
    ∃ L₀, (Scope.invocation (bodyContext s.owner this) []).Declares eng.table
        (bodyContext s.owner this) L₀ ∧
      ∀ (b : Bindings) (span : Span), eng.Yields (bodyContext s.owner this) W L₀
        (eng.bindParameters b span s.signature.params args) fun _ L' _ => L' = L₁ := by
  obtain ⟨hparams, -⟩ := h.lowers_declared hs hdeclared hgenerics
  obtain ⟨hsees, htypeParams⟩ := h.sees_method hs hdeclared
  rw [BodyContext.initialLocals_eq] at hL₁
  rw [hps] at hparams
  exact ⟨_, Scope.declares_invocation hsees htypeParams _ _,
    fun b span => yields_bindParameters h b span hL₁ hparams hs.suits hs.args hthis⟩

variable (hcalls : calls.Typed eng)

include hcalls

/-- The body of a declared method gives what the method declares. -/
theorem gives_declaredValue {d : ClassDecl} (hd : d ∈ p.classes) {m : MethodDecl}
    (hm : m ∈ d.methods) (hname : d.name.name = s.owner.name)
    (hmember : s.member = .ofMethod d.name.name m)
    (hs : IsTypedInvocation eng.table W s this args) (span : Span) :
    eng.Gives κ W L
      (eng.methodValue calls s (s.bindings.complete s.signature) this args span)
      (Returned eng.table s.signature) := by
  obtain ⟨hdeclared, hg, -, hchecks⟩ := h.check_owner hd hs.serves.offers hname
  have hmono := (h.monomorphic.classes d hd).methods m hm
  obtain ⟨rt, L₁, L₂, hrt, hdefine, hbody, hreturns⟩ := hmono.check_ok hg (hchecks m hm)
  have hgenerics : s.member.generics = [] := by
    rw [hmember]
    show m.generics.map Identifier.name = []
    rw [hmono.generics]
    rfl
  obtain ⟨L₀, hdeclares, hbind⟩ := typed_start h hs hdeclared hgenerics
    (by rw [hmember]; rfl) hmono.parameters (by rw [hmember]; exact hdefine)
  obtain ⟨-, hreturn⟩ := h.lowers_declared hs hdeclared hgenerics
  obtain ⟨hsees, -⟩ := h.sees_method hs hdeclared
  rw [hmember] at hreturn hsees
  cases hrt.symm.trans (MethodDecl.loweredReturn_ok_iff.mpr hreturn)
  have hformed : ∀ ty ∈ s.signature.returnType, ty.Formed eng.table.arity? [] := by
    intro ty hty
    rcases rel_elim hreturn with ⟨-, hnone⟩ | ⟨e, ty', -, hsome, hlower⟩
    · cases hnone.symm.trans hty
    · cases hsome.symm.trans hty
      exact ClassTable.formed_of_lower hlower
  have hcasts := ((h.monomorphic.castsNothing d hd).methods m hm).body
  unfold methodValue
  rw [hmember, hs.boundGenerics]
  have hscope := hs.scope
  rw [hs.boundGenerics] at hscope
  refine Yields.withScope hscope hdeclares ?_
  refine Yields.bind (hbind _ span) fun V L' _ hV hL' => ?_
  cases hL'
  have hyields := yields_execBlock h hcalls hsees hformed hbody hcasts hmono.locals (W := V)
  -- A checked block may end without a value; not so the body of a method that promises one.
  have hends := Yields.and_of_ok (P := fun flow =>
    s.signature.returnType.isSome = true → ∃ v, flow = .returned v) hyields
      fun m a m' hok hsome => execBlock_returns (hreturns hsome) hok
  refine hends.bind fun U L' flow hU hflow => ?_
  obtain ⟨⟨-, hsuits⟩, hreturned⟩ := hflow
  cases flow with
  | normal =>
    refine Yields.pure fun ty hty => ?_
    obtain ⟨v, hv⟩ := hreturned (Option.isSome_iff_exists.mpr ⟨ty, hty⟩)
    cases hv
  | returned v? =>
    refine Yields.pure fun ty hty => ?_
    obtain ⟨v, rfl, hvalid, hsuits⟩ := hsuits ty hty
    exact ⟨v.value, rfl, hvalid, Value.suits_resolved.mpr hsuits⟩

theorem gives_methodValue (hs : IsTypedInvocation eng.table W s this args)
    (hmethod : s.member ∈ s.owner.own.template.methods) (span : Span) :
    eng.Gives κ W L
      (eng.methodValue calls s (s.bindings.complete s.signature) this args span)
      (Returned eng.table s.signature) := by
  rcases h.method_cases hs.serves.offers hmethod with
    ⟨n, hn, hname, m, hm, hmember⟩ | ⟨d, hd, hname, m, hm, hmember⟩
  · unfold methodValue
    rw [hmember]
    exact (gives_native h hn hm hname hmember hs span).map fun _ _ _ hv => hv
  · exact gives_declaredValue h hcalls hd hm hname hmember hs span

/-- A method gives a value of its declared return type. -/
theorem gives_invoke (hs : IsTypedInvocation eng.table W s this args)
    (hmethod : s.member ∈ s.owner.own.template.methods) (span : Span) :
    eng.Gives κ W L (eng.invoke calls s this args span) fun V r? =>
      ∀ ty ∈ s.signature.returnType, ∃ v, r? = some v ∧ v.OfType eng.table V ty.resolved := by
  refine Yields.withFrame ?_ _
  refine (gives_methodValue h hcalls hs hmethod span).bind fun V v? hV hv => ?_
  cases hreturn : s.signature.returnType with
  | none => exact Yields.pure ⟨rfl, fun ty hty => nomatch hty⟩
  | some ty =>
    obtain ⟨v, rfl, hvalid, hsuits⟩ := hv ty hreturn
    have hformed := hs.settled.returnType ty hreturn
    dsimp only
    rw [Ty.substitute_of_concrete _ (Ty.concrete_of_formed hformed)]
    refine (gives_classOf_formed h hformed span).bind fun U c hU hc => ?_
    refine Yields.pure ⟨rfl, fun ty' hty' => ?_⟩
    cases hty'
    have hdeclares := hc.declares hformed hsuits
    exact ⟨_, rfl, hdeclares.ofType (hc.stored (hvalid.mono hU))⟩

omit hcalls in
/-- A call for which a method is found is one that its arguments suit. -/
theorem typed_invocation {c : RuntimeClass StandardFn} {isStatic : Bool} {argTypes : List Ty}
    {name : String} (hc : eng.table.Serves isStatic c) (hthis : c.Receives W this isStatic)
    (hargs : List.Forall₂ (Variable.GivenAs eng.table W) args argTypes)
    (hmakes : ∀ o : ObjectRef StandardFn, o.In W → eng.table.Makes o.cls)
    (hs : eng.table.runtimeMembers.resolveMethod eng.table c name isStatic argTypes =
      .ok (.found s)) :
    IsTypedInvocation eng.table W s this args ∧ s.member ∈ s.owner.own.template.methods := by
  obtain ⟨hmem, -, happ⟩ := ClassTable.method_of_found hs
  obtain ⟨hmethod, hstatic⟩ := Template.mem_methodsNamed hmem
  have hext := ClassTable.extends_of_found hs
  have hsettled := h.settled_of_found hc hs
  refine ⟨⟨(isCall_of_given hc hthis hargs).invocation hs, ?_, hsettled, ?_, ?_, ?_⟩, hmethod⟩
  · rw [hstatic]
    exact hc.extends h.complete hext
  · exact Variable.suits_params h hsettled.params hargs (hsettled.forall₂_of_applicable happ)
  · rintro o rfl
    cases hthis with
    | object ho => exact hmakes o ho
  · intro hdeclared
    rw [hstatic]
    cases hthis with
    | static => exact .inl ⟨rfl, rfl⟩
    | object ho => exact .inr ⟨rfl, _, rfl⟩
    | string text hstring =>
      -- Strings have no declared methods.
      obtain ⟨n, hn, hname⟩ : ∃ n ∈ standard.classes, n.fullName = c.name := by
        rw [show c.name = Ty.stringName from (Ty.cls.inj hstring).1]
        exact NativeRegistry.exists_named (by decide)
      have hnative := h.isDeclared_native hn (hname ▸ hc.offers.get?)
      rw [h.owner_native hc hnative hs, hnative] at hdeclared
      cases hdeclared

/-- A call gives what the method that is found for it declares. -/
theorem gives_dispatch {c : RuntimeClass StandardFn} {isStatic : Bool} {argTypes : List Ty}
    (name : String) (span : Span) (hc : eng.table.Serves isStatic c)
    (hthis : c.Receives W this isStatic)
    (hargs : List.Forall₂ (Variable.GivenAs eng.table W) args argTypes) :
    eng.Gives κ W L (eng.dispatch calls c this name isStatic args argTypes span) fun V r? =>
      ∃ s, eng.table.runtimeMembers.resolveMethod eng.table c name isStatic argTypes =
        .ok (.found s) ∧
      ∀ ty ∈ s.signature.returnType, ∃ v, r? = some v ∧ v.OfType eng.table V ty.resolved := by
  refine Yields.of_typed fun machine hmachine => ?_
  obtain ⟨r, hr⟩ := h.exists_resolution hc name argTypes
  unfold dispatch
  rw [hr, types_ok_bind]
  cases r with
  | found s =>
    obtain ⟨hs, hmethod⟩ := typed_invocation h hc hthis hargs (fun o ho => hmachine.makes ho) hr
    exact (gives_invoke h hcalls hs hmethod span).mono fun V r? _ hr? => ⟨s, rfl, hr?⟩
  | ambiguous a => exact Yields.raise (.ambiguousMember a) span
  | missing m => exact Yields.raise (.noSuchMember m) span
  | defaultConstructor => exact absurd hr (MemberSource.methodFrom_ne_defaultConstructor)

/-! ## Constructors -/

/-- The body of a declared constructor, with the construction of the base before it. -/
theorem gives_declaredConstructor {o : ObjectRef StandardFn} {d : ClassDecl} (hd : d ∈ p.classes)
    {k : ConstructorDecl} (hk : k ∈ d.constructors) (hname : d.name.name = s.owner.name)
    (hmember : s.member = .ofConstructor d.name.name k)
    (hs : IsTypedInvocation eng.table W s (.object o) args) (span : Span)
    {base : Option (List (Variable StandardFn) → List Ty → Span → EvalM StandardFn Unit)}
    (hsome : base.isSome = true → s.owner.own.template.base.isSome = true)
    (hbase : ∀ construct ∈ base, ∀ κ V L vs tys sp, W.Grows V →
      List.Forall₂ (Variable.GivenAs eng.table V) vs tys →
      eng.Gives κ V L (construct vs tys sp) fun _ _ => True) :
    eng.Gives κ W L (eng.runConstructor calls s o args span base) fun _ _ => True := by
  obtain ⟨hdeclared, hg, hchecks, -⟩ := h.check_owner hd hs.serves.offers hname
  have hmono := (h.monomorphic.classes d hd).constructors k hk
  obtain ⟨L₁, L₂, hdefine, hsuper, hbody⟩ := ConstructorDecl.check_ok (hchecks k hk)
  rw [Template.constructorContext_eq hg] at hdefine hsuper hbody
  obtain ⟨L₀, hdeclares, hbind⟩ := typed_start h hs hdeclared (by rw [hmember]; rfl)
    (by rw [hmember]; rfl) hmono.parameters (by rw [hmember]; exact hdefine)
  obtain ⟨hsees, -⟩ := h.sees_method hs hdeclared
  rw [hmember] at hsees
  have hcasts := (h.monomorphic.castsNothing d hd).constructors k hk
  unfold runConstructor
  rw [hmember]
  refine Yields.withFrame (Yields.withScope hs.constructorScope hdeclares ?_) _
  refine Yields.bind (hbind _ span) fun V L' _ hV hL' => ?_
  cases hL'
  have hrun : ∀ U : World StandardFn, V.Grows U → eng.Yields (.instance o s.owner) U L₁
      (eng.execBlock calls k.body >>= fun _ => pure ()) fun _ _ _ => True := by
    intro U hU
    have hyields := yields_execBlock h hcalls hsees
      (fun ty hty => absurd hty (Option.not_mem_none ty)) hbody hcasts.body hmono.locals (W := U)
    exact hyields.bind fun T L' flow _ _ => Yields.pure trivial
  cases base with
  | none => exact hrun V (.refl V)
  | some construct =>
    dsimp only
    obtain ⟨b, hb⟩ := Option.isSome_iff_exists.mp (hsome rfl)
    have hvalues : ∃ tys, (BodyContext.ofClass eng.table s.owner.own.template
        (some s.owner.own.template.selfType) none).values L₁ (k.superArguments.getD []) =
          .ok tys := by
      unfold BodyContext.superCall BodyContext.ofClass at hsuper
      dsimp only at hsuper
      rw [hb] at hsuper
      obtain ⟨tys, htys, -⟩ := ok_of_bind hsuper
      exact ⟨tys, htys⟩
    obtain ⟨tys, htys⟩ := hvalues
    have harguments : Expr.EachTypeIn TypeUse.CastsNothing (k.superArguments.getD []) := by
      cases hsup : k.superArguments with
      | none => trivial
      | some es => exact hcasts.superArguments es hsup
    refine (gives_evalAll h hcalls hsees htys harguments).bind fun U vs hU hvs => ?_
    refine (hbase construct rfl _ U L₁ vs _ _ (hV.trans hU) hvs.1).bind fun T _ hT _ => ?_
    exact hrun T (hU.trans hT)

/-- A constructor, given that the constructors of the base do no harm. -/
theorem gives_runConstructor {o : ObjectRef StandardFn}
    (hs : IsTypedInvocation eng.table W s (.object o) args)
    (hmember : s.member ∈ s.owner.own.template.constructors) (span : Span)
    {base : Option (List (Variable StandardFn) → List Ty → Span → EvalM StandardFn Unit)}
    (hsome : base.isSome = true → s.owner.own.template.base.isSome = true)
    (hbase : ∀ construct ∈ base, ∀ κ V L vs tys sp, W.Grows V →
      List.Forall₂ (Variable.GivenAs eng.table V) vs tys →
      eng.Gives κ V L (construct vs tys sp) fun _ _ => True) :
    eng.Gives κ W L (eng.runConstructor calls s o args span base) fun _ _ => True := by
  rcases h.constructor_cases hs.serves.offers hmember with
    ⟨n, hn, hname, m, hm, heq⟩ | ⟨d, hd, hname, k, hk, heq⟩
  · unfold runConstructor
    rw [heq]
    exact Yields.withFrame ((gives_native h hn hm hname heq hs span).bind fun _ _ _ _ =>
      Yields.pure ⟨rfl, trivial⟩) _
  · exact gives_declaredConstructor h hcalls hd hk hname heq hs span hsome hbase

omit hcalls in
/-- A constructor that is found for an object is one that its arguments suit. -/
theorem typed_initialization {o : ObjectRef StandardFn} {c : RuntimeClass StandardFn}
    {argTypes : List Ty} (ho : o.In W) (hchain : o.cls.Extends c) (hmakes : eng.table.Makes o.cls)
    (hformed : o.cls.asTy.Formed eng.table.arity? [])
    (hargs : List.Forall₂ (Variable.GivenAs eng.table W) args argTypes)
    (hs : eng.table.runtimeMembers.resolveConstructor eng.table c argTypes = .ok (.found s)) :
    s.owner = c ∧ IsTypedInvocation eng.table W s (.object o) args ∧
      s.member ∈ s.owner.own.template.constructors := by
  have hc := hmakes.extends hchain
  have hcformed := h.complete.formed_extends hmakes hformed hchain
  have hinit : IsInitialization eng.table W o c args argTypes :=
    ⟨ho, hchain, Variable.passed_of_given hargs, Variable.allGround_of_given hargs⟩
  have hcreates : eng.table.Creates True c := .inl hc
  obtain ⟨howner, hinvocation⟩ := hinit.invocation hcreates hs
  obtain ⟨-, cs, hcs, hmem, happ⟩ := MemberSource.resolveConstructor_found hs
  obtain ⟨hmember, -⟩ := ClassTable.mem_signatures hcs hmem
  have hconstructor : s.member ∈ s.owner.own.template.constructors := by
    rw [howner]
    unfold RuntimeClass.constructors at hmember
    split at hmember
    · cases hmember
    · exact hmember
  have hsettled := h.settled_of_constructor hc hcformed hs
  have hserves : eng.table.Serves s.member.isStatic s.owner := by
    rw [howner]
    exact .made hc hcformed
  refine ⟨howner, ⟨hinvocation, hserves, hsettled, ?_, ?_, fun hdeclared => ?_⟩, hconstructor⟩
  · exact Variable.suits_params h hsettled.params hargs (hsettled.forall₂_of_applicable happ)
  · rintro o' ho'
    cases ho'
    exact hmakes
  · refine .inr ⟨?_, o, rfl⟩
    rcases h.constructor_cases hserves.offers hconstructor with
      ⟨n, hn, hname, -⟩ | ⟨d, -, -, k, -, hk⟩
    · have hget := hserves.offers.get?
      rw [← hname] at hget
      rw [h.isDeclared_native hn hget] at hdeclared
      cases hdeclared
    · rw [hk]
      rfl

/-- The constructors of a class and of its bases, on an object of the class. -/
theorem gives_runConstructors {o : ObjectRef StandardFn} {isStaticView : Bool} :
    ∀ {layers : List (Layer StandardFn)} {κ : Context StandardFn} {W : World StandardFn}
    {L : Locals} {args : List (Variable StandardFn)} {argTypes : List Ty} (span : Span), o.In W →
    (∀ layer rest, layers = layer :: rest → o.cls.Extends ⟨isStaticView, layer, rest⟩) →
    List.Forall₂ (Variable.GivenAs eng.table W) args argTypes →
    eng.Gives κ W L (eng.runConstructors calls o isStaticView layers args argTypes span)
      fun _ _ => True := by
  intro layers
  induction layers with
  | nil => exact fun _ _ _ _ => Yields.pure ⟨rfl, trivial⟩
  | cons layer rest ih =>
    intro κ W L args argTypes span ho hchain hargs
    have hchain := hchain layer rest rfl
    -- The chain of the base is the rest of the chain.
    have hrest : ∀ layer' rest', rest = layer' :: rest' →
        o.cls.Extends ⟨isStaticView, layer', rest'⟩ := by
      rintro layer' rest' rfl
      exact hchain.trans (.base rfl (.refl _))
    refine Yields.of_typed fun machine hmachine => ?_
    have hmakes := hmachine.makes ho
    have hformed := hmachine.formed_object ho
    obtain ⟨r, hr⟩ := h.exists_construction (hmakes.extends hchain)
      (h.complete.formed_extends hmakes hformed hchain) argTypes
    unfold runConstructors
    dsimp only
    rw [hr, types_ok_bind]
    cases r with
    | found s =>
      obtain ⟨howner, hs, hconstructor⟩ :=
        typed_initialization h ho hchain hmakes hformed hargs hr
      refine gives_runConstructor h hcalls hs hconstructor span (fun hsome => ?_)
        fun construct hc κ V L vs tys sp hV hvs => ?_
      · cases rest with
        | nil => cases hsome
        | cons layer' rest' =>
          have hbase := hs.serves.offers.baseName?
          rw [ClassTable.baseName?, hs.serves.offers.get?, howner] at hbase
          obtain ⟨b, hb, -⟩ := Option.map_eq_some_iff.mp hbase
          rw [howner]
          exact Option.isSome_iff_exists.mpr ⟨b, hb⟩
      · split at hc
        · cases hc
        · cases hc
          exact ih sp (ho.mono hV) hrest hvs
    | ambiguous a => exact Yields.raise (.ambiguousMember a) span
    | missing m => exact Yields.raise (.noSuchMember m) span
    | defaultConstructor => exact ih span ho hrest .nil

theorem gives_construct {c : RuntimeClass StandardFn} {argTypes : List Ty} (span : Span)
    (hc : eng.table.Makes c) (hformed : c.asTy.Formed eng.table.arity? [])
    (hargs : List.Forall₂ (Variable.GivenAs eng.table W) args argTypes) :
    eng.Gives κ W L (eng.construct calls c args argTypes span)
      fun V o => o.In V ∧ o.cls = c := by
  refine (gives_allocate h hc hformed span).bind fun V o hV ho => ?_
  refine (gives_runConstructors h hcalls span ho.1 (fun layer rest hlayers => ?_)
    (hargs.imp fun v ty hv => hv.mono hV)).bind
      fun U _ hU _ => Yields.pure ⟨rfl, ho.1.mono hU, ho.2⟩
  cases hlayers
  rw [ho.2]
  exact .refl c

end Engine

/-! ## Calls at every depth -/

theorem Calls.typed_atDepth {p : Program} {eng : Engine StandardFn} (h : p.WellTyped eng.table)
    (n : Nat) : (Calls.atDepth eng n).Typed eng := by
  induction n with
  | zero => exact ⟨fun _ _ _ _ _ => .exhausted, fun _ _ _ _ => .exhausted⟩
  | succ n ih =>
    rw [Calls.atDepth]
    exact ⟨fun name span hc hthis hargs => Engine.gives_dispatch h ih name span hc hthis hargs,
      fun span hc hformed hargs => Engine.gives_construct h ih span hc hformed hargs⟩

end Middleweight
