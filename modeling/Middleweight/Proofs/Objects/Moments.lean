import Middleweight.Proofs.Objects.Bodies

/-!
# Typed moments of a run

What the checker has made sure of about bodies holds of a whole run: from a typed machine a call is
resolved to a member that its arguments suit, a member comes to its body with the locals with which
the checker starts, and a body calls members again. So a run leads to typed moments only, and a part
of a body finds the locals with which the checker came to it, wherever the run comes from.

* `Activity.Typed`, `Moment.Typed` : typed moments
* `Leads.typed`, `Reaches.typed` : one step, and any number of them
* `Occurs.typedAt` : parts of bodies that a run comes to
-/

namespace Middleweight

open NativeRegistry (standard)

variable {F : Type} {p : Program}

/-! ## Programs of the host on their way -/

/-- A program that is careful, or that makes an object of a formed type without arguments before. -/
inductive HostProgram.Prudent (t : ClassTable F) : World F → HostProgram F (Value F) → Prop
  | careful {W : World F} {P : World F → Value F → Prop} {x : HostProgram F (Value F)} :
      x.Careful t P W → Prudent t W x
  | classOf {W : World F} {ty : Ty} {next : RuntimeClass F → HostProgram F (Value F)} :
      ty.Formed t.arity? [] → (∀ V c, W.Grows V → t.IsClassOf ty c → Prudent t V (next c)) →
      Prudent t W (.classOf ty next)
  | construct {W : World F} {c : RuntimeClass F}
      {next : ObjectRef F → HostProgram F (Value F)} :
      t.Makes c → c.asTy.Formed t.arity? [] → (∀ V o, W.Grows V → Prudent t V (next o)) →
      Prudent t W (.construct c [] next)

/-- The standard output is made without arguments. -/
theorem StandardFn.prudent_systemOut {t : ClassTable StandardFn} (h : p.WellTyped t)
    (W : World StandardFn) (call : HostCall StandardFn) : (systemOut.perform call).Prudent t W := by
  have hformed := h.formed_kind Kind.printStream.typeName_mem_names
  refine .classOf hformed fun V c _ hc => ?_
  refine .construct hc.makes (hc.asTy_eq ▸ hformed) fun U o _ => ?_
  exact .careful (P := fun _ _ => True) (.done trivial)

/-! ## Typed moments -/

/-- What an activity that is no part of a body may start with in a typed machine. -/
def Activity.Typed (t : ClassTable StandardFn) (W : World StandardFn) :
    Activity StandardFn → Prop
  | operation .run => True
  | operation (.callStatic _ _ args _) => args = []
  | call c this _ isStatic args argTypes _ =>
    t.Serves isStatic c ∧ c.Receives W this isStatic ∧
      List.Forall₂ (Variable.GivenAs t W) args argTypes
  | method s this args _ =>
    IsTypedInvocation t W s this args ∧ s.member ∈ s.owner.own.template.methods
  | construction c args argTypes _ =>
    t.Makes c ∧ c.asTy.Formed t.arity? [] ∧ List.Forall₂ (Variable.GivenAs t W) args argTypes
  | constructors o isStaticView layers args argTypes _ =>
    o.In W ∧ (∀ layer rest, layers = layer :: rest → o.cls.Extends ⟨isStaticView, layer, rest⟩) ∧
      List.Forall₂ (Variable.GivenAs t W) args argTypes
  | constructor s o isStaticView rest args _ =>
    IsTypedInvocation t W s (.object o) args ∧ s.member ∈ s.owner.own.template.constructors ∧
      o.cls.Extends s.owner ∧ ∃ layer, s.owner = ⟨isStaticView, layer, rest⟩
  | host program _ => program.Prudent t W
  | staticField c _ _ => t.Offers c
  | _ => False

/--
A moment of a typed run. Nothing is said about the moments at which parameters are taken in, since
they lead to such moments only.
-/
inductive Moment.Typed (t : ClassTable StandardFn) (M : Moment StandardFn) : Prop
  | activity {κ : Context StandardFn} {W : World StandardFn} {L : Locals} :
      M.machine.Typed t κ W L → M.activity.Typed t W → Typed t M
  | parameters {bindings : Bindings} {params : List Param} {args : List (Variable StandardFn)}
      {span : Span} : M.activity = .parameters bindings params args span → Typed t M
  | code {ctx : BodyContext StandardFn} {L : Locals} {κ : Context StandardFn}
      {W : World StandardFn} : M.TypedAt t ctx L κ W → Typed t M

theorem Moment.TypedAt.isCode {t : ClassTable F} {ctx : BodyContext F} {L : Locals} {κ : Context F}
    {W : World F} {N : Moment F} (h : N.TypedAt t ctx L κ W) : N.activity.isCode = true := by
  have haccepts := h.accepts
  generalize N.activity = a at haccepts
  cases a <;> first | rfl | exact haccepts.elim

theorem Activity.Typed.isCode {t : ClassTable StandardFn} {W : World StandardFn}
    {a : Activity StandardFn} (h : a.Typed t W) : a.isCode = false := by
  cases a <;> first | rfl | exact h.elim

/-- Where a program casts nothing, the body of a member does not, nor what it passes to its base. -/
theorem Program.Opens.casts {t : ClassTable F} {member : Member F} {ctx : BodyContext F}
    {L : Locals} (h : p.Opens t member ctx L)
    (hp : p.EachType fun _ => TypeUse.CastsNothing) {body : List Stmt}
    {superArguments : Option (List Expr)} (hbody : member.body = .declared body superArguments) :
    Stmt.EachTypeIn TypeUse.CastsNothing body ∧
      Expr.EachTypeIn TypeUse.CastsNothing (superArguments.getD []) := by
  cases h with
  | method hd hm _ _ _ =>
    cases hbody
    exact ⟨((hp _ hd).methods _ hm).body, trivial⟩
  | @constructor d k _ _ hd hk _ _ =>
    cases hbody
    have hcasts := (hp d hd).constructors k hk
    refine ⟨hcasts.body, ?_⟩
    cases hsuper : k.superArguments with
    | none => trivial
    | some es => exact hcasts.superArguments es hsuper

section Runs

variable {eng : Engine StandardFn} (h : p.WellTyped eng.table) {κ : Context StandardFn}
  {W : World StandardFn} {L L₀ : Locals} {ctx : BodyContext StandardFn} {M N : Moment StandardFn}
  {s : Selected StandardFn (RuntimeClass StandardFn)} {this : Value StandardFn}
  {args : List (Variable StandardFn)}

include h

/-- An engine runs the bodies that the checker has accepted with its own table. -/
theorem Program.WellTyped.runsChecked : eng.RunsChecked p eng.table :=
  ⟨h.build, h.check, ⟨p, h.build⟩, .refl _⟩

/-! ## Starts of bodies -/

/-- The context in which a body starts, with the locals that the checker starts with. -/
theorem Program.Opens.typed_start (hopens : p.Opens eng.table s.member ctx L)
    (howner : s.member.owner = s.owner.name)
    (hs : IsTypedInvocation eng.table W s this args) :
    (Engine.bodyContext s.owner this).Runs eng.table ctx ∧
    ∃ L₀, (Scope.invocation (Engine.bodyContext s.owner this) []).Declares eng.table
        (Engine.bodyContext s.owner this) L₀ ∧
      ∀ (b : Bindings) (span : Span), eng.Yields (Engine.bodyContext s.owner this) W L₀
        (eng.bindParameters b span s.signature.params args) fun _ L' _ => L' = L := by
  generalize hmember : s.member = member at hopens
  have hget := hs.serves.offers.get?
  cases hopens with
  | @method d m cls rt _ hd hm hcls hrt hL =>
    have hname : d.name.name = s.owner.name := by
      rw [hmember] at howner
      exact howner
    obtain ⟨hdeclared, hg, -, -⟩ := h.check_owner hd hs.serves.offers hname
    cases (hname ▸ hcls).symm.trans hget
    have hmono := (h.monomorphic.classes d hd).methods m hm
    have hgenerics : s.member.generics = [] := by
      rw [hmember]
      show m.generics.map Identifier.name = []
      rw [hmono.generics]
      rfl
    rw [hmono.typeParams_eq hg] at hrt
    rw [hmono.context_eq hg] at hL ⊢
    refine ⟨?_, Engine.typed_start h hs hdeclared hgenerics (by rw [hmember]; rfl)
      hmono.parameters (by rw [hmember]; exact hL)⟩
    have hsees := (h.sees_method hs hdeclared).1
    rw [hmember] at hsees
    refine .ofClass hsees fun ty hty => ?_
    rcases rel_elim (MethodDecl.loweredReturn_ok_iff.mp hrt) with
      ⟨-, hnone⟩ | ⟨e, ty', -, hsome, hlower⟩
    · cases hnone.symm.trans hty
    · cases hsome.symm.trans hty
      exact ClassTable.formed_of_lower hlower
  | @constructor d k cls _ hd hk hcls hL =>
    have hname : d.name.name = s.owner.name := by
      rw [hmember] at howner
      exact howner
    obtain ⟨hdeclared, hg, -, -⟩ := h.check_owner hd hs.serves.offers hname
    cases (hname ▸ hcls).symm.trans hget
    have hmono := (h.monomorphic.classes d hd).constructors k hk
    rw [Template.constructorContext_eq hg] at hL ⊢
    refine ⟨?_, Engine.typed_start h hs hdeclared (by rw [hmember]; rfl) (by rw [hmember]; rfl)
      hmono.parameters (by rw [hmember]; exact hL)⟩
    have hsees := (h.sees_method hs hdeclared).1
    rw [hmember] at hsees
    exact .ofClass hsees fun ty hty => nomatch hty

/-- Parameters that have been taken in are the locals with which the checker starts. -/
theorem Machine.Typed.started {m m₁ : Machine StandardFn} (hm : m.Typed eng.table κ W L₀)
    (hopens : p.Opens eng.table s.member ctx L) (howner : s.member.owner = s.owner.name)
    (hs : IsTypedInvocation eng.table W s this args) {b : Bindings} {span : Span}
    (hbind : eng.bindParameters b span s.signature.params args
      { m with scope := Scope.invocation (Engine.bodyContext s.owner this) [] } = .ok () m₁) :
    (Engine.bodyContext s.owner this).Runs eng.table ctx ∧
      ∃ V, W.Grows V ∧ m₁.Typed eng.table (Engine.bodyContext s.owner this) V L := by
  obtain ⟨hruns, L₁, hdeclares, hyields⟩ := hopens.typed_start h howner hs
  have hscope := hs.scope
  rw [hs.boundGenerics] at hscope
  obtain ⟨V, L', hV, hm₁, rfl⟩ := (hyields b span).ok (hm.withScope hscope hdeclares) hbind
  exact ⟨hruns, V, hV, hm₁⟩

/-- A body that is started in a machine with the locals of the checker. -/
theorem Leads.typedAt_of_machine (hstep : Leads eng M N) (hM : M.Sound eng.table True)
    (hs : M.activity.entered? = some (s, κ)) (hN : N.activity.isCode = true)
    (hopens : p.Opens eng.table s.member ctx L) (hruns : κ.Runs eng.table ctx)
    (hmachine : N.machine.Typed eng.table κ W L) : N.TypedAt eng.table ctx L κ W := by
  have henters := hstep.enters hM.fit hs hN
  obtain ⟨body, superArguments, hbody, hcode⟩ := henters.code
  obtain ⟨hbodyCasts, hsuperCasts⟩ := hopens.casts h.monomorphic.castsNothing hbody
  have hlocals := hopens.ordinaryLocals h.monomorphic.hasOrdinaryNames hbody
  refine ⟨hmachine, hruns, h.runsChecked.accepts_start (hM.selected hs) henters hopens, ?_, ?_⟩
  · rcases hcode with hcode | ⟨hcode, -⟩
    · rw [hcode]
      exact hbodyCasts
    · rw [hcode]
      exact hsuperCasts
  · rcases hcode with hcode | ⟨hcode, -⟩
    · rw [hcode]
      exact hlocals
    · rw [hcode]
      trivial

/-- Arguments that are evaluated in a body are given by their types. -/
theorem Moment.TypedAt.evalAll {n : Nat} {es : List Expr} {m m₁ : Machine StandardFn}
    {vs : List (Variable StandardFn)}
    (hM : Moment.TypedAt eng.table ctx L κ W ⟨n, .expressions es, m⟩)
    (heval : eng.evalAll (.atDepth eng n) es m = .ok vs m₁) :
    ∃ V, W.Grows V ∧ m₁.Typed eng.table κ V L ∧
      List.Forall₂ (Variable.GivenAs eng.table V) vs (argumentTypes es vs) := by
  obtain ⟨hm, ⟨hκ, -⟩, ⟨tys, htys⟩, hcasts, -⟩ := hM
  obtain ⟨V, hV, hm₁, hvs⟩ :=
    (Engine.gives_evalAll h (Calls.typed_atDepth h n) hκ htys hcasts).ok hm heval
  exact ⟨V, hV, hm₁, hvs.1⟩

section Constructors

variable {n : Nat} {o : ObjectRef StandardFn} {isStaticView : Bool} {rest : List (Layer StandardFn)}
  {span : Span} {m m₁ m₂ : Machine StandardFn} {body : List Stmt}
  {superArguments : Option (List Expr)} (hm : m.Typed eng.table κ W L₀)
  (ha : (Activity.constructor s o isStaticView rest args span).Typed eng.table W)
  (hM : Moment.Sound ⟨n, .constructor s o isStaticView rest args span, m⟩ eng.table True)
  (hbody : s.member.body = .declared body superArguments) (hrest : rest ≠ [])
  (hopens : p.Opens eng.table s.member ctx L)
  (hbind : eng.bindParameters (Bindings.complete [] s.signature) span s.signature.params args
    (eng.enterConstructor s o span m) = .ok () m₁)

include hm ha hM hbody hrest hopens hbind

/-- What a constructor passes on to its base is evaluated in a typed machine. -/
theorem typedAt_superArguments : ∃ V, W.Grows V ∧ Moment.TypedAt eng.table ctx L
    (.instance o s.owner) V ⟨n, .expressions (superArguments.getD []), m₁⟩ := by
  have hstep : Leads eng ⟨n, .constructor s o isStaticView rest args span, m⟩
      ⟨n, .expressions (superArguments.getD []), m₁⟩ := .superArguments hbody hrest hbind
  have hs : (Activity.constructor s o isStaticView rest args span).entered? =
      some (s, .instance o s.owner) := rfl
  have howner := (h.runsChecked.exists_opens (hM.selected hs) hbody).1
  obtain ⟨hruns, V, hV, hm₁⟩ := (hm.pushFrame eng _).started h hopens howner ha.1 hbind
  exact ⟨V, hV, hstep.typedAt_of_machine h hM hs rfl hopens hruns hm₁⟩

/-- What a constructor passes on to its base may be passed on. -/
theorem typed_superArguments {vs : List (Variable StandardFn)}
    (heval : eng.evalAll (.atDepth eng n) (superArguments.getD []) m₁ = .ok vs m₂) :
    (Context.instance o s.owner).Runs eng.table ctx ∧ ∃ V,
      m₂.Typed eng.table (.instance o s.owner) V L ∧
      (Activity.constructors o isStaticView rest vs
        (argumentTypes (superArguments.getD []) vs) s.member.span).Typed eng.table V := by
  obtain ⟨V, hV, htyped⟩ := typedAt_superArguments h hm ha hM hbody hrest hopens hbind
  obtain ⟨U, hU, hm₂, hvs⟩ := htyped.evalAll h heval
  obtain ⟨hs, -, hext, layer, howner⟩ := ha
  have ho : o.In W := hs.valid
  refine ⟨htyped.context, U, hm₂, ho.mono (hV.trans hU), fun layer' rest' hlayers => ?_, hvs⟩
  subst hlayers
  rw [howner] at hext
  exact hext.trans (.base rfl (.refl _))

end Constructors

/-- A member that is called in a typed machine comes to its body with the locals of the checker. -/
theorem Leads.typedAt_start (hstep : Leads eng M N) (hsound : M.Sound eng.table True)
    (hm : M.machine.Typed eng.table κ W L₀) (ha : M.activity.Typed eng.table W)
    (hN : N.activity.isCode = true) {κ' : Context StandardFn}
    (hs : M.activity.entered? = some (s, κ')) (hopens : p.Opens eng.table s.member ctx L) :
    ∃ V, N.TypedAt eng.table ctx L κ' V := by
  have hsame := hstep
  have hbodyOwner : ∀ {body superArguments}, s.member.body = .declared body superArguments →
      s.member.owner = s.owner.name := fun hbody =>
    (h.runsChecked.exists_opens (hsound.selected hs) hbody).1
  cases hstep with
  | methodBody hbody hbind =>
    cases hs
    rw [Engine.enterMethod, ha.1.boundGenerics] at hbind
    obtain ⟨hruns, V, -, hm₁⟩ :=
      (hm.pushFrame eng _).started h hopens (hbodyOwner hbody) ha.1 hbind
    exact ⟨V, hsame.typedAt_of_machine h hsound rfl hN hopens hruns hm₁⟩
  | superArguments hbody hrest hbind =>
    cases hs
    obtain ⟨V, -, htyped⟩ := typedAt_superArguments h hm ha hsound hbody hrest hopens hbind
    exact ⟨V, htyped⟩
  | derivedBody hbody hrest hbind heval hbase =>
    cases hs
    obtain ⟨hruns, V, hm₂, ho, hchain, hvs⟩ :=
      typed_superArguments h hm ha hsound hbody hrest hopens hbind heval
    obtain ⟨U, -, hm₃, -⟩ := (Engine.gives_runConstructors h (Calls.typed_atDepth h _) _ ho
      hchain hvs).ok hm₂ hbase
    exact ⟨U, hsame.typedAt_of_machine h hsound rfl hN hopens hruns hm₃⟩
  | rootBody hbody hbind =>
    cases hs
    obtain ⟨hruns, V, -, hm₁⟩ :=
      (hm.pushFrame eng _).started h hopens (hbodyOwner hbody) ha.1 hbind
    exact ⟨V, hsame.typedAt_of_machine h hsound rfl hN hopens hruns hm₁⟩
  | _ => first | (cases hs; done) | cases hN

/-! ## Steps outside of bodies -/

/-- The native functions that members run are careful. -/
theorem IsTypedInvocation.prudent (hs : IsTypedInvocation eng.table W s this args)
    (hmember : s.member ∈ s.owner.own.template.methods ∨
      s.member ∈ s.owner.own.template.constructors)
    (hmakes : ∀ o : ObjectRef StandardFn, o.In W → eng.table.Makes o.cls) {f : StandardFn}
    (hbody : s.member.body = .native f) (span : Span) :
    (f.perform ⟨s.owner, this, args, span⟩).Prudent eng.table W := by
  have hnative : ∀ {n : NativeClass StandardFn}, n ∈ standard.classes → n.fullName = s.owner.name →
      ∀ {m : NativeMember StandardFn}, m ∈ n.methods ++ n.constructors →
      s.member = .ofNative n.fullName m →
      (f.perform ⟨s.owner, this, args, span⟩).Prudent eng.table W := by
    intro n hn hname m hm heq
    rw [heq] at hbody
    cases hbody
    exact .careful (Engine.careful_native h hn hm hname heq hs span hmakes)
  rcases hmember with hmember | hmember
  · rcases h.method_cases hs.serves.offers hmember with
      ⟨n, hn, hname, m, hm, heq⟩ | ⟨d, -, -, m, -, heq⟩
    · exact hnative hn hname hm heq
    · rw [heq] at hbody
      cases hbody
  · rcases h.constructor_cases hs.serves.offers hmember with
      ⟨n, hn, hname, m, hm, heq⟩ | ⟨d, -, -, k, -, heq⟩
    · exact hnative hn hname hm heq
    · rw [heq] at hbody
      cases hbody

/-- What is no part of a body leads, outside of bodies, to what it may lead to. -/
theorem Leads.typed_of_activity (hstep : Leads eng M N) (hsound : M.Sound eng.table True)
    (hm : M.machine.Typed eng.table κ W L₀) (ha : M.activity.Typed eng.table W)
    (hN : N.activity.isCode = false) : N.Typed eng.table := by
  cases hstep with
  | run _ => exact .activity (hm.pushFrame eng _) rfl
  | callStatic hresolve hview =>
    cases ha
    obtain ⟨k, hk⟩ := ClassTable.arity?_of_resolve? h.build hresolve
    obtain ⟨tm, htm, -⟩ := ClassTable.get?_of_arity? hk
    obtain ⟨V, -, hm₁, hviews⟩ := (Engine.gives_staticView h htm _).ok hm hview
    exact .activity hm₁ ⟨.shown ⟨_, hviews⟩ rfl, .static _, .nil⟩
  | construct => exact ha.elim
  | call hresolve =>
    obtain ⟨hserves, hreceives, hargs⟩ := ha
    exact .activity hm (Engine.typed_invocation h hserves hreceives hargs
      (fun o ho => hm.makes ho) hresolve)
  | methodNative hbody =>
    exact .activity (hm.pushFrame eng _)
      (ha.1.prudent h (.inl ha.2) (fun o ho => hm.makes ho) hbody _)
  | constructorNative hbody =>
    exact .activity (hm.pushFrame eng _)
      (ha.1.prudent h (.inr ha.2.1) (fun o ho => hm.makes ho) hbody _)
  | methodParameters _ | constructorParameters _ => exact .parameters rfl
  | nextParameter _ => exact ha.elim
  | construction hallocate =>
    obtain ⟨hmakes, hformed, hargs⟩ := ha
    obtain ⟨V, hV, hm₁, ho, hcls⟩ := (Engine.gives_allocate h hmakes hformed _).ok hm hallocate
    refine .activity hm₁ ⟨ho, fun layer rest hlayers => ?_, hargs.imp fun _ _ hv => hv.mono hV⟩
    cases hlayers
    rw [hcls]
    exact .refl _
  | constructor hresolve =>
    obtain ⟨ho, hchain, hargs⟩ := ha
    have hchain := hchain _ _ rfl
    obtain ⟨howner, hs, hmember⟩ := Engine.typed_initialization h ho hchain (hm.makes ho)
      (hm.formed_object ho) hargs hresolve
    exact .activity hm ⟨hs, hmember, howner ▸ hchain, _, howner⟩
  | defaultConstructor _ =>
    obtain ⟨ho, hchain, -⟩ := ha
    refine .activity hm ⟨ho, fun layer rest hlayers => ?_, .nil⟩
    subst hlayers
    exact (hchain _ _ rfl).trans (.base rfl (.refl _))
  | baseConstructors hbody hrest hbind heval =>
    obtain ⟨howner, ctx, L, hopens⟩ :=
      h.runsChecked.exists_opens (hsound.selected rfl) hbody
    obtain ⟨-, V, hm₂, hconstructors⟩ :=
      typed_superArguments h hm ha hsound hbody hrest hopens hbind heval
    exact .activity hm₂ hconstructors
  | hostWrite hwrite =>
    cases ha with
    | careful hx =>
      cases hx with
      | write _ hnext =>
        obtain ⟨V, hV, hm₁, -⟩ := (Engine.gives_write _).ok hm hwrite
        exact .activity hm₁ (.careful (hnext V hV))
  | hostClass hclass =>
    cases ha with
    | careful hx => cases hx
    | classOf hty hnext =>
      obtain ⟨V, hV, hm₁, hc⟩ := (Engine.gives_classOf_formed h hty _).ok hm hclass
      exact .activity hm₁ (hnext V _ hV hc)
  | hostAllocate hallocate =>
    cases ha with
    | careful hx =>
      cases hx with
      | allocate hc hformed hnext =>
        obtain ⟨V, hV, hm₁, ho, hcls⟩ := (Engine.gives_allocate h hc hformed _).ok hm hallocate
        exact .activity hm₁ (.careful (hnext V _ hV ho hcls))
  | hostConstruct =>
    cases ha with
    | careful hx => cases hx
    | construct hc hformed _ => exact .activity hm ⟨hc, hformed, .nil⟩
  | hostConstructed hconstruct =>
    cases ha with
    | careful hx => cases hx
    | construct hc hformed hnext =>
      obtain ⟨V, hV, hm₁, -⟩ :=
        ((Calls.typed_atDepth h _).construct _ hc hformed .nil).ok hm hconstruct
      exact .activity hm₁ (hnext V _ hV)
  | hostRead =>
    cases ha with
    | careful hx =>
      cases hx with
      | getState ho hnext =>
        obtain ⟨i, hi, hvalid, hsuits⟩ := hm.instance_of ho
        refine .activity hm (.careful (hnext W _ (.refl W) fun state hstate => ?_))
        rw [hi] at hstate
        exact ⟨(hvalid.host state hstate).1, hsuits.hostState hstate⟩
  | hostKeep =>
    cases ha with
    | careful hx =>
      cases hx with
      | setState ho hlist hvalid hsuits hnext =>
        exact .activity (hm.modifyObject ho (fun i hi => hi.setHost hlist hvalid)
          fun i _ hi => hi.setHost hsuits) (.careful (hnext W (.refl W)))
  | hostDepth =>
    cases ha with
    | careful hx => cases hx
  | staticField howner hread hlower hclass =>
    obtain ⟨hext, k, hk, hfield⟩ := Engine.staticFieldOwner?_eq_some rfl rfl howner
    obtain ⟨-, -, hinit, hlowered⟩ := ClassTable.staticField_standard h.build
      (ClassTable.Offers.extends ha hext).get? hk hfield
    cases hlower.symm.trans hlowered
    have hformed := h.formed_kind Kind.printStream.typeName_mem_names
    obtain ⟨V, -, hm₁, -⟩ := (Engine.gives_classOf_formed h hformed _).ok hm hclass
    rw [hinit]
    exact .activity hm₁ (StandardFn.prudent_systemOut h V _)
  | _ => first | exact ha.elim | cases hN

/-! ## Steps out of bodies -/

omit h in
/-- A value that is a class is one that the table has. -/
theorem Machine.Typed.offers_of_eval (hbuild : ClassTable.build p standard = .ok eng.table) {n : Nat}
    {m m₁ : Machine StandardFn} (hm : m.Typed eng.table κ W L) {e : Expr}
    {k c : RuntimeClass StandardFn} (heval : eng.eval (.atDepth eng n) e m = .ok ⟨k, .cls c⟩ m₁) :
    eng.table.Offers c := by
  obtain ⟨V, -, -, hv⟩ := (Engine.sustains_eval hbuild
    (Calls.sustained_atDepth hbuild True n) e).ok hm.valid heval
  exact hv.value

/-- A part of a body makes objects, calls methods and reads static fields as it may. -/
theorem Leads.typed_of_code (hstep : Leads eng M N) (hM : M.TypedAt eng.table ctx L κ W)
    (hN : N.activity.isCode = false) : N.Typed eng.table := by
  have hcode := hM.isCode
  obtain ⟨hm, hctx, haccepts, hcasts, -⟩ := hM
  cases hstep with
  | steppedStatic heval | fieldStatic heval =>
    obtain ⟨V, -, hm₁, -⟩ := (Engine.gives_evaluable h hctx _ (haccepts.first rfl)
      (Expr.eachType_first hcasts rfl)).ok hm heval
    exact .activity hm₁ (hm.offers_of_eval h.build heval)
  | newObject hty heval =>
    obtain ⟨hκ, -⟩ := hctx
    obtain ⟨o, ho⟩ := haccepts.exists_operand (by simp)
    rw [BodyContext.operand] at ho
    simp only [Activity.EachType, Expr.EachType] at hcasts
    obtain ⟨made, hmade, ho⟩ := ok_of_bind ho
    have hlower := typed_ok hmade
    split at ho
    · obtain ⟨tys, htys, -⟩ := ok_of_bind ho
      obtain ⟨V, -, hm₁, hc⟩ := (Engine.gives_resolveType h hlower).ok hm hty
      obtain ⟨U, -, hm₂, hvs⟩ :=
        (Engine.gives_evalAll h (Calls.typed_atDepth h _) hκ htys hcasts.2).ok hm₁ heval
      exact .activity hm₂ ⟨hc.makes, hc.asTy_eq ▸ ClassTable.formed_of_lower hlower, hvs.1⟩
    · cases ho
  | callMethod heval hargs htarget =>
    obtain ⟨hκ, -⟩ := hctx
    have hcalls := Calls.typed_atDepth h
    simp only [Activity.EachType, Expr.EachType] at hcasts
    obtain ⟨ret, hret⟩ := BodyContext.Evaluable.callType haccepts
    obtain ⟨o, ho, hret⟩ := ok_of_bind hret
    obtain ⟨owner, howner, hret⟩ := ok_of_bind hret
    obtain ⟨tys, htys, hret⟩ := ok_of_bind hret
    obtain ⟨V, -, hm₁, hr⟩ := (Engine.gives_eval h (hcalls _) hκ ho hcasts.1).ok hm heval
    obtain ⟨U, hU, hm₂, hvs⟩ :=
      (Engine.gives_evalAll h (hcalls _) hκ htys hcasts.2).ok hm₁ hargs
    obtain ⟨T, hT, hm₃, hserves, hreceives, -⟩ := (Engine.gives_callTarget h (hr.mono hU) howner
      hvs.1 hvs.2 hret).ok hm₂ htarget
    exact .activity hm₃ ⟨hserves, hreceives, hvs.1.imp fun _ _ hv => hv.mono hT⟩
  | _ => first | (cases hcode; done) | cases hN

/-! ## Runs -/

/-- A typed moment leads to typed moments only. -/
theorem Leads.typed (hstep : Leads eng M N) (hsound : M.Sound eng.table True)
    (hM : M.Typed eng.table) : N.Typed eng.table := by
  cases hN : N.activity.isCode with
  | false =>
    cases hM with
    | activity hm ha => exact hstep.typed_of_activity h hsound hm ha hN
    | code hM => exact hstep.typed_of_code h hM hN
    | parameters hparameters =>
      cases hstep with
      | nextParameter _ => exact .parameters rfl
      | _ => cases hparameters
  | true =>
    cases hM with
    | code hM =>
      obtain ⟨L', hL', -⟩ := hstep.accepts hM.isCode hN hM.accepts
      obtain ⟨V, hN⟩ := hstep.typedAt h hM.isCode hN hL' hM
      exact .code hN
    | activity hm ha =>
      rcases hstep.isCode_or_entered hN with hcode | ⟨s, κ', hs⟩
      · cases ha.isCode.symm.trans hcode
      · obtain ⟨body, superArguments, hbody, -⟩ := (hstep.enters hsound.fit hs hN).code
        obtain ⟨-, ctx, L, hopens⟩ := h.runsChecked.exists_opens (hsound.selected hs) hbody
        obtain ⟨V, hN⟩ := hstep.typedAt_start h hsound hm ha hN hs hopens
        exact .code hN
    | parameters hparameters =>
      rcases hstep.isCode_or_entered hN with hcode | ⟨s, κ', hs⟩
      · rw [hparameters] at hcode
        cases hcode
      · rw [hparameters] at hs
        cases hs

theorem Reaches.typed (hreach : Reaches eng M N) (hsound : M.Sound eng.table True)
    (hM : M.Typed eng.table) : N.Typed eng.table := by
  induction hreach with
  | refl => exact hM
  | tail hreach hstep ih => exact hstep.typed h (Reaches.sound h.build hreach hsound) ih

/-- A part of a body finds the locals with which the checker comes to it. -/
theorem Occurs.typedAt (hsound : M.Sound eng.table True) (hM : M.Typed eng.table)
    (hN : Occurs eng p eng.table M ctx L N) : ∃ κ W, N.TypedAt eng.table ctx L κ W := by
  induction hN with
  | @opens M₁ N member ctx L hreach hmember hstep hcode hopens =>
    obtain ⟨s, κ, hs, rfl⟩ := Activity.exists_entered? hmember
    have hsound₁ := Reaches.sound h.build hreach hsound
    cases hreach.typed h hsound hM with
    | activity hm ha =>
      obtain ⟨V, hN⟩ := hstep.typedAt_start h hsound₁ hm ha hcode hs hopens
      exact ⟨κ, V, hN⟩
    | parameters hparameters =>
      rw [hparameters] at hs
      cases hs
    | code hM₁ =>
      have hcode₁ := hM₁.isCode
      generalize M₁.activity = a at hs hcode₁
      cases a <;> first | (cases hs; done) | cases hcode₁
  | inner hM₁ hstep hcode hL' ih =>
    obtain ⟨κ, W, htyped⟩ := ih
    obtain ⟨V, hN⟩ := hstep.typedAt h hM₁.isCode hcode hL' htyped
    exact ⟨κ, V, hN⟩

end Runs

end Middleweight
