import Middleweight.Proofs.World.Activity

/-!
# Valid moments

An activity that starts with what it may start with leads to such activities only, each in a valid
machine. So a valid moment reaches valid moments only.

* `Activity.Valid` : what an activity may start with
* `Activity.sustains_perform` : carrying an activity out
* `Leads.validFrom`, `Reaches.validFrom` : one step, and any number of them
-/

namespace Middleweight

variable {F : Type}

/-- An operation that a host can ask for in a world; a strict one does not ask for open types. -/
def HostOperation.Valid (t : ClassTable F) (strict : Prop) (W : World F) (op : HostOperation F) :
    Prop :=
  (∃ given : List (ObjectRef F), (∀ o ∈ given, o.In W) ∧ op.Allowed t strict given) ∧
    (strict → ∀ ty span, op = .classOf ty span → ty.firstUnbound? = none)

/-- What an activity may start with. -/
def Activity.Valid (t : ClassTable F) (strict : Prop) (W : World F) : Activity F → Prop
  | operation op => op.Valid t strict W
  | call c this _ isStatic args argTypes _ => IsCall t strict W c this isStatic args argTypes
  | method s this args _ => IsInvocation t strict W s this args
  | construction c args argTypes _ => IsConstruction t strict W c args argTypes
  | constructors o isStaticView layers args argTypes _ =>
    o.In W ∧ (∀ v ∈ args, v.Passed t W) ∧ ∀ layer rest, layers = layer :: rest →
      IsInitialization t W o ⟨isStaticView, layer, rest⟩ args argTypes
  | constructor s o isStaticView rest args _ =>
    IsInvocation t strict W s (.object o) args ∧ ∃ layer, o.cls.Extends ⟨isStaticView, layer, rest⟩
  | parameters bindings params args _ =>
    (strict → ∀ q ∈ params, (q.ty.substitute bindings).IsGround) ∧ ∀ v ∈ args, v.Passed t W
  | host program _ => program.Sound t strict (fun V v => v.Valid t V) W
  | staticField c _ _ => t.Offers c
  | expression _ | expressions _ | statement _ | statements _ | rounds _ _ _ _ => True

/-- A moment whose activity starts with what it may start with, in a valid machine. -/
def Moment.Valid (t : ClassTable F) (strict : Prop) (M : Moment F) : Prop :=
  ∃ W, M.machine.Valid t strict W ∧ M.activity.Valid t strict W

/-- A moment that is valid in a world that has grown from a given one. -/
def Moment.ValidFrom (t : ClassTable F) (strict : Prop) (W : World F) (M : Moment F) : Prop :=
  ∃ V, W.Grows V ∧ M.machine.Valid t strict V ∧ M.activity.Valid t strict V

/-- A moment that is in order from a later world on is so from an earlier one on. -/
theorem Moment.ValidFrom.after {t : ClassTable F} {strict : Prop} {W V : World F} {M : Moment F}
    (hV : W.Grows V) (h : M.ValidFrom t strict V) : M.ValidFrom t strict W := by
  obtain ⟨U, hU, hvalid⟩ := h
  exact ⟨U, hV.trans hU, hvalid⟩

variable {eng : Engine StandardFn} {strict : Prop} {W : World StandardFn} {p : Program}

/-! ## Carrying activities out -/

theorem ReturnsValid.passed {t : ClassTable StandardFn} {flow : Flow StandardFn}
    (h : Engine.ReturnsValid t strict W flow) : ∀ v ∈ flow.variables, v.Passed t W := by
  cases flow with
  | normal => exact fun _ hv => absurd hv List.not_mem_nil
  | returned r => exact fun v hv => (h v (Option.mem_toList.mp hv)).passed

theorem passed_toList {t : ClassTable StandardFn} {r : Option (Variable StandardFn)}
    (h : ∀ v, r = some v → v.Stored t W) : ∀ v ∈ r.toList, v.Passed t W :=
  fun v hv => (h v (Option.mem_toList.mp hv)).passed

theorem passed_singleton {t : ClassTable StandardFn} {w : Variable StandardFn}
    (h : w.Passed t W) : ∀ v ∈ [w], v.Passed t W :=
  fun _ hv => List.mem_singleton.mp hv ▸ h

namespace Engine

variable {calls : Calls StandardFn} (h : ClassTable.build p .standard = .ok eng.table)
  (hcalls : calls.Sustained eng strict)

include h hcalls

/-- The constructors of a base are run on an object of a class that extends it. -/
theorem sustains_constructBase {o : ObjectRef StandardFn} {isStaticView : Bool}
    {layer : Layer StandardFn} {rest : List (Layer StandardFn)}
    (hchain : o.cls.Extends ⟨isStaticView, layer, rest⟩) (ho : o.In W) :
    ∀ construct ∈ eng.constructBase calls o isStaticView rest, ∀ V vs tys sp, W.Grows V →
      (∀ v ∈ vs, v.Passed eng.table V) → Ty.AllGround tys →
      eng.Sustains strict V (construct vs tys sp) fun _ _ => True := by
  intro construct hc V vs tys sp hV hvs htys
  unfold constructBase at hc
  split at hc
  · cases hc
  · cases hc
    refine sustains_runConstructors h hcalls sp fun layer' rest' hlayers => ?_
    subst hlayers
    exact ⟨ho.mono hV, hchain.trans (.base rfl (.refl _)), hvs, htys⟩

theorem sustains_execUpdate (u : Option Stmt) :
    eng.Sustains strict W (eng.execUpdate calls u) fun _ _ => True := by
  cases u with
  | none => exact .pure trivial
  | some s => exact (sustains_exec h hcalls s).bind fun _ _ _ _ => .pure trivial

/-- A loop started with any number of rounds sustains what its parts do. -/
theorem sustains_loop (test : Expr) (body : List Stmt) (u : Option Stmt) (n : Nat) :
    eng.Sustains strict W (eng.loop calls test body u n) (ReturnsValid eng.table strict) :=
  sustains_rounds (sustains_condition h hcalls test) (.nested (sustains_execBlock h hcalls body))
    (sustains_execUpdate h hcalls u) n

end Engine

/-- An activity sustains validity, and the variables that it results in are valid. -/
theorem Activity.sustains_perform (h : ClassTable.build p .standard = .ok eng.table) (n : Nat)
    {a : Activity StandardFn} (ha : a.Valid eng.table strict W) :
    eng.Sustains strict W (a.perform eng n) fun V vs => ∀ v ∈ vs, v.Passed eng.table V := by
  have hcalls := Calls.sustained_atDepth h strict n
  have hnil : ∀ V : World StandardFn, ∀ v ∈ ([] : List (Variable StandardFn)),
      v.Passed eng.table V := fun _ _ hv => absurd hv List.not_mem_nil
  cases a with
  | operation op =>
    obtain ⟨⟨given, hgiven, hop⟩, hty⟩ := ha
    exact (HostOperation.sustains_perform h hgiven hop hty).bind fun _ _ _ _ => .pure (hnil _)
  | call c this name isStatic args argTypes span =>
    exact (hcalls.dispatch name span ha).map fun _ _ _ hv => passed_toList hv
  | method s this args span =>
    exact (Engine.sustains_invoke h hcalls ha span).map fun _ _ _ hv => passed_toList hv
  | construction c args argTypes span =>
    refine (hcalls.construct span ha).map fun V o _ ho v hv => ?_
    rw [List.mem_singleton.mp hv]
    exact ⟨ho.2 ▸ ha.cls.offers, ho.1⟩
  | constructors o isStaticView layers args argTypes span =>
    exact (Engine.sustains_runConstructors h hcalls span ha.2.2).bind fun _ _ _ _ => .pure (hnil _)
  | constructor s o isStaticView rest args span =>
    obtain ⟨hs, layer, hchain⟩ := ha
    exact (Engine.sustains_runConstructor h hcalls hs span
      (Engine.sustains_constructBase h hcalls hchain hs.valid)).bind fun _ _ _ _ => .pure (hnil _)
  | parameters bindings params args span =>
    exact (Engine.sustains_bindParameters (ClassTable.closed_of_build h) span ha.1 ha.2).bind
      fun _ _ _ _ => .pure (hnil _)
  | host program span =>
    exact (Engine.sustains_runHost (ClassTable.closed_of_build h) hcalls span ha).bind
      fun _ _ _ _ => .pure (hnil _)
  | staticField c name span =>
    exact (Engine.sustains_staticField h hcalls ha name span).map fun _ _ _ hv =>
      passed_singleton hv.passed
  | expression e =>
    exact (Engine.sustains_eval h hcalls e).map fun _ _ _ hv => passed_singleton hv.passed
  | expressions es =>
    exact (Engine.sustains_evalAll h hcalls es).mono fun _ _ _ hvs v hv => (hvs v hv).passed
  | statement s =>
    exact (Engine.sustains_exec h hcalls s).map fun _ _ _ hf => ReturnsValid.passed hf
  | statements ss =>
    exact (Engine.sustains_execBlock h hcalls ss).map fun _ _ _ hf => ReturnsValid.passed hf
  | rounds test body u k =>
    exact (Engine.sustains_loop h hcalls test body u k).map fun _ _ _ hf => ReturnsValid.passed hf

/-! ## One step -/

theorem Machine.Valid.inner {t : ClassTable F} {W : World F} {m : Machine F}
    (h : m.Valid t strict W) : m.inner.Valid t strict W :=
  h.withScope h.scope.push

/-- Entering a method keeps a machine in order. -/
theorem Machine.Valid.enterMethod {W : World F} {eng : Engine F} {m : Machine F}
    (h : m.Valid eng.table strict W) {s : Selected F (RuntimeClass F)} {this : Value F}
    {args : List (Variable F)} (hs : IsInvocation eng.table strict W s this args) (span : Span) :
    (eng.enterMethod s this span m).Valid eng.table strict W :=
  (h.pushFrame eng _).withScope hs.scope

/-- Entering a constructor keeps a machine in order. -/
theorem Machine.Valid.enterConstructor {W : World F} {eng : Engine F} {m : Machine F}
    (h : m.Valid eng.table strict W) {s : Selected F (RuntimeClass F)} {o : ObjectRef F}
    {args : List (Variable F)} (hs : IsInvocation eng.table strict W s (.object o) args)
    (span : Span) : (eng.enterConstructor s o span m).Valid eng.table strict W :=
  (h.pushFrame eng _).withScope hs.constructorScope

/-- A moment after a computation that ended well. -/
theorem Moment.ValidFrom.of_ok {α : Type} {x : EvalM StandardFn α}
    {Q : World StandardFn → α → Prop} (hx : eng.Sustains strict W x Q)
    {m m' : Machine StandardFn} (hm : m.Valid eng.table strict W) {r : α} (h : x m = .ok r m')
    (n : Nat) {a : Activity StandardFn} (ha : ∀ V, W.Grows V → Q V r → a.Valid eng.table strict V) :
    Moment.ValidFrom eng.table strict W ⟨n, a, m'⟩ := by
  obtain ⟨V, hV, hm', hq⟩ := hx.ok hm h
  exact ⟨V, hV, hm', ha V hV hq⟩

/-- What a moment leads to is valid in a world that has grown from that of the moment. -/
theorem Leads.validFrom (h : ClassTable.build p .standard = .ok eng.table) {M N : Moment StandardFn}
    (hstep : Leads eng M N) (hm : M.machine.Valid eng.table strict W)
    (ha : M.activity.Valid eng.table strict W) : N.ValidFrom eng.table strict W := by
  have ht := ClassTable.closed_of_build h
  have hcalls := Calls.sustained_atDepth h strict
  cases hstep with
  | run => exact ⟨W, .refl W, hm.pushFrame eng _,
      ⟨[], fun _ ho => absurd ho List.not_mem_nil, fun _ hv => absurd hv List.not_mem_nil⟩,
      fun _ _ _ heq => nomatch heq⟩
  | callStatic _ hview =>
    obtain ⟨⟨given, hgiven, hop⟩, -⟩ := ha
    exact .of_ok (Engine.sustains_staticView _ _) hm hview _ fun V hV hshows =>
      .ofView hshows fun v hv => ((hop v hv).passed hgiven).mono hV
  | construct =>
    obtain ⟨⟨given, hgiven, hop⟩, -⟩ := ha
    have hpassed := fun v hv => (hop.2 v hv).passed hgiven
    exact ⟨W, .refl W, hm, hop.1, hpassed, allGround_declaredTypes hpassed⟩
  | call hresolve => exact ⟨W, .refl W, hm, ha.invocation hresolve⟩
  | methodNative hbody =>
    exact ⟨W, .refl W, hm.pushFrame eng _,
      StandardFn.sound_perform (ha.hostCall h (fun _ ho => hm.creates ho) hbody _)⟩
  | methodParameters hbody =>
    exact ⟨W, .refl W, hm.enterMethod ha _, fun hs q hq =>
      (ha.selected.sound hs).isGround_param (ha.bindsAll hs) hq, ha.args⟩
  | methodBody hbody hbind =>
    exact .of_ok (Engine.sustains_methodParameters ht ha _) (hm.enterMethod ha _) hbind _
      fun _ _ _ => trivial
  | nextParameter hclass =>
    have hty : strict → _ := fun hs =>
      Ty.firstUnbound?_of_isGround (ha.1 hs _ List.mem_cons_self)
    obtain ⟨V, hV, hm₁, hc⟩ := (Engine.sustains_classOf ht hty _).ok hm hclass
    have hv := (ha.2 _ List.mem_cons_self).value.mono hV
    exact ⟨V, hV, hm₁.withScope (hm₁.scope.define _ ⟨hc.1, hv⟩),
      fun hs q hq => ha.1 hs q (List.mem_cons_of_mem _ hq),
      fun v hv => (ha.2 v (List.mem_cons_of_mem _ hv)).mono hV⟩
  | construction hallocate =>
    refine .of_ok (Engine.sustains_allocate ht ha.cls _) hm hallocate _ fun V hV ho => ?_
    have hargs := fun v hv => (ha.args v hv).mono hV
    refine ⟨ho.1, hargs, fun layer rest hlayers => ?_⟩
    cases hlayers
    exact ⟨ho.1, ho.2 ▸ .refl _, hargs, ha.argTypes⟩
  | constructor hresolve =>
    have hinit := ha.2.2 _ _ rfl
    have hcreates := (hm.creates hinit.object).extends hinit.chain
    exact ⟨W, .refl W, hm, (hinit.invocation hcreates hresolve).2, _, hinit.chain⟩
  | defaultConstructor =>
    have hinit := ha.2.2 _ _ rfl
    refine ⟨W, .refl W, hm, ha.1, fun _ hv => absurd hv List.not_mem_nil, fun layer rest hlayers => ?_⟩
    subst hlayers
    exact ⟨hinit.object, hinit.chain.trans (.base rfl (.refl _)),
      fun _ hv => absurd hv List.not_mem_nil, Ty.allGround_nil⟩
  | constructorNative hbody =>
    exact ⟨W, .refl W, hm.pushFrame eng _,
      StandardFn.sound_perform (ha.1.hostCall h (fun _ ho => hm.creates ho) hbody _)⟩
  | constructorParameters hbody =>
    exact ⟨W, .refl W, hm.enterConstructor ha.1 _, fun hs q hq =>
      (ha.1.selected.sound hs).isGround_param (Bindings.bindsAll_complete_nil _) hq, ha.1.args⟩
  | superArguments hbody hrest hbind =>
    exact .of_ok (Engine.sustains_constructorParameters ht ha.1 _) (hm.enterConstructor ha.1 _)
      hbind _ fun _ _ _ => trivial
  | baseConstructors hbody hrest hbind heval =>
    obtain ⟨hs, layer, hchain⟩ := ha
    obtain ⟨V, hV, hm₁, -⟩ :=
      (Engine.sustains_constructorParameters ht hs _).ok (hm.enterConstructor hs _) hbind
    refine .after hV <| .of_ok (Engine.sustains_evalAll h (hcalls _) _) hm₁ heval _
      fun U hU hvs => ?_
    have hpassed := fun v hv => (hvs v hv).passed
    refine ⟨hs.valid.mono (hV.trans hU), hpassed, fun layer' rest' hlayers => ?_⟩
    subst hlayers
    exact ⟨hs.valid.mono (hV.trans hU), hchain.trans (.base rfl (.refl _)), hpassed,
      Engine.allGround_argumentTypes hpassed⟩
  | derivedBody hbody hrest hbind heval hbase =>
    obtain ⟨hs, layer, hchain⟩ := ha
    obtain ⟨V, hV, hm₁, -⟩ :=
      (Engine.sustains_constructorParameters ht hs _).ok (hm.enterConstructor hs _) hbind
    obtain ⟨U, hU, hm₂, hvs⟩ :=
      (Engine.sustains_evalAll h (hcalls _) _).ok hm₁ heval
    have hpassed := fun v hv => (hvs v hv).passed
    refine .after (hV.trans hU) <| .of_ok (Engine.sustains_runConstructors h (hcalls _) _
      fun layer' rest' hlayers => ?_) hm₂ hbase _ fun _ _ _ => trivial
    subst hlayers
    exact ⟨hs.valid.mono (hV.trans hU), hchain.trans (.base rfl (.refl _)), hpassed,
      Engine.allGround_argumentTypes hpassed⟩
  | rootBody hbody hbind =>
    exact .of_ok (Engine.sustains_constructorParameters ht ha.1 _) (hm.enterConstructor ha.1 _)
      hbind _ fun _ _ _ => trivial
  | hostWrite hwrite =>
    cases ha with
    | write _ hnext => exact .of_ok (Engine.sustains_write _) hm hwrite _ fun V hV _ => hnext V hV
  | hostClass hclass =>
    cases ha with
    | classOf hty hnext =>
      refine .of_ok (Engine.sustains_classOf ht (fun _ => Ty.firstUnbound?_of_isGround hty) _) hm
        hclass _ fun V hV hc => hnext V _ hV hc.1 ?_
      rw [hc.2, Ty.resolved_of_isGround hty]
  | hostAllocate hallocate =>
    cases ha with
    | allocate hc hnext =>
      exact .of_ok (Engine.sustains_allocate ht hc _) hm hallocate _
        fun V hV ho => hnext V _ hV ho.1 ho.2
  | hostConstruct =>
    cases ha with
    | construct hc hnext => exact ⟨W, .refl W, hm, hc⟩
  | hostConstructed hconstruct =>
    cases ha with
    | construct hc hnext =>
      exact .of_ok ((hcalls _).construct _ hc) hm hconstruct _
        fun V hV ho => hnext V _ hV ho.1 ho.2
  | hostRead =>
    cases ha with
    | getState ho hnext =>
      obtain ⟨i, hi, hvalid⟩ := hm.contents ho
      refine ⟨W, .refl W, hm, hnext W _ (.refl W) fun x hx => ?_⟩
      rw [hi] at hx
      exact (hvalid.host x hx).1
  | hostKeep =>
    cases ha with
    | setState ho hlist hs hnext =>
      exact ⟨W, .refl W, hm.modifyObject ho fun i hi => hi.setHost hlist hs, hnext W (.refl W)⟩
  | hostDepth =>
    cases ha with
    | depth hnext => exact ⟨W, .refl W, hm, hnext W _ (.refl W)⟩
  | staticField howner hread hlower hclass =>
    obtain ⟨hext, n, hn, hfield⟩ := Engine.staticFieldOwner?_eq_some rfl rfl howner
    obtain ⟨-, -, hinit, hlowered⟩ :=
      ClassTable.staticField_standard h (ha.extends hext).get? hn hfield
    cases hlower.symm.trans hlowered
    have hground : (Ty.named Ty.printStreamName).IsGround := Ty.isGround_cls.mpr Ty.allGround_nil
    refine .of_ok (Engine.sustains_classOf ht (fun _ => Ty.firstUnbound?_of_isGround hground) _) hm
      hclass _ fun V _ _ => StandardFn.sound_perform ⟨trivial, (fun _ ho => nomatch ho),
        (fun _ hv => absurd hv List.not_mem_nil), fun hlist => ?_⟩
    rw [hinit] at hlist
    cases hlist
  | first => exact ⟨W, .refl W, hm, trivial⟩
  | right heval =>
    exact .of_ok (Engine.sustains_eval h (hcalls _) _) hm heval _
      fun _ _ _ => trivial
  | steppedStatic heval =>
    exact .of_ok (Engine.sustains_eval h (hcalls _) _) hm heval _
      fun _ _ hv => hv.value
  | thenValue heval =>
    exact .of_ok (Engine.sustains_eval h (hcalls _) _) hm heval _
      fun _ _ _ => trivial
  | elseValue heval =>
    exact .of_ok (Engine.sustains_eval h (hcalls _) _) hm heval _
      fun _ _ _ => trivial
  | newArguments hty =>
    exact .of_ok (Engine.sustains_resolveType ht _) hm hty _ fun _ _ _ => trivial
  | newObject hty heval =>
    obtain ⟨V, hV, hm₁, hc⟩ := (Engine.sustains_resolveType ht _).ok hm hty
    refine .after hV <| .of_ok (Engine.sustains_evalAll h (hcalls _) _) hm₁ heval _
      fun U hU hvs => ?_
    have hpassed := fun v hv => (hvs v hv).passed
    exact ⟨.inl hc, hpassed, Engine.allGround_argumentTypes hpassed⟩
  | fieldStatic heval =>
    exact .of_ok (Engine.sustains_eval h (hcalls _) _) hm heval _
      fun _ _ hv => hv.value
  | callArguments heval =>
    exact .of_ok (Engine.sustains_eval h (hcalls _) _) hm heval _
      fun _ _ _ => trivial
  | callMethod heval hargs htarget =>
    obtain ⟨V, hV, hm₁, hr⟩ :=
      (Engine.sustains_eval h (hcalls _) _).ok hm heval
    obtain ⟨U, hU, hm₂, hvs⟩ :=
      (Engine.sustains_evalAll h (hcalls _) _).ok hm₁ hargs
    have hpassed := fun v hv => (hvs v hv).passed
    refine .after (hV.trans hU) <|
      .of_ok (Engine.sustains_callTarget ht (hr.mono hU) _ _) hm₂ htarget _
      fun T hT htarget => ?_
    exact htarget.isCall ((hr.mono hU).value.mono hT) (fun v hv => (hpassed v hv).mono hT)
      (Engine.allGround_argumentTypes hpassed)
  | castValue hty => exact .of_ok (Engine.sustains_resolveType ht _) hm hty _ fun _ _ _ => trivial
  | instanceValue hty =>
    exact .of_ok (Engine.sustains_resolveType ht _) hm hty _ fun _ _ _ => trivial
  | headExpression => exact ⟨W, .refl W, hm, trivial⟩
  | tailExpressions heval =>
    exact .of_ok (Engine.sustains_eval h (hcalls _) _) hm heval _
      fun _ _ _ => trivial
  | firstValue _ htell =>
    exact .of_ok (Engine.sustains_tellStatement _) hm htell _ fun _ _ _ => trivial
  | initialValue htell hty =>
    obtain ⟨V, hV, hm₁, -⟩ := (Engine.sustains_tellStatement _).ok hm htell
    exact .after hV <| .of_ok (Engine.sustains_resolveType ht _) hm₁ hty _ fun _ _ _ => trivial
  | fieldAssignValue htell heval =>
    obtain ⟨V, hV, hm₁, -⟩ := (Engine.sustains_tellStatement _).ok hm htell
    exact .after hV <| .of_ok (Engine.sustains_eval h (hcalls _) _) hm₁ heval _
      fun _ _ _ => trivial
  | thenBranch htell htest =>
    obtain ⟨V, hV, hm₁, -⟩ := (Engine.sustains_tellStatement _).ok hm htell
    obtain ⟨U, hU, hm₂, -⟩ :=
      (Engine.sustains_condition h (hcalls _) _).ok hm₁ htest
    exact ⟨U, hV.trans hU, hm₂.inner, trivial⟩
  | elseBranch htell htest =>
    obtain ⟨V, hV, hm₁, -⟩ := (Engine.sustains_tellStatement _).ok hm htell
    obtain ⟨U, hU, hm₂, -⟩ :=
      (Engine.sustains_condition h (hcalls _) _).ok hm₁ htest
    exact ⟨U, hV.trans hU, hm₂.inner, trivial⟩
  | whileRounds htell =>
    exact .of_ok (Engine.sustains_tellStatement _) hm htell _ fun _ _ _ => trivial
  | forInit htell =>
    obtain ⟨V, hV, hm₁, -⟩ := (Engine.sustains_tellStatement _).ok hm htell
    exact ⟨V, hV, hm₁.inner, trivial⟩
  | forRounds htell hinit =>
    obtain ⟨V, hV, hm₁, -⟩ := (Engine.sustains_tellStatement _).ok hm htell
    exact .after hV <| .of_ok (Engine.sustains_exec h (hcalls _) _) hm₁.inner hinit _
      fun _ _ _ => trivial
  | block htell =>
    obtain ⟨V, hV, hm₁, -⟩ := (Engine.sustains_tellStatement _).ok hm htell
    exact ⟨V, hV, hm₁.inner, trivial⟩
  | headStatement => exact ⟨W, .refl W, hm, trivial⟩
  | tailStatements hexec =>
    exact .of_ok (Engine.sustains_exec h (hcalls _) _) hm hexec _
      fun _ _ _ => trivial
  | test => exact ⟨W, .refl W, hm, trivial⟩
  | round htest =>
    obtain ⟨V, hV, hm₁, -⟩ :=
      (Engine.sustains_condition h (hcalls _) _).ok hm htest
    exact ⟨V, hV, hm₁.inner, trivial⟩
  | update htest hbody =>
    obtain ⟨V, hV, hm₁, -⟩ :=
      (Engine.sustains_condition h (hcalls _) _).ok hm htest
    exact .after hV <| .of_ok (.nested (Engine.sustains_execBlock h (hcalls _) _)) hm₁
      hbody _ fun _ _ _ => trivial
  | again htest hbody hupdate =>
    obtain ⟨V, hV, hm₁, -⟩ :=
      (Engine.sustains_condition h (hcalls _) _).ok hm htest
    obtain ⟨U, hU, hm₂, -⟩ := (Engine.Sustains.nested
      (Engine.sustains_execBlock h (hcalls _) _)).ok hm₁ hbody
    exact .after (hV.trans hU) <| .of_ok (Engine.sustains_execUpdate h (hcalls _) _) hm₂ hupdate _
      fun _ _ _ => trivial

/-- What a moment reaches is valid in a world that has grown from that of the moment. -/
theorem Reaches.validFrom (h : ClassTable.build p .standard = .ok eng.table)
    {M N : Moment StandardFn} (hreach : Reaches eng M N)
    (hM : M.ValidFrom eng.table strict W) : N.ValidFrom eng.table strict W := by
  induction hreach with
  | refl => exact hM
  | tail _ hstep ih =>
    obtain ⟨V, hV, hm, ha⟩ := ih
    exact .after hV (hstep.validFrom h hm ha)

/-- A valid moment reaches valid moments only. -/
theorem Reaches.valid (h : ClassTable.build p .standard = .ok eng.table) {M N : Moment StandardFn}
    (hreach : Reaches eng M N) (hM : M.Valid eng.table strict) : N.Valid eng.table strict := by
  obtain ⟨W, hm, ha⟩ := hM
  obtain ⟨V, -, hvalid⟩ := hreach.validFrom h ⟨W, .refl W, hm, ha⟩
  exact ⟨V, hvalid⟩

end Middleweight
