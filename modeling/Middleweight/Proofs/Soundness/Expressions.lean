import Middleweight.Proofs.Soundness.Names

/-!
# Checked expressions

An expression of a static body that the checker accepts evaluates to what it stands for, or stops
where it may. Calls are resolved twice, by the checker over declared types and by the engine over
the classes of variables; both times the same method is chosen, for the types fit alike.

* `Engine.keeps_callMethod` : calls
* `Engine.keeps_eval` : expressions
-/

namespace Middleweight

/-! ## Values with types -/

section Values

variable {p : Program} {t : ClassTable StandardFn} (h : p.Accepted t)

include h

/-- A value of a kind has a type without arguments. -/
theorem Variable.HasType.cases {v : Variable StandardFn} {ty : Ty} (hv : v.HasType t ty) :
    v.value = .null ∨ ∃ k a, v.value.HasKind t k ∧ a ∈ k.names ∧ ty = .named a := by
  obtain ⟨-, hfits, hknows⟩ := hv
  generalize v.value = x at hfits
  cases hfits with
  | null => exact .inl rfl
  | @kind _ k name args hk hname =>
    obtain ⟨name', args', heq, -, harity⟩ := hknows.exists_cls
    cases heq
    obtain ⟨c, hc, hg⟩ := ClassTable.get?_kind h.build hname
    have hlength : 0 = args.length := by simpa [ClassTable.arity?, hc, hg] using harity
    cases List.length_eq_zero_iff.mp hlength.symm
    exact .inr ⟨k, name, hk, hname, rfl⟩

theorem Kind.knows_of_mem {k : Kind} {a : String} (ha : a ∈ k.names) : t.Knows (.named a) := by
  obtain ⟨c, hc, hg⟩ := ClassTable.get?_kind h.build ha
  exact ClassTable.knows_named hc hg

/-- A value that fits what a type stands for fits what the type fits. -/
theorem Value.Fits.of_check {v : Value StandardFn} {ty expected : Ty}
    (hv : v.Fits t ty.resolved) (hcheck : t.check ty expected = true)
    (hground : expected.IsGround) : v.Fits t expected := by
  rw [← ClassTable.check_resolved] at hcheck
  exact hv.mono h.build hcheck hground

theorem Value.Fits.named {v : Value StandardFn} {ty : Ty} (hv : v.Fits t ty.resolved)
    {x : String} (hx : t.check ty (.named x) = true) : v.Fits t (.named x) :=
  hv.of_check h hx (Ty.isGround_cls.mpr Ty.allGround_nil)

/--
A step keeps the kind of a variable: what it gives has the type that the rule names, and can be
stored in the variable.
-/
theorem Variable.HasType.step {v : Variable StandardFn} {ty : Ty} (hv : v.HasType t ty)
    {x : String} (hx : t.check ty (.named x) = true) {op : StepOp} {next : Value StandardFn}
    (hnext : op.apply v.value = .ok next) (hne : x ≠ Ty.objectName) (before : Bool) :
    next.Fits t ty ∧ (Engine.stepped before v next).HasType t (.named x) := by
  obtain ⟨k, -, hk, hk'⟩ := StepOp.hasKind_of_apply (t := t) hnext
  rcases hv.cases h with hnull | ⟨k', a, ha, hname, rfl⟩
  · rw [hnull] at hk
    cases hk
  · cases hk.unique ha
    have hxname := Kind.mem_names_of_check h.build hname hx
    have hobject : a ≠ Ty.objectName := by
      rintro rfl
      rw [Ty.named, Ty.named, ClassTable.check_cls,
        beq_false_of_ne (Kind.ne_nullName hname), if_neg Bool.false_ne_true, Bool.and_eq_true] at hx
      exact hne ((ClassTable.related_object_iff h.build).mp hx.1)
    have hsame : t.SameFit (.named a) (.named x) :=
      Kind.sameFit h.build hname hxname hobject hne
    refine ⟨.kind [] hk' hname, fun target => (hv.sameFit target).trans (hsame target), ?_,
      Kind.knows_of_mem h hxname⟩
    unfold Engine.stepped
    split
    · exact .kind [] hk' hxname
    · exact .kind [] hk hxname

end Values

namespace Engine

variable {p : Program} {eng : Engine StandardFn} (h : p.Accepted eng.table)
  {calls : Calls StandardFn} {L : Locals} {cls : Template StandardFn} {rt : Option Ty}

/-! ## Literals -/

include h in
theorem keeps_literal (value : Literal) (span : Span) :
    eng.Keeps L (do return (⟨← eng.classOf value.ty span, literalValue value⟩ : Variable StandardFn))
      fun v => v.HasType eng.table value.ty := by
  have hknows : eng.table.Knows value.ty := by
    cases value with
    | int n => exact Kind.knows h.build .int
    | float x => exact Kind.knows h.build .float
    | bool b => exact Kind.knows h.build .boolean
    | string s => exact Kind.knows h.build .string
    | null => exact ClassTable.knows_object h.build
  have hfits : (literalValue value).Fits eng.table value.ty := by
    cases value with
    | int n => exact (Value.HasKind.int n).fits
    | float x => exact (Value.HasKind.float x).fits
    | bool b => exact (Value.HasKind.bool b).fits
    | string s => exact (Value.HasKind.str s).fits
    | null => exact .null _
  exact Keeps.bind (keeps_classOf h.rooted hknows span) fun c hc =>
    Keeps.pure (hc.hasType hknows hfits)

include h in
/-- The literal `null` evaluates to `null`. -/
theorem keeps_eval_null : ∀ {e : Expr}, e.isNullLiteral = true →
    eng.Keeps L (eng.eval calls e) fun v => v.value = .null
  | .literal .null span, _ => by
    rw [eval]
    exact Keeps.bind (keeps_classOf h.rooted (ClassTable.knows_object h.build) span) fun c _ =>
      Keeps.pure rfl
  | .group e span, hnull => by
    rw [eval]
    rw [Expr.isNullLiteral] at hnull
    exact keeps_eval_null hnull

end Engine

/-! ## Calls -/

/-- A method is found, or something else that is not a constructor. -/
theorem MemberSource.methodFrom_ne_defaultConstructor {F O : Type} {src : MemberSource F O}
    {t : ClassTable F} {start : O} {name : String} {isStatic : Bool} {args : List Ty} :
    ∀ {fuel : Nat} {o : O},
    src.methodFrom t start name isStatic args fuel o ≠ .ok .defaultConstructor := by
  intro fuel
  induction fuel with
  | zero => exact fun h => nomatch h
  | succ fuel ih =>
    intro o h
    rw [methodFrom] at h
    split at h
    · cases h
    · split at h
      · cases h
      · split at h
        · cases h
        · exact ih h
        · cases h
      · cases h

theorem BodyContext.callResult_ok {F : Type} {ctx : BodyContext F} {owner : ClassTy × Bool}
    {method : String} {args : List Ty} {span : Span} {ret : Option Ty}
    (h : ctx.callResult owner method args span = .ok ret) :
    ∃ s, ctx.table.staticMembers.resolveMethod ctx.table owner.1 method owner.2 args =
      .ok (.found s) ∧ ret = s.returnType := by
  obtain ⟨resolution, hres, h⟩ := ok_of_bind h
  have hres := typed_ok hres
  cases resolution with
  | found s =>
    cases h
    exact ⟨s, hres, rfl⟩
  | ambiguous a => cases h
  | missing m => cases h
  | defaultConstructor => exact absurd hres MemberSource.methodFrom_ne_defaultConstructor

/-- Arguments that fit the types by which a method was chosen fit its parameters. -/
theorem Selected.IsCallable.fits_params {p : Program} {t : ClassTable StandardFn}
    (h : p.Accepted t) {this : Value StandardFn}
    {s : Selected StandardFn (RuntimeClass StandardFn)} (hs : s.IsCallable p t this)
    {c : RuntimeClass StandardFn} {method : String} {isStatic : Bool} {argTypes tys : List Ty}
    (hfound : t.runtimeMembers.resolveMethod t c method isStatic argTypes = .ok (.found s))
    (hsame : List.Forall₂ t.SameFit argTypes tys) {args : List (Variable StandardFn)}
    (hargs : List.Forall₂ (fun v ty => v.value.Fits t ty.resolved) args tys) :
    List.Forall₂ (fun v q => v.value.Fits t q.ty) args s.signature.params := by
  obtain ⟨-, -, happ⟩ := ClassTable.method_of_found hfound
  have hground := ClassTable.allGround_signature hs.signature hs.params
  have hknows := (ClassTable.knows_signature hs.signature hs.params).1
  have hchecks := (ClassTable.forall₂_of_applicable hground happ).2
  clear happ hground hfound
  -- By induction on the arguments: an argument fits its own type, which passes as the parameter's.
  generalize s.signature.params = qs at hknows hchecks
  induction hsame generalizing args qs with
  | nil =>
    cases hargs
    cases hchecks
    exact .nil
  | cons hty _ ih =>
    cases hargs with
    | cons hv hargs =>
      cases hchecks with
      | cons hcheck hchecks =>
        obtain ⟨hq, hqs⟩ := List.forall_mem_cons.mp hknows
        rw [hty, ← ClassTable.check_resolved] at hcheck
        exact .cons (hv.mono h.build hcheck hq.isGround) (ih hargs _ hqs hchecks)

/-- Where nothing is bound, the declared return type is the type of the call. -/
theorem Selected.IsCallable.returnType_eq {p : Program} {t : ClassTable StandardFn}
    {this : Value StandardFn} {s : Selected StandardFn (RuntimeClass StandardFn)}
    (hs : s.IsCallable p t this) {s₀ : Selected StandardFn ClassTy}
    (hsig : s.signature = s₀.signature) (hbindings : s.bindings = s₀.bindings) :
    s₀.returnType = s.signature.returnType := by
  have hknows := (ClassTable.knows_signature hs.signature hs.params).2
  unfold Selected.returnType
  rw [← hsig, ← hbindings]
  cases hret : s.signature.returnType with
  | none => rfl
  | some ty =>
    have hty : t.Knows ty := hknows ty hret
    rw [Option.map_some, Ty.substitute_of_isGround _ hty.isGround]

namespace Engine

variable {p : Program} {eng : Engine StandardFn} (h : p.Accepted eng.table)
  {calls : Calls StandardFn} {L : Locals} {cls : Template StandardFn} {rt : Option Ty}

include h

/-- A call that the checker accepts gives what it says, or is made on `null`. -/
theorem keeps_callMethod (hcalls : calls.Checked eng p) {o : Operand}
    {receiver : Variable StandardFn} (ho : o.Denotes eng.table receiver) {place : Span}
    {owner : ClassTy × Bool} (howner : BodyContext.callOwner o place = .ok owner)
    {method : Identifier} {args : List (Variable StandardFn)} {argTypes tys : List Ty}
    (hsame : List.Forall₂ eng.table.SameFit argTypes tys)
    (hargs : List.Forall₂ (fun v ty => v.value.Fits eng.table ty.resolved) args tys) {span : Span}
    {ret : Option Ty}
    (hret : (BodyContext.ofStatic eng.table cls rt).callResult owner method.name tys span = .ok ret) :
    eng.Keeps L (eng.callMethod calls receiver method args argTypes span)
      (ResultFits eng.table ret) := by
  obtain ⟨s₀, hs₀, rfl⟩ := BodyContext.callResult_ok hret
  have hdispatch : ∀ {c : RuntimeClass StandardFn} {this : Value StandardFn} {isStatic : Bool}
      {s : Selected StandardFn (RuntimeClass StandardFn)},
      eng.table.runtimeMembers.resolveMethod eng.table c method.name isStatic argTypes =
        .ok (.found s) → s.signature = s₀.signature → s.bindings = s₀.bindings →
      s.IsCallable p eng.table this →
      eng.Keeps L (calls.dispatch c this method.name isStatic args argTypes span)
        (ResultFits eng.table s₀.returnType) := by
    intro c this isStatic s hfound hsig hbindings hcallable
    rw [hcallable.returnType_eq hsig hbindings]
    exact hcalls.dispatch hfound hcallable (hcallable.fits_params h hfound hsame hargs)
  unfold callMethod
  cases o with
  | «namespace» path => cases howner
  | static name =>
    cases howner
    obtain ⟨c, hview, rfl⟩ := ho
    obtain ⟨s, hfound, hsig, hbindings, hcallable⟩ := h.resolveMethod_view hview hsame hs₀
    exact hdispatch hfound hsig hbindings hcallable
  | value ty =>
    cases howner
    obtain ⟨c, v⟩ := receiver
    have hv : Variable.HasType eng.table ⟨c, v⟩ ty.resolved := ho
    rcases hv.cases h with hnull | ⟨k, a, hk, ha, hty⟩
    · cases hnull
      exact Safe.raise (.nullDereference _) span
    · have hclass : ty.memberClass = ⟨a, []⟩ := by rw [Ty.memberClass, hty]; rfl
      rw [hclass] at hs₀
      obtain ⟨rfl, hkinds, hmethods⟩ := h.resolveMethod_kind ha hsame hs₀ v
      cases hk with
      -- There is no method to find for a number or a truth value.
      | int n => simp at hkinds
      | float x => simp at hkinds
      | bool b => simp at hkinds
      | str s =>
        -- A string has no object, so its class is made for the call.
        refine Keeps.bind (P := fun r => eng.table.Instantiates ⟨Ty.stringName, []⟩ r.1 ∧
          r.2 = false) ?_ fun r hr => ?_
        · refine Keeps.bind (keeps_classOf h.rooted (Kind.knows h.build .string) span)
            fun c hc => Keeps.pure ⟨?_, rfl⟩
          have hmakes : eng.table.Makes c := ⟨_, hc.instantiates⟩
          exact hmakes.instantiates_of_asTy hc.asTy_eq
        · obtain ⟨c, isStatic⟩ := r
          obtain ⟨hc, rfl⟩ := hr
          obtain ⟨s, hfound, hsig, hbindings, hcallable⟩ := hmethods c hc
          exact hdispatch hfound hsig hbindings hcallable
      | object hobject =>
        obtain ⟨s, hfound, hsig, hbindings, hcallable⟩ := hmethods _ hobject
        exact hdispatch hfound hsig hbindings hcallable

/-! ## Operators -/

/-- A binary operator on operands that the checker accepts. -/
theorem keeps_binary {op : BinaryOp} {l r : Value StandardFn} {lty rty ty : Ty}
    (hl : l.Fits eng.table lty.resolved) {symbol : String} {span : Span}
    (hty : (BodyContext.ofStatic eng.table cls rt).applyRule op.rule symbol lty rty span = .ok ty) :
    eng.Keeps L (eng.operators span (op.apply l r))
      fun v => ∃ k, v.HasKind eng.table k ∧ ty = k.ty := by
  obtain ⟨x, hx, hcheck, -, rfl⟩ := BodyContext.applyRule_ok hty
  exact keeps_operators (fun v hv => BinaryOp.apply_sound hx (hl.named h hcheck) hv) span

theorem keeps_typed {v : Value StandardFn} {ty : Ty}
    (hv : ∃ k, v.HasKind eng.table k ∧ ty = k.ty) (span : Span) :
    eng.Keeps L (eng.typedValue v span) fun x => x.HasType eng.table ty.resolved := by
  obtain ⟨k, hk, rfl⟩ := hv
  exact Keeps.mono (keeps_typedValue h.rooted hk (Kind.knows h.build k) span) fun x hx =>
    hx.resolved

/-- A step of a local. -/
theorem keeps_step {name : Identifier} {actual ty : Ty}
    (ho : (BodyContext.ofStatic eng.table cls rt).variableOperand L name = .ok (.value actual))
    {op : StepOp} {symbol : String} {span : Span}
    (hty : (BodyContext.ofStatic eng.table cls rt).applyUnaryRule OperatorRule.step
      symbol actual span = .ok ty) (before : Bool) :
    eng.Keeps L (do
      let current ← eng.lookup name
      let next ← eng.operators span (op.apply current.value)
      eng.store name next
      return stepped before current next) fun v => v.HasType eng.table ty.resolved := by
  obtain ⟨x, hx, hcheck, rfl⟩ := BodyContext.applyUnaryRule_ok hty
  have hL := BodyContext.lookup_of_variableOperand ho
  refine Keeps.bind (keeps_lookup_local hL) fun v hv => ?_
  have hne : x ≠ Ty.objectName := by
    rintro rfl
    revert hx
    decide +kernel
  refine Keeps.bind (keeps_operators (fun next hnext => hv.step h hcheck hnext hne before) span)
    fun next hnext => ?_
  exact Keeps.bind (keeps_store hL hnext.1) fun _ _ => Keeps.pure hnext.2.resolved

/-! ## Expressions -/

mutual

/-- A checked expression evaluates to what it stands for. -/
theorem keeps_eval (hcalls : calls.Checked eng p) : ∀ {e : Expr} {o : Operand},
    (BodyContext.ofStatic eng.table cls rt).operand L e = .ok o →
    e.EachType TypeUse.MakesNothing → eng.Keeps L (eng.eval calls e) (o.Denotes eng.table)
  | .literal value span, o, ho, _ => by
    rw [BodyContext.operand] at ho
    cases ho
    rw [eval]
    exact Keeps.mono (keeps_literal h value span) fun v hv => hv.resolved
  | .var name, o, ho, _ => by
    rw [BodyContext.operand] at ho
    rw [eval]
    exact keeps_lookup h ho
  | .binary lhs op rhs span, o, ho, he => by
    rw [BodyContext.operand] at ho
    rw [Expr.EachType] at he
    obtain ⟨lo, hlo, ho⟩ := ok_of_bind ho
    obtain ⟨lty, hlty, ho⟩ := ok_of_bind ho
    obtain ⟨ro, hro, ho⟩ := ok_of_bind ho
    obtain ⟨rty, hrty, ho⟩ := ok_of_bind ho
    obtain ⟨ty, hty, ho⟩ := ok_of_bind ho
    cases ho
    obtain rfl := Operand.asValue_ok hlty
    obtain rfl := Operand.asValue_ok hrty
    rw [eval]
    refine Keeps.bind (keeps_eval hcalls hlo he.1) fun l hl => ?_
    have hl : l.HasType eng.table lty.resolved := hl
    refine Keeps.bind (keeps_eval hcalls hro he.2) fun r _ => ?_
    exact Keeps.bind (keeps_binary h hl.fits hty) fun v hv => keeps_typed h hv span
  | .unary op operand span, o, ho, he => by
    rw [BodyContext.operand] at ho
    rw [Expr.EachType] at he
    obtain ⟨vo, hvo, ho⟩ := ok_of_bind ho
    obtain ⟨actual, hactual, ho⟩ := ok_of_bind ho
    obtain ⟨ty, hty, ho⟩ := ok_of_bind ho
    cases ho
    obtain rfl := Operand.asValue_ok hactual
    obtain ⟨x, hx, hcheck, rfl⟩ := BodyContext.applyUnaryRule_ok hty
    rw [eval]
    refine Keeps.bind (keeps_eval hcalls hvo he) fun v hv => ?_
    have hv : v.HasType eng.table actual.resolved := hv
    exact Keeps.bind
      (keeps_operators (fun w hw => UnaryOp.apply_sound hx (hv.fits.named h hcheck) hw) span)
      fun w hw => keeps_typed h hw span
  | .step op before (.var name) span, o, ho, _ => by
    rw [BodyContext.operand] at ho
    obtain ⟨vo, hvo, ho⟩ := ok_of_bind ho
    obtain ⟨actual, hactual, ho⟩ := ok_of_bind ho
    obtain ⟨ty, hty, ho⟩ := ok_of_bind ho
    cases ho
    obtain rfl := Operand.asValue_ok hactual
    rw [BodyContext.operand] at hvo
    rw [eval]
    exact keeps_step h hvo hty before
  | .step op before (.field receiver name place) span, o, ho, _ => by
    rw [BodyContext.operand] at ho
    obtain ⟨vo, hvo, ho⟩ := ok_of_bind ho
    obtain ⟨actual, hactual, ho⟩ := ok_of_bind ho
    obtain ⟨ty, hty, -⟩ := ok_of_bind ho
    obtain rfl := Operand.asValue_ok hactual
    rw [BodyContext.operand] at hvo
    obtain ⟨ro, -, hvo⟩ := ok_of_bind hvo
    obtain ⟨x, hx, hcheck, -⟩ := BodyContext.applyUnaryRule_ok hty
    -- The only field is the standard output, which does not step.
    rw [h.fieldOperand_value hvo] at hcheck
    have hname := Kind.mem_names_of_check h.build Kind.printStream.typeName_mem_names hcheck
    have hsteps : ∀ x ∈ OperatorRule.step.operands, x ∉ Kind.printStream.names := by
      decide +kernel
    exact absurd hname (hsteps x hx)
  | .ternary condition thenValue elseValue span, o, ho, he => by
    rw [BodyContext.operand] at ho
    rw [Expr.EachType] at he
    obtain ⟨co, hco, ho⟩ := ok_of_bind ho
    obtain ⟨cty, -, ho⟩ := ok_of_bind ho
    obtain ⟨_, -, ho⟩ := ok_of_bind ho
    obtain ⟨ao, hao, ho⟩ := ok_of_bind ho
    obtain ⟨aty, haty, ho⟩ := ok_of_bind ho
    obtain ⟨bo, hbo, ho⟩ := ok_of_bind ho
    obtain ⟨bty, hbty, hif⟩ := ok_of_bind ho
    obtain rfl := Operand.asValue_ok haty
    obtain rfl := Operand.asValue_ok hbty
    rw [eval]
    refine Keeps.bind (keeps_eval hcalls hco he.1) fun c _ => ?_
    split at hif
    · next hsame =>
      cases hif
      split
      · exact keeps_eval hcalls hao he.2.1
      · refine Keeps.mono (keeps_eval hcalls hbo he.2.2) fun v hv => ?_
        have hv : v.HasType eng.table bty.resolved := hv
        show v.HasType eng.table aty.resolved
        rw [Ty.eq_of_same hv.knows.isGround hsame]
        exact hv
      · exact Safe.invalid _ span
    · cases hif
  | .new ty args span, _, _, he => by
    rw [Expr.EachType] at he
    exact absurd rfl he.1.1
  | .field receiver name span, o, ho, he => by
    rw [BodyContext.operand] at ho
    rw [Expr.EachType] at he
    obtain ⟨ro, hro, ho⟩ := ok_of_bind ho
    rw [eval]
    exact Keeps.bind (keeps_eval hcalls hro he) fun r hr => keeps_fieldValue h hcalls ho hr span
  | .call receiver method args span, o, ho, he => by
    rw [BodyContext.operand] at ho
    rw [Expr.EachType] at he
    obtain ⟨ro, hro, ho⟩ := ok_of_bind ho
    obtain ⟨owner, howner, ho⟩ := ok_of_bind ho
    obtain ⟨tys, htys, ho⟩ := ok_of_bind ho
    obtain ⟨ret, hret, ho⟩ := ok_of_bind ho
    rw [eval]
    refine Keeps.bind (keeps_eval hcalls hro he.1) fun r hr => ?_
    refine Keeps.bind (keeps_evalAll hcalls htys he.2) fun vs hvs => ?_
    refine Keeps.bind (keeps_callMethod h hcalls hr howner hvs.1 hvs.2 hret) fun v? hv? => ?_
    cases ret with
    | none => cases ho
    | some ty =>
      cases ho
      obtain ⟨v, rfl, hv⟩ := hv?
      exact Keeps.pure hv.resolved
  | .cast ty e span, _, _, he => by
    rw [Expr.EachType] at he
    exact absurd rfl he.1.2
  | .instanceOf e ty span, o, ho, he => by
    rw [BodyContext.operand] at ho
    rw [Expr.EachType] at he
    obtain ⟨vo, hvo, ho⟩ := ok_of_bind ho
    obtain ⟨actual, hactual, ho⟩ := ok_of_bind ho
    obtain ⟨target, htarget, ho⟩ := ok_of_bind ho
    obtain ⟨result, hresult, ho⟩ := ok_of_bind ho
    cases ho
    obtain ⟨x, hx, -, rfl⟩ := BodyContext.applyUnaryRule_ok hresult
    rw [eval]
    refine Keeps.bind (keeps_resolveType h.rooted (typed_ok htarget)) fun c _ => ?_
    refine Keeps.bind (keeps_eval hcalls hvo he.2) fun v _ => ?_
    exact keeps_typed h ⟨.boolean, .bool _, rfl⟩ span
  | .group e span, o, ho, he => by
    rw [BodyContext.operand] at ho
    rw [Expr.EachType] at he
    rw [eval]
    exact keeps_eval hcalls ho he

/-- Checked arguments have values that fit, and types that fit as the checker says. -/
theorem keeps_evalAll (hcalls : calls.Checked eng p) : ∀ {es : List Expr} {tys : List Ty},
    (BodyContext.ofStatic eng.table cls rt).values L es = .ok tys →
    Expr.EachTypeIn TypeUse.MakesNothing es →
    eng.Keeps L (eng.evalAll calls es) fun vs =>
      List.Forall₂ eng.table.SameFit (argumentTypes es vs) tys ∧
      List.Forall₂ (fun v ty => v.value.Fits eng.table ty.resolved) vs tys
  | [], tys, htys, _ => by
    rw [BodyContext.values] at htys
    cases htys
    rw [evalAll]
    exact Keeps.pure ⟨.nil, .nil⟩
  | e :: es, tys, htys, he => by
    rw [BodyContext.values] at htys
    rw [Expr.EachTypeIn] at he
    rw [evalAll]
    split at htys
    · next hnull =>
      obtain ⟨ty, hty, htys⟩ := ok_of_bind htys
      obtain ⟨rest, hrest, htys⟩ := ok_of_bind htys
      cases hty
      cases htys
      refine Keeps.bind (keeps_eval_null h hnull) fun v hv => ?_
      refine Keeps.bind (keeps_evalAll hcalls hrest he.2) fun vs hvs => Keeps.pure ?_
      rw [argumentTypes, if_pos hnull]
      exact ⟨.cons (.refl _) hvs.1, .cons (hv ▸ .null _) hvs.2⟩
    · next hnull =>
      obtain ⟨ty, hty, htys⟩ := ok_of_bind htys
      obtain ⟨rest, hrest, htys⟩ := ok_of_bind htys
      cases htys
      obtain ⟨o, ho, hty⟩ := ok_of_bind hty
      obtain rfl := Operand.asValue_ok hty
      refine Keeps.bind (keeps_eval hcalls ho he.1) fun v hv => ?_
      have hv : v.HasType eng.table ty.resolved := hv
      refine Keeps.bind (keeps_evalAll hcalls hrest he.2) fun vs hvs => Keeps.pure ?_
      rw [argumentTypes, if_neg hnull]
      refine ⟨.cons (fun target => ?_) hvs.1, .cons hv.fits hvs.2⟩
      rw [hv.sameFit target, ClassTable.check_resolved]

end

/-! ## Expected types -/

omit h in
theorem operand_of_value {ctx : BodyContext StandardFn} {e : Expr} {ty : Ty}
    (hty : ctx.value L e = .ok ty) : ctx.operand L e = .ok (.value ty) := by
  obtain ⟨o, ho, hty⟩ := ok_of_bind hty
  rw [ho, Operand.asValue_ok hty]

/-- An expression that may be stored evaluates to a value that fits. -/
theorem keeps_compatible (hcalls : calls.Checked eng p) {e : Expr} {actual expected : Ty}
    (hactual : (BodyContext.ofStatic eng.table cls rt).value L e = .ok actual) {span : Span}
    {u : Unit} (hcompat : (BodyContext.ofStatic eng.table cls rt).compatible actual expected
      e.isNullLiteral span = .ok u)
    (he : e.EachType TypeUse.MakesNothing) (hground : expected.IsGround) :
    eng.Keeps L (eng.eval calls e) fun v => v.value.Fits eng.table expected := by
  rcases BodyContext.compatible_ok hcompat with hnull | hcheck
  · exact Keeps.mono (keeps_eval_null h hnull) fun v hv => hv ▸ .null expected
  · refine Keeps.mono (keeps_eval h hcalls (operand_of_value hactual) he) fun v hv => ?_
    have hv : v.HasType eng.table actual.resolved := hv
    exact hv.fits.of_check h hcheck hground

theorem keeps_expect (hcalls : calls.Checked eng p) {e : Expr} {expected : Ty} {u : Unit}
    (hexpect : (BodyContext.ofStatic eng.table cls rt).expect L e expected = .ok u)
    (he : e.EachType TypeUse.MakesNothing) (hground : expected.IsGround) :
    eng.Keeps L (eng.eval calls e) fun v => v.value.Fits eng.table expected := by
  obtain ⟨actual, hactual, hcompat⟩ := ok_of_bind hexpect
  exact keeps_compatible h hcalls hactual hcompat he hground

end Engine

end Middleweight
