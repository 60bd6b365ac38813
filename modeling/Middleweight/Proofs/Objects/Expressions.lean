import Middleweight.Proofs.Objects.Names

/-!
# Expressions in bodies of objects

An expression that the checker accepts evaluates to what it stands for, or stops where it may. A
call is resolved twice, by the checker over declared types and by the engine over the class of the
receiver and the classes of the arguments. The engine may choose another method, further down, but
what that one returns passes as what the checker says.

* `Engine.gives_callMethod` : calls
* `Engine.gives_eval`, `Engine.gives_evalAll` : expressions
* `Engine.gives_expect` : expressions of an expected type
-/

namespace Middleweight

/-! ## Arguments -/

namespace Variable

theorem GivenAs.mono {F : Type} {t : ClassTable F} {W V : World F} {v : Variable F} {a : Ty}
    (h : v.GivenAs t W a) (hW : W.Grows V) : v.GivenAs t V a :=
  ⟨h.stored.mono hW, h.formed, h.suits, h.ty⟩

theorem GivenAs.formed_or_null {F : Type} {t : ClassTable F} {W : World F} {v : Variable F} {a : Ty}
    (h : v.GivenAs t W a) : a = .null ∨ a.Formed t.arity? [] := by
  rcases h.ty with rfl | ⟨rfl, -⟩
  · exact .inr h.formed
  · exact .inl rfl

variable {p : Program} {t : ClassTable StandardFn} (h : p.WellTyped t) {W : World StandardFn}
  {v : Variable StandardFn}

include h

/-- An argument suits each type as which the type that it is given as passes. -/
theorem GivenAs.suits_of_check {a b : Ty} (hv : v.GivenAs t W a) (hb : b.Formed t.arity? [])
    (hcheck : t.check a b = true) : v.value.Suits t b := by
  rcases hv.ty with rfl | ⟨rfl, hnull⟩
  · exact hv.suits.mono h hv.formed hb hcheck
  · rw [hnull]
    exact .null b

omit h in
/-- What an expression evaluates to may be an argument. -/
theorem OfType.givenAs {ty : Ty} (hv : v.OfType t W ty) : v.GivenAs t W v.ty :=
  ⟨hv.stored, hv.declared, hv.suits, .inl rfl⟩

/-- A variable passes as what the type passes as that the checker gives it. -/
theorem OfType.passes_type {ty : Ty} (hv : v.OfType t W ty.resolved) : t.Passes v.ty ty := by
  intro target htarget hcheck
  rw [← ClassTable.check_resolved] at hcheck
  exact h.check_trans hv.declared hv.formed htarget hv.passes hcheck

/-- A value that suits what a type stands for suits what the type passes as. -/
theorem OfType.suits_of_check {ty expected : Ty} (hv : v.OfType t W ty.resolved)
    (hexpected : expected.Formed t.arity? []) (hcheck : t.check ty expected = true) :
    v.value.Suits t expected := by
  rw [← ClassTable.check_resolved] at hcheck
  exact (hv.value h).mono h hv.formed hexpected hcheck

/--
A step keeps the kind of a variable: what it gives has the type that the rule names, and can be
stored in the variable.
-/
theorem OfType.step {ty : Ty} (hv : v.OfType t W ty.resolved) {x : String}
    (hx : x ∈ OperatorRule.step.operands) (hcheck : t.check ty (.named x) = true) {op : StepOp}
    {next : Value StandardFn} (hnext : op.apply v.value = .ok next) (before : Bool) :
    next.IsPlain ∧ next.Suits t ty ∧ (Engine.stepped before v next).OfType t W (.named x) := by
  obtain ⟨k, -, hk, hk'⟩ := StepOp.hasKind_of_apply (t := t) hnext
  have hformed : (Ty.named x).Formed t.arity? [] := by
    have hnames : ∀ x ∈ OperatorRule.step.operands,
        x ∈ Kind.int.names ∨ x ∈ Kind.float.names := by decide +kernel
    rcases hnames x hx with hx | hx
    all_goals exact h.formed_kind hx
  have hplain := StepOp.isPlain_apply hnext
  refine ⟨hplain, Value.suits_resolved.mp (hk.suits_alike hk' (hv.value h)), ?_⟩
  refine ⟨⟨hv.stored.cls, ?_⟩, hv.declared, ?_, hv.passes_type h _ hformed hcheck, hformed⟩
  · show (if before then next else v.value).Valid t W
    split
    · exact hplain.valid _ _
    · exact hv.stored.value
  · show (if before then next else v.value).Suits t v.ty
    split
    · exact hk.suits_alike hk' hv.suits
    · exact hv.suits

end Variable

namespace Engine

variable {p : Program} {eng : Engine StandardFn} (h : p.WellTyped eng.table)
  {calls : Calls StandardFn} {κ : Context StandardFn} {W : World StandardFn} {L : Locals}
  {this? : Option ClassTy} {cls : Template StandardFn} {rt : Option Ty}

include h

/-! ## Literals -/

theorem gives_literal (value : Literal) (span : Span) :
    eng.Gives κ W L
      (do return (⟨← eng.classOf value.ty span, literalValue value⟩ : Variable StandardFn))
      fun V v => v.OfType eng.table V value.ty := by
  have hformed : value.ty.Formed eng.table.arity? [] := by
    cases value with
    | int n => exact h.formed_kind Kind.int.typeName_mem_names
    | float x => exact h.formed_kind Kind.float.typeName_mem_names
    | bool b => exact h.formed_kind Kind.boolean.typeName_mem_names
    | string s => exact h.formed_kind Kind.string.typeName_mem_names
    | null => exact h.formed_object
  have hsuits : (literalValue value).Suits eng.table value.ty := by
    cases value with
    | int n => exact (Value.HasKind.int n).suits h
    | float x => exact (Value.HasKind.float x).suits h
    | bool b => exact (Value.HasKind.bool b).suits h
    | string s => exact (Value.HasKind.str s).suits h
    | null => exact .null _
  have hplain : (literalValue value : Value StandardFn).IsPlain := by
    cases value <;> trivial
  exact (gives_classOf_formed h hformed span).map fun V c _ hc =>
    (hc.declares hformed hsuits).ofType (hc.stored (hplain.valid _ _))

/-- The literal `null` evaluates to `null`, which is an argument of its own type. -/
theorem gives_eval_null : ∀ {e : Expr}, e.isNullLiteral = true →
    eng.Gives κ W L (eng.eval calls e) fun V v =>
      v.value = .null ∧ v.GivenAs eng.table V .null
  | .literal .null span, _ => by
    rw [eval]
    refine (gives_classOf_formed h h.formed_object span).map fun V c _ hc => ⟨rfl, ?_⟩
    have hformed : c.asTy.Formed eng.table.arity? [] := hc.asTy_eq ▸ h.formed_object
    exact ⟨hc.stored trivial, hformed, .null _, .inr ⟨rfl, rfl⟩⟩
  | .group e span, hnull => by
    rw [eval]
    rw [Expr.isNullLiteral] at hnull
    exact gives_eval_null hnull

/-! ## Calls -/

/-- A call gives what is expected of it where what the method that is found returns passes as that. -/
theorem gives_dispatched (hcalls : calls.Typed eng) {args : List (Variable StandardFn)}
    {argTypes : List Ty} (hgiven : List.Forall₂ (Variable.GivenAs eng.table W) args argTypes)
    (expected : Option Ty) (name : String) (span : Span) {V : World StandardFn}
    {c : RuntimeClass StandardFn} {this : Value StandardFn} {isStatic : Bool} (hV : W.Grows V)
    (hserves : eng.table.Serves isStatic c) (hreceives : c.Receives V this isStatic)
    (hreturns : ∀ s, eng.table.runtimeMembers.resolveMethod eng.table c name isStatic argTypes =
      .ok (.found s) → ∀ ty ∈ expected, ty.Formed eng.table.arity? [] ∧
        eng.table.Returns s.signature ty) :
    eng.Gives κ V L (calls.dispatch c this name isStatic args argTypes span) fun U r? =>
      ∀ ty ∈ expected, ∃ v, r? = some v ∧ v.OfType eng.table U ty.resolved := by
  refine (hcalls.dispatch name span hserves hreceives
    (hgiven.imp fun _ _ hv => hv.mono hV)).mono fun U r? _ hr ty hty => ?_
  obtain ⟨s, hs, hr⟩ := hr
  obtain ⟨hformed, r, hr', hcheck⟩ := hreturns s hs ty hty
  obtain ⟨v, rfl, hv⟩ := hr r hr'
  rw [Ty.resolved_of_isGround hformed.isGround]
  exact ⟨v, rfl, hv.trans h hformed hcheck⟩

section Calls

variable {o : Operand} {receiver : Variable StandardFn} (ho : o.Means eng.table W receiver)
  {place : Span} {owner : ClassTy × Bool} (howner : BodyContext.callOwner o place = .ok owner)
  {method : Identifier} {args : List (Variable StandardFn)} {argTypes tys : List Ty}
  (hgiven : List.Forall₂ (Variable.GivenAs eng.table W) args argTypes)
  (hpass : List.Forall₂ eng.table.Passes argTypes tys) {span : Span} {ret : Option Ty}
  (hret : (BodyContext.ofClass eng.table cls this? rt).callResult owner method.name tys span =
    .ok ret)

include ho howner hgiven hpass hret

/--
A call that the checker accepts is one of a class that serves its receiver, and each method that is
found there returns what passes as what the checker says.
-/
theorem gives_callTarget :
    eng.Gives κ W L (eng.callTarget receiver method.name span) fun V r =>
      eng.table.Serves r.2 r.1 ∧ r.1.Receives V (if r.2 then .null else receiver.value) r.2 ∧
      ∀ s, eng.table.runtimeMembers.resolveMethod eng.table r.1 method.name r.2 argTypes =
        .ok (.found s) → ∀ ty ∈ ret, ty.Formed eng.table.arity? [] ∧
          eng.table.Returns s.signature ty := by
  obtain ⟨s₀, hs₀, rfl⟩ := BodyContext.callResult_ok hret
  have hargs : ∀ a ∈ argTypes, a = .null ∨ a.Formed eng.table.arity? [] := by
    intro a ha
    obtain ⟨v, -, hv⟩ := exists_of_forall₂_mem hgiven ha
    exact hv.formed_or_null
  unfold callTarget
  cases o with
  | «namespace» path => cases howner
  | static name =>
    cases howner
    obtain ⟨c, hview, rfl⟩ := ho
    exact Gives.pure ⟨.shown ⟨name, hview⟩ rfl, .static c, fun s hs =>
      h.returns_of_view hview hargs hpass hs₀ hs⟩
  | value ty =>
    cases howner
    have ho : receiver.OfType eng.table W ty.resolved := ho
    have hsuits := ho.value h
    have hstored := ho.stored.value
    -- There is no method to find for a number or a truth value.
    have hnumber : ∀ {q : Primitive}, receiver.value.ownTy? = some (.named q.name) → False := by
      intro q hown
      obtain ⟨-, -, -, -, hcheck⟩ := h.exists_class_of_suits hown hsuits
      rw [ClassTable.check_target] at hcheck
      exact h.not_primitive_of_found ho.formed hs₀ q hcheck
    cases hvalue : receiver.value with
    | null => exact Yields.raise (.nullDereference _) span
    | int n => exact (hnumber (q := .int) (by rw [hvalue]; rfl)).elim
    | float x => exact (hnumber (q := .float) (by rw [hvalue]; rfl)).elim
    | bool b => exact (hnumber (q := .boolean) (by rw [hvalue]; rfl)).elim
    | str s =>
      -- A string has no object, so its class is made for the call.
      rw [hvalue] at hsuits
      obtain ⟨-, -, -, hformed, hcheck⟩ := h.exists_class_of_suits rfl hsuits
      rw [ClassTable.check_target] at hcheck
      refine (gives_classOf_formed h hformed span).map fun V c _ hc => ?_
      have hcf : c.asTy.Formed eng.table.arity? [] := hc.asTy_eq ▸ hformed
      exact ⟨.made hc.makes hcf, .string s hc.asTy_eq, fun s hs =>
        h.returns_of_value hc.makes hcf ho.formed (hc.asTy_eq ▸ hcheck) hargs hpass hs₀ hs⟩
    | object o =>
      rw [hvalue] at hsuits hstored
      obtain ⟨-, -, -, -, hcheck⟩ := h.exists_class_of_suits rfl hsuits
      rw [ClassTable.check_target] at hcheck
      refine Yields.of_typed fun m hm => Gives.pure ?_
      have hmakes := hm.makes hstored
      have hformed := hm.formed_object hstored
      exact ⟨.made hmakes hformed, .object hstored, fun s hs =>
        h.returns_of_value hmakes hformed ho.formed hcheck hargs hpass hs₀ hs⟩
    | cls c =>
      rw [hvalue] at hsuits
      cases hsuits with | own hown => cases hown
    | «namespace» path =>
      rw [hvalue] at hsuits
      cases hsuits with | own hown => cases hown

/-- A call that the checker accepts gives what it says, or stops where it may. -/
theorem gives_callMethod (hcalls : calls.Typed eng) :
    eng.Gives κ W L (eng.callMethod calls receiver method args argTypes span) fun V r? =>
      ∀ ty ∈ ret, ∃ v, r? = some v ∧ v.OfType eng.table V ty.resolved := by
  refine (gives_callTarget h ho howner hgiven hpass hret).bind fun V r hV hr => ?_
  obtain ⟨hserves, hreceives, hreturns⟩ := hr
  exact gives_dispatched h hcalls hgiven _ _ span hV hserves hreceives hreturns

end Calls

/-- Arguments that have been evaluated, and the types that the checker gives them. -/
def ArgumentsMean (t : ClassTable StandardFn) (es : List Expr) (tys : List Ty)
    (V : World StandardFn) (vs : List (Variable StandardFn)) : Prop :=
  List.Forall₂ (Variable.GivenAs t V) vs (argumentTypes es vs) ∧
    List.Forall₂ t.Passes (argumentTypes es vs) tys

/-- A call, given how its receiver and its arguments evaluate. -/
theorem gives_call (hcalls : calls.Typed eng) {receiver : Expr} {ro : Operand}
    (hreceiver : eng.Gives κ W L (eng.eval calls receiver) fun V => ro.Means eng.table V)
    {place : Span} {owner : ClassTy × Bool} (howner : BodyContext.callOwner ro place = .ok owner)
    {arguments : List Expr} {tys : List Ty}
    (harguments : ∀ V, W.Grows V → eng.Gives κ V L (eng.evalAll calls arguments)
      (ArgumentsMean eng.table arguments tys))
    {method : Identifier} {span : Span} {ret : Option Ty}
    (hret : (BodyContext.ofClass eng.table cls this? rt).callResult owner method.name tys span =
      .ok ret) :
    eng.Gives κ W L (eng.eval calls (.call receiver method arguments span)) fun V v =>
      ∀ ty ∈ ret, v.OfType eng.table V ty.resolved := by
  rw [eval]
  refine hreceiver.bind fun V r hV hr => (harguments V hV).bind fun U vs hU hvs => ?_
  refine Gives.bind (gives_callMethod h (hr.mono hU) howner hvs.1 hvs.2 hret hcalls)
    fun T r? _ hr? => ?_
  cases r? with
  | some v =>
    refine Gives.pure fun ty hty => ?_
    obtain ⟨w, heq, hw⟩ := hr? ty hty
    cases heq
    exact hw
  | none =>
    refine (gives_classOf_formed h h.formed_object span).map fun _ c _ _ ty hty => ?_
    obtain ⟨w, heq, -⟩ := hr? ty hty
    cases heq

/-! ## Operators and steps -/

/-- A value that an operator gives has the type that its rule names. -/
theorem gives_result {r : Except (OperatorError StandardFn) (Value StandardFn)} {ty : Ty}
    (hr : ∀ v, r = .ok v → v.IsPlain ∧ ∃ k, v.HasKind eng.table k ∧ ty = k.ty) (span : Span) :
    eng.Gives κ W L (eng.operators span r >>= fun v => eng.typedValue v span)
      fun V x => x.OfType eng.table V ty.resolved := by
  refine Gives.bind (P := fun _ v => v.IsPlain ∧ ∃ k, v.HasKind eng.table k ∧ ty = k.ty)
    (gives_operators hr span) fun V v _ hv => ?_
  obtain ⟨hplain, k, hk, rfl⟩ := hv
  exact gives_typedValue h hk hplain span

/-- A step of a local, or of a field of the running object. -/
theorem gives_step (hκ : κ.Sees this?) {name : Identifier} {actual ty : Ty}
    (ho : (BodyContext.ofClass eng.table cls this? rt).variableOperand L name = .ok (.value actual))
    {op : StepOp} {symbol : String} {span : Span}
    (hty : (BodyContext.ofClass eng.table cls this? rt).applyUnaryRule OperatorRule.step
      symbol actual span = .ok ty) (before : Bool) :
    eng.Gives κ W L (do
      let current ← eng.lookup name
      let next ← eng.operators span (op.apply current.value)
      eng.store name next
      return stepped before current next) fun V v => v.OfType eng.table V ty.resolved := by
  obtain ⟨x, hx, hcheck, rfl⟩ := BodyContext.applyUnaryRule_ok hty
  have hstores := BodyContext.variableOperand_eq_value.mp ho
  refine (gives_lookup h hκ ho).bind fun V v _ hv => ?_
  have hv : v.OfType eng.table V actual.resolved := hv
  refine Gives.bind (P := fun V next => next.IsPlain ∧ next.Suits eng.table actual ∧
      (stepped before v next).OfType eng.table V (.named x))
    (gives_operators (fun next hnext => hv.step h hx hcheck hnext before) span)
    fun U next hU hnext => ?_
  obtain ⟨hplain, hsuits, htype⟩ := hnext
  refine (gives_store h hκ hstores (hplain.valid _ _) hsuits).bind fun T _ hT _ => Gives.pure ?_
  exact htype.mono hT

/-- A step of a field of a value. -/
theorem gives_fieldStep (hcalls : calls.Typed eng) {receiver : Expr} {ro : Operand}
    (hreceiver : eng.Gives κ W L (eng.eval calls receiver) fun V => ro.Means eng.table V)
    {field : Identifier} {actual ty : Ty}
    (ho : (BodyContext.ofClass eng.table cls this? rt).fieldOperand ro field = .ok (.value actual))
    {op : StepOp} {symbol : String} {span : Span}
    (hty : (BodyContext.ofClass eng.table cls this? rt).applyUnaryRule OperatorRule.step
      symbol actual span = .ok ty) (before : Bool) :
    eng.Gives κ W L (do
      let r ← eng.eval calls receiver
      let current ← eng.fieldValue calls r.value field span
      let next ← eng.operators span (op.apply current.value)
      eng.storeField r.value field .set next span
      return stepped before current next) fun V v => v.OfType eng.table V ty.resolved := by
  obtain ⟨x, hx, hcheck, rfl⟩ := BodyContext.applyUnaryRule_ok hty
  refine hreceiver.bind fun V r _ hr => ?_
  refine (gives_fieldValue h hcalls ho hr span).bind fun U v hU hv => ?_
  have hv : v.OfType eng.table U actual.resolved := hv
  refine Gives.bind (P := fun V next => next.IsPlain ∧ next.Suits eng.table actual ∧
      (stepped before v next).OfType eng.table V (.named x))
    (gives_operators (fun next hnext => hv.step h hx hcheck hnext before) span)
    fun T next hT hnext => ?_
  obtain ⟨hplain, hsuits, htype⟩ := hnext
  refine Gives.bind (P := fun _ _ => True) ?_ fun S _ hS _ => Gives.pure (htype.mono hS)
  cases ro with
  | value ty =>
    obtain ⟨ty', hty', heq⟩ := ok_of_map ho
    cases heq
    have hr : r.OfType eng.table V ty.resolved := hr
    have hfits : AssignOp.set.Fits eng.table actual next := hsuits
    exact gives_storeField h hty' ((hr.mono hU).mono hT) (hplain.valid _ _) hfits span
  | static className =>
    -- Static fields are not assigned to.
    obtain ⟨c, -, rfl⟩ := hr
    exact Yields.invalid _ span
  | «namespace» path =>
    unfold BodyContext.fieldOperand at ho
    dsimp only at ho
    split at ho <;> cases ho

/-! ## Expressions -/

mutual

/-- A checked expression evaluates to what it stands for. -/
theorem gives_eval (hcalls : calls.Typed eng) (hκ : κ.Sees this?) : ∀ {e : Expr} {o : Operand}
    {W : World StandardFn},
    (BodyContext.ofClass eng.table cls this? rt).operand L e = .ok o →
    e.EachType TypeUse.CastsNothing →
    eng.Gives κ W L (eng.eval calls e) fun V => o.Means eng.table V
  | .literal value span, o, W, ho, _ => by
    rw [BodyContext.operand] at ho
    cases ho
    rw [eval]
    refine (gives_literal h value span).mono fun V v _ hv => ?_
    show v.OfType eng.table V value.ty.resolved
    rwa [Ty.resolved_of_isGround hv.formed.isGround]
  | .var name, o, W, ho, _ => by
    rw [BodyContext.operand] at ho
    rw [eval]
    exact gives_lookup h hκ ho
  | .binary lhs op rhs span, o, W, ho, he => by
    rw [BodyContext.operand] at ho
    rw [Expr.EachType] at he
    obtain ⟨lo, hlo, ho⟩ := ok_of_bind ho
    obtain ⟨lty, hlty, ho⟩ := ok_of_bind ho
    obtain ⟨ro, hro, ho⟩ := ok_of_bind ho
    obtain ⟨rty, hrty, ho⟩ := ok_of_bind ho
    obtain ⟨ty, hty, ho⟩ := ok_of_bind ho
    cases ho
    obtain rfl := Operand.asValue_ok hlty
    obtain rfl := Operand.asValue_ok hrty
    obtain ⟨x, hx, hcheck, -, rfl⟩ := BodyContext.applyRule_ok hty
    rw [eval]
    refine (gives_eval hcalls hκ hlo he.1).bind fun V l _ hl => ?_
    have hl : l.OfType eng.table V lty.resolved := hl
    have hsuits := hl.suits_of_check h (h.formed_operand hx) hcheck
    refine (gives_eval hcalls hκ hro he.2).bind fun U r _ _ => gives_result h (fun v hv => ?_) span
    exact ⟨BinaryOp.isPlain_apply hv, BinaryOp.kind_of_apply h hx hsuits hv⟩
  | .unary op operand span, o, W, ho, he => by
    rw [BodyContext.operand] at ho
    rw [Expr.EachType] at he
    obtain ⟨vo, hvo, ho⟩ := ok_of_bind ho
    obtain ⟨actual, hactual, ho⟩ := ok_of_bind ho
    obtain ⟨ty, hty, ho⟩ := ok_of_bind ho
    cases ho
    obtain rfl := Operand.asValue_ok hactual
    obtain ⟨x, hx, hcheck, rfl⟩ := BodyContext.applyUnaryRule_ok hty
    obtain ⟨k, hk, -⟩ := UnaryOp.operands_kind hx
    have hformed : (Ty.named x).Formed eng.table.arity? [] :=
      h.formed_kind (hk ▸ k.typeName_mem_names)
    rw [eval]
    refine (gives_eval hcalls hκ hvo he).bind fun V v _ hv => gives_result h (fun w hw => ?_) span
    have hv : v.OfType eng.table V actual.resolved := hv
    exact ⟨UnaryOp.isPlain_apply hw,
      UnaryOp.kind_of_apply h hx (hv.suits_of_check h hformed hcheck) hw⟩
  | .step op before (.var name) span, o, W, ho, _ => by
    rw [BodyContext.operand] at ho
    obtain ⟨vo, hvo, ho⟩ := ok_of_bind ho
    obtain ⟨actual, hactual, ho⟩ := ok_of_bind ho
    obtain ⟨ty, hty, ho⟩ := ok_of_bind ho
    cases ho
    obtain rfl := Operand.asValue_ok hactual
    rw [BodyContext.operand] at hvo
    rw [eval]
    exact gives_step h hκ hvo hty before
  | .step op before (.field receiver name place) span, o, W, ho, he => by
    rw [BodyContext.operand] at ho
    rw [Expr.EachType, Expr.EachType] at he
    obtain ⟨vo, hvo, ho⟩ := ok_of_bind ho
    obtain ⟨actual, hactual, ho⟩ := ok_of_bind ho
    obtain ⟨ty, hty, ho⟩ := ok_of_bind ho
    cases ho
    obtain rfl := Operand.asValue_ok hactual
    rw [BodyContext.operand] at hvo
    obtain ⟨ro, hro, hvo⟩ := ok_of_bind hvo
    rw [eval]
    exact gives_fieldStep h hcalls (gives_eval hcalls hκ hro he) hvo hty before
  | .ternary condition thenValue elseValue span, o, W, ho, he => by
    rw [BodyContext.operand] at ho
    rw [Expr.EachType] at he
    obtain ⟨co, hco, ho⟩ := ok_of_bind ho
    obtain ⟨cty, -, ho⟩ := ok_of_bind ho
    obtain ⟨_, -, ho⟩ := ok_of_bind ho
    obtain ⟨ao, hao, ho⟩ := ok_of_bind ho
    obtain ⟨aty, haty, ho⟩ := ok_of_bind ho
    obtain ⟨bo, hbo, ho⟩ := ok_of_bind ho
    obtain ⟨bty, hbty, hif⟩ := ok_of_bind ho
    obtain rfl := Operand.asValue_ok haty
    obtain rfl := Operand.asValue_ok hbty
    rw [eval]
    refine (gives_eval hcalls hκ hco he.1).bind fun V c _ _ => ?_
    split at hif
    · next hsame =>
      cases hif
      split
      · exact gives_eval hcalls hκ hao he.2.1
      · refine (gives_eval hcalls hκ hbo he.2.2).mono fun U v _ hv => ?_
        have hv : v.OfType eng.table U bty.resolved := hv
        show v.OfType eng.table U aty.resolved
        rw [Ty.eq_of_same hv.formed.isGround hsame]
        exact hv
      · exact Yields.invalid _ span
    · cases hif
  | .new ty arguments span, o, W, ho, he => by
    rw [BodyContext.operand] at ho
    rw [Expr.EachType] at he
    obtain ⟨made, hmade, ho⟩ := ok_of_bind ho
    have hlower : eng.table.lower [] ty = .ok made := typed_ok hmade
    cases made with
    | unbound n => cases ho
    | bound n s => cases ho
    | cls name args =>
      obtain ⟨tys, htys, ho⟩ := ok_of_bind ho
      obtain ⟨_, -, ho⟩ := ok_of_bind ho
      cases ho
      have hformed := ClassTable.formed_of_lower hlower
      rw [eval]
      refine (gives_resolveType h hlower).bind fun V c _ hc => ?_
      have hcf : c.asTy.Formed eng.table.arity? [] := hc.asTy_eq ▸ hformed
      refine (gives_evalAll hcalls hκ htys he.2).bind fun U vs _ hvs => ?_
      refine (hcalls.construct span hc.makes hcf hvs.1).bind fun T o _ ho => Gives.pure ?_
      obtain ⟨ho, rfl⟩ := ho
      show Variable.OfType eng.table T _ (Ty.cls name args).resolved
      rw [Ty.resolved_of_isGround hformed.isGround]
      refine (hc.declares hformed (.own rfl hcf ?_)).ofType (hc.stored ho)
      rw [hc.asTy_eq]
      exact eng.table.check_self _
  | .field receiver name span, o, W, ho, he => by
    rw [BodyContext.operand] at ho
    rw [Expr.EachType] at he
    obtain ⟨ro, hro, ho⟩ := ok_of_bind ho
    rw [eval]
    exact (gives_eval hcalls hκ hro he).bind fun V r _ hr => gives_fieldValue h hcalls ho hr span
  | .call receiver method arguments span, o, W, ho, he => by
    rw [BodyContext.operand] at ho
    rw [Expr.EachType] at he
    obtain ⟨ro, hro, ho⟩ := ok_of_bind ho
    obtain ⟨owner, howner, ho⟩ := ok_of_bind ho
    obtain ⟨tys, htys, ho⟩ := ok_of_bind ho
    obtain ⟨ret, hret, ho⟩ := ok_of_bind ho
    cases ret with
    | none => cases ho
    | some ty =>
      cases ho
      exact (gives_call h hcalls (gives_eval hcalls hκ hro he.1) howner
        (fun _ _ => gives_evalAll hcalls hκ htys he.2) hret).mono fun V v _ hv => hv ty rfl
  | .cast ty e span, _, _, _, he => by
    rw [Expr.EachType] at he
    exact absurd rfl he.1
  | .instanceOf e ty span, o, W, ho, he => by
    rw [BodyContext.operand] at ho
    rw [Expr.EachType] at he
    obtain ⟨vo, hvo, ho⟩ := ok_of_bind ho
    obtain ⟨actual, hactual, ho⟩ := ok_of_bind ho
    obtain ⟨target, htarget, ho⟩ := ok_of_bind ho
    obtain ⟨result, hresult, ho⟩ := ok_of_bind ho
    cases ho
    obtain ⟨x, hx, -, rfl⟩ := BodyContext.applyUnaryRule_ok hresult
    rw [eval]
    refine (gives_resolveType h (typed_ok htarget)).bind fun V c _ _ => ?_
    refine (gives_eval hcalls hκ hvo he.2).bind fun U v _ _ => ?_
    exact gives_typedValue h (.bool _) trivial span
  | .group e span, o, W, ho, he => by
    rw [BodyContext.operand] at ho
    rw [Expr.EachType] at he
    rw [eval]
    exact gives_eval hcalls hκ ho he

/-- Checked arguments are given as types that pass as the checker says. -/
theorem gives_evalAll (hcalls : calls.Typed eng) (hκ : κ.Sees this?) : ∀ {es : List Expr}
    {tys : List Ty} {W : World StandardFn},
    (BodyContext.ofClass eng.table cls this? rt).values L es = .ok tys →
    Expr.EachTypeIn TypeUse.CastsNothing es →
    eng.Gives κ W L (eng.evalAll calls es) (ArgumentsMean eng.table es tys)
  | [], tys, W, htys, _ => by
    rw [BodyContext.values] at htys
    cases htys
    rw [evalAll]
    exact Gives.pure ⟨.nil, .nil⟩
  | e :: es, tys, W, htys, he => by
    rw [BodyContext.values] at htys
    rw [Expr.EachTypeIn] at he
    rw [evalAll]
    split at htys
    · next hnull =>
      obtain ⟨ty, hty, htys⟩ := ok_of_bind htys
      obtain ⟨rest, hrest, htys⟩ := ok_of_bind htys
      cases hty
      cases htys
      refine (gives_eval_null h hnull).bind fun V v _ hv => ?_
      refine (gives_evalAll hcalls hκ hrest he.2).bind fun U vs hU hvs => Gives.pure ?_
      unfold ArgumentsMean
      rw [argumentTypes, if_pos hnull]
      exact ⟨.cons (hv.2.mono hU) hvs.1, .cons (.refl _) hvs.2⟩
    · next hnull =>
      obtain ⟨ty, hty, htys⟩ := ok_of_bind htys
      obtain ⟨rest, hrest, htys⟩ := ok_of_bind htys
      cases htys
      obtain ⟨o, ho, hty⟩ := ok_of_bind hty
      obtain rfl := Operand.asValue_ok hty
      refine (gives_eval hcalls hκ ho he.1).bind fun V v _ hv => ?_
      have hv : v.OfType eng.table V ty.resolved := hv
      refine (gives_evalAll hcalls hκ hrest he.2).bind fun U vs hU hvs => Gives.pure ?_
      unfold ArgumentsMean
      rw [argumentTypes, if_neg hnull]
      exact ⟨.cons (hv.givenAs.mono hU) hvs.1, .cons (hv.passes_type h) hvs.2⟩

end

/-! ## Expected types -/

variable (hcalls : calls.Typed eng) (hκ : κ.Sees this?)

include hcalls hκ

/-- An expression that may be stored evaluates to a value that suits the type. -/
theorem gives_compatible {e : Expr} {actual expected : Ty}
    (hactual : (BodyContext.ofClass eng.table cls this? rt).value L e = .ok actual) {span : Span}
    {u : Unit} (hcompat : (BodyContext.ofClass eng.table cls this? rt).compatible actual expected
      e.isNullLiteral span = .ok u)
    (he : e.EachType TypeUse.CastsNothing) (hexpected : expected.Formed eng.table.arity? []) :
    eng.Gives κ W L (eng.eval calls e) fun V v =>
      v.Stored eng.table V ∧ v.value.Suits eng.table expected := by
  rcases BodyContext.compatible_ok hcompat with hnull | hcheck
  · exact (gives_eval_null h hnull).mono fun V v _ hv => ⟨hv.2.stored, hv.1 ▸ .null expected⟩
  · refine (gives_eval h hcalls hκ (operand_of_value hactual) he).mono fun V v _ hv => ?_
    have hv : v.OfType eng.table V actual.resolved := hv
    exact ⟨hv.stored, hv.suits_of_check h hexpected hcheck⟩

theorem gives_expect {e : Expr} {expected : Ty} {u : Unit}
    (hexpect : (BodyContext.ofClass eng.table cls this? rt).expect L e expected = .ok u)
    (he : e.EachType TypeUse.CastsNothing) (hexpected : expected.Formed eng.table.arity? []) :
    eng.Gives κ W L (eng.eval calls e) fun V v =>
      v.Stored eng.table V ∧ v.value.Suits eng.table expected := by
  obtain ⟨actual, hactual, hcompat⟩ := ok_of_bind hexpect
  exact gives_compatible h hcalls hκ hactual hcompat he hexpected

end Engine

end Middleweight
