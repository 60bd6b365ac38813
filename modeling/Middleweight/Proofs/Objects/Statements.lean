import Middleweight.Proofs.Objects.Expressions
import Middleweight.Proofs.Soundness.Statements

/-!
# Statements in bodies of objects

A statement that the checker accepts leaves the locals that the checker says are declared after it,
or stops where it may. What it returns suits the return type of the method, and a body that has to
return something does.

* `Engine.yields_exec`, `Engine.yields_execBlock` : statements
-/

namespace Middleweight

/-- What a statement returns, if it returns, suits the return type. -/
def Flow.Suits {F : Type} (t : ClassTable F) (rt : Option Ty) (V : World F) : Flow F → Prop
  | .returned v? => ∀ ty ∈ rt, ∃ v, v? = some v ∧ v.value.Valid t V ∧ v.value.Suits t ty
  | .normal => True

namespace Engine

variable {p : Program} {eng : Engine StandardFn} {calls : Calls StandardFn}
  {κ : Context StandardFn} {W : World StandardFn} {L L' : Locals} {this? : Option ClassTy}
  {cls : Template StandardFn} {rt : Option Ty}

/-- A loop whose rounds keep the locals keeps them. -/
theorem gives_rounds {test : EvalM StandardFn Bool} {body : EvalM StandardFn (Flow StandardFn)}
    {update : EvalM StandardFn Unit}
    (htest : ∀ W, eng.Gives κ W L test fun _ _ => True)
    (hbody : ∀ W, eng.Gives κ W L body (Flow.Suits eng.table rt))
    (hupdate : ∀ W, eng.Gives κ W L update fun _ _ => True) (n : Nat) (W : World StandardFn) :
    eng.Gives κ W L (rounds test body update n) (Flow.Suits eng.table rt) := by
  induction n generalizing W with
  | zero => exact Yields.exhausted
  | succ n ih =>
    refine (htest W).bind fun V b _ _ => ?_
    split
    · refine (hbody V).bind fun U flow _ hflow => ?_
      cases flow with
      | returned v => exact Gives.pure hflow
      | normal => exact (hupdate U).bind fun T _ _ _ => ih T
    · exact Gives.pure trivial

/-! ## Declarations and assignments -/

section Parts

variable (h : p.WellTyped eng.table) (hcalls : calls.Typed eng) (hκ : κ.Sees this?)

include h hcalls hκ

theorem gives_condition {e : Expr} {ty : Ty} {u : Unit}
    (he : (BodyContext.ofClass eng.table cls this? rt).expect L e ty = .ok u)
    (hcasts : e.EachType TypeUse.CastsNothing) :
    eng.Gives κ W L (eng.condition calls e) fun _ _ => True := by
  obtain ⟨actual, hactual, -⟩ := ok_of_bind he
  refine (gives_eval h hcalls hκ (operand_of_value hactual) hcasts).bind fun V v _ _ => ?_
  split
  · exact Gives.pure trivial
  · exact Yields.invalid _ _

theorem gives_initialValue {c : RuntimeClass StandardFn} {ty : Ty}
    (hc : eng.table.IsClassOf ty c) (hformed : ty.Formed eng.table.arity? []) {value : Option Expr}
    (he : ∀ e ∈ value, (BodyContext.ofClass eng.table cls this? rt).expect L e ty = .ok ())
    (hcasts : ∀ e ∈ value, e.EachType TypeUse.CastsNothing) :
    eng.Gives κ W L (eng.initialValue calls c value) fun V v =>
      v.Valid eng.table V ∧ v.Suits eng.table ty := by
  cases value with
  | none =>
    refine Gives.pure ⟨Value.valid_defaultFor c, ?_⟩
    rw [← hc.asTy_eq]
    exact Value.suits_defaultFor h hc.makes (hc.asTy_eq ▸ hformed)
  | some e =>
    exact (gives_expect h hcalls hκ (he e rfl) (hcasts e rfl) hformed).map fun V v _ hv =>
      ⟨hv.1.value, hv.2⟩

/-- What an assignment evaluates fits what it is assigned to. -/
theorem gives_assigned {declared : Ty} (hdeclared : declared.Formed eng.table.arity? [])
    {op : AssignOp} {e : Expr} {span : Span} {u : Unit}
    (he : (BodyContext.ofClass eng.table cls this? rt).assignment L declared op e span = .ok u)
    (hcasts : e.EachType TypeUse.CastsNothing) :
    eng.Gives κ W L (eng.eval calls e) fun V v =>
      v.value.Valid eng.table V ∧ op.Fits eng.table declared v.value := by
  unfold BodyContext.assignment at he
  unfold AssignOp.Fits
  cases hop : op.binary? with
  | none =>
    rw [hop] at he
    exact (gives_expect h hcalls hκ he hcasts hdeclared).mono fun V v _ hv => ⟨hv.1.value, hv.2⟩
  | some binary =>
    rw [hop] at he
    obtain ⟨actual, hactual, he⟩ := ok_of_bind he
    obtain ⟨result, hresult, he⟩ := ok_of_bind he
    have hcheck := (BodyContext.compatible_ok he).resolve_left Bool.false_ne_true
    obtain ⟨x, hx, hfits, -, rfl⟩ := BodyContext.applyRule_ok hresult
    refine (gives_eval h hcalls hκ (operand_of_value hactual) hcasts).mono fun V v _ hv => ?_
    have hv : v.OfType eng.table V actual.resolved := hv
    exact ⟨hv.stored.value, x, hx, hfits, hcheck⟩

/-- An assignment to a bare name. -/
theorem gives_assignName {target : Identifier} {ty : Ty}
    (hty : (BodyContext.ofClass eng.table cls this? rt).targetType L target = .ok ty)
    {op : AssignOp} {e : Expr} {span : Span} {u : Unit}
    (he : (BodyContext.ofClass eng.table cls this? rt).assignment L ty op e span = .ok u)
    (hcasts : e.EachType TypeUse.CastsNothing) :
    eng.Gives κ W L (eng.assignName calls target op e span) fun _ _ => True := by
  have hstores := BodyContext.stores_of_targetType hty
  refine Yields.of_typed fun m hm => ?_
  have hformed := formed_of_stores h hκ hm hstores
  refine (gives_assigned h hcalls hκ hformed he hcasts).bind fun V v _ hv => ?_
  refine (gives_combine h hformed ?_ hv.1 hv.2 span).bind fun U w _ hw =>
    gives_store h hκ hstores hw.1 hw.2
  have hoperand := BodyContext.variableOperand_eq_value.mpr hstores
  refine (gives_lookup h hκ hoperand).map fun U now _ hnow => ?_
  have hnow : now.OfType eng.table U ty.resolved := hnow
  exact Value.suits_resolved.mp (hnow.value h)

/-- An assignment to a field of a value. -/
theorem gives_assignField {receiver : Expr} {o : Operand}
    (ho : (BodyContext.ofClass eng.table cls this? rt).operand L receiver = .ok o) {place : Span}
    {field : Identifier} {declared : Ty}
    (hdeclared : (BodyContext.ofClass eng.table cls this? rt).fieldTargetType o place field =
      .ok declared) {op : AssignOp} {e : Expr} {span : Span} {u : Unit}
    (he : (BodyContext.ofClass eng.table cls this? rt).assignment L declared op e span = .ok u)
    (hreceiver : receiver.EachType TypeUse.CastsNothing)
    (hcasts : e.EachType TypeUse.CastsNothing) :
    eng.Gives κ W L (eng.assignField calls receiver field op e span) fun _ _ => True := by
  cases o with
  | static className =>
    obtain ⟨found, -, hfound⟩ := ok_of_bind hdeclared
    cases found with
    | none => cases hfound
    | some _ => cases hfound
  | «namespace» path => cases hdeclared
  | value ty =>
    refine (gives_eval h hcalls hκ ho hreceiver).bind fun V r _ hr => ?_
    have hr : r.OfType eng.table V ty.resolved := hr
    have howner := Ty.toTy_memberClass hr.formed ▸ hr.formed
    have hformed := h.formed_fieldType howner (BodyContext.fieldOf_ok hdeclared)
    refine (gives_assigned h hcalls hκ hformed he hcasts).bind fun U v hU hv => ?_
    exact gives_storeField h hdeclared (hr.mono hU) hv.1 hv.2 span

/-- An expression that stands as a statement is evaluated, and what it gives is dropped. -/
theorem gives_discarded {e : Expr} {span : Span} {u : Unit}
    (he : (BodyContext.ofClass eng.table cls this? rt).expressionStatement L e span = .ok u)
    (hcasts : e.EachType TypeUse.CastsNothing) :
    eng.Gives κ W L (eng.eval calls e) fun _ _ => True := by
  have hvalue : ∀ {ty : Ty}, (BodyContext.ofClass eng.table cls this? rt).value L e = .ok ty →
      eng.Gives κ W L (eng.eval calls e) fun _ _ => True := fun hty =>
    (gives_eval h hcalls hκ (operand_of_value hty) hcasts).mono fun _ _ _ _ => trivial
  unfold BodyContext.expressionStatement at he
  split at he
  · -- a call may give nothing here, which is why it is not checked as a value
    obtain ⟨ret, hret, -⟩ := ok_of_bind he
    obtain ⟨o, ho, hret⟩ := ok_of_bind hret
    obtain ⟨owner, howner, hret⟩ := ok_of_bind hret
    obtain ⟨tys, htys, hret⟩ := ok_of_bind hret
    rw [Expr.EachType] at hcasts
    exact (gives_call h hcalls (gives_eval h hcalls hκ ho hcasts.1) howner
      (fun _ _ => gives_evalAll h hcalls hκ htys hcasts.2) hret).mono fun _ _ _ _ => trivial
  · obtain ⟨ty, hty, -⟩ := ok_of_bind he
    exact hvalue hty
  · obtain ⟨ty, hty, -⟩ := ok_of_bind he
    exact hvalue hty
  · cases he

/-- What a `return` carries suits the return type. -/
theorem gives_returnValue (hrt : ∀ ty ∈ rt, ty.Formed eng.table.arity? []) {value : Option Expr}
    {span : Span} {u : Unit}
    (he : (BodyContext.ofClass eng.table cls this? rt).returned L value span = .ok u)
    (hcasts : ∀ e ∈ value, e.EachType TypeUse.CastsNothing) :
    eng.Gives κ W L (eng.returnValue calls value) fun V v? =>
      Flow.Suits eng.table rt V (.returned v?) := by
  cases value with
  | none =>
    cases rt with
    | none => exact Gives.pure fun _ h => nomatch h
    | some ty => cases he
  | some e =>
    obtain ⟨actual, hactual, he⟩ := ok_of_bind he
    cases rt with
    | none => cases he
    | some ty =>
      refine (gives_compatible h hcalls hκ hactual he (hcasts e rfl) (hrt ty rfl)).map
        fun V v _ hv ty' hty' => ?_
      cases hty'
      exact ⟨v, rfl, hv.1.value, hv.2⟩

end Parts

/-! ## Statements -/

mutual

/-- After a checked statement the locals are those that the checker says. -/
theorem yields_exec (h : p.WellTyped eng.table) (hcalls : calls.Typed eng) (hκ : κ.Sees this?)
    (hrt : ∀ ty ∈ rt, ty.Formed eng.table.arity? []) : ∀ {s : Stmt} {W : World StandardFn}
    {L L' : Locals}, (BodyContext.ofClass eng.table cls this? rt).statement L s = .ok L' →
    s.EachType TypeUse.CastsNothing → s.OrdinaryLocals →
    eng.Yields κ W L (eng.exec calls s) fun V L₁ flow => L₁ = L' ∧ Flow.Suits eng.table rt V flow
  | .localVariable ty name value span, W, L, L', hs, hcasts, hlocals => by
    obtain ⟨lowered, hty, hexpect, hdefine⟩ := BodyContext.statement_local hs
    rw [Stmt.EachType] at hcasts
    rw [Stmt.OrdinaryLocals] at hlocals
    have hlower : eng.table.lower [] ty = .ok lowered := typed_ok hty
    have hformed := ClassTable.formed_of_lower hlower
    rw [exec]
    refine (gives_tellStatement _).bind fun V₁ _ _ _ => ?_
    refine (gives_resolveType h hlower).bind fun V₂ c _ hc => ?_
    refine (gives_initialValue h hcalls hκ hc hformed hexpect hcasts.2).bind fun V₃ v _ hv => ?_
    refine Yields.bind (yields_define hlocals (hc.declares hformed hv.2) (hc.stored hv.1) hdefine)
      fun V₄ L₁ _ _ hL₁ => Yields.pure ⟨hL₁, trivial⟩
  | .assign target op e span, W, L, L', hs, hcasts, _ => by
    rw [BodyContext.statement] at hs
    obtain ⟨declared, hdeclared, hs⟩ := ok_of_bind hs
    obtain ⟨_, hassign, hs⟩ := ok_of_bind hs
    cases hs
    rw [Stmt.EachType] at hcasts
    rw [exec]
    refine (gives_tellStatement _).bind fun _ _ _ _ => ?_
    exact (gives_assignName h hcalls hκ hdeclared hassign hcasts).bind fun _ _ _ _ =>
      Gives.pure trivial
  | .fieldAssign receiver field op e span, W, L, L', hs, hcasts, _ => by
    rw [BodyContext.statement] at hs
    obtain ⟨o, ho, hs⟩ := ok_of_bind hs
    obtain ⟨declared, hdeclared, hs⟩ := ok_of_bind hs
    obtain ⟨_, hassign, hs⟩ := ok_of_bind hs
    cases hs
    rw [Stmt.EachType] at hcasts
    rw [exec]
    refine (gives_tellStatement _).bind fun _ _ _ _ => ?_
    exact (gives_assignField h hcalls hκ ho hdeclared hassign hcasts.1 hcasts.2).bind
      fun _ _ _ _ => Gives.pure trivial
  | .expression e span, W, L, L', hs, hcasts, _ => by
    rw [BodyContext.statement] at hs
    obtain ⟨_, he, hs⟩ := ok_of_bind hs
    cases hs
    rw [Stmt.EachType] at hcasts
    rw [exec]
    refine (gives_tellStatement _).bind fun _ _ _ _ => ?_
    exact (gives_discarded h hcalls hκ he hcasts).bind fun _ _ _ _ => Gives.pure trivial
  | .ifElse test thenBranch none span, W, L, L', hs, hcasts, hlocals => by
    rw [BodyContext.statement] at hs
    obtain ⟨_, htest, hs⟩ := ok_of_bind hs
    obtain ⟨_, hthen, hs⟩ := ok_of_bind hs
    cases hs
    rw [Stmt.EachType] at hcasts
    rw [Stmt.OrdinaryLocals] at hlocals
    rw [exec]
    refine (gives_tellStatement _).bind fun _ _ _ _ => ?_
    refine (gives_condition h hcalls hκ htest hcasts.1).bind fun _ b _ _ => ?_
    split
    · exact Yields.nested (yields_execBlock h hcalls hκ hrt hthen hcasts.2 hlocals)
    · exact Gives.pure trivial
  | .ifElse test thenBranch (some elseBranch) span, W, L, L', hs, hcasts, hlocals => by
    rw [BodyContext.statement] at hs
    obtain ⟨_, htest, hs⟩ := ok_of_bind hs
    obtain ⟨_, hthen, hs⟩ := ok_of_bind hs
    obtain ⟨_, helse, hs⟩ := ok_of_bind hs
    cases hs
    rw [Stmt.EachType] at hcasts
    rw [Stmt.OrdinaryLocals] at hlocals
    rw [exec]
    refine (gives_tellStatement _).bind fun _ _ _ _ => ?_
    refine (gives_condition h hcalls hκ htest hcasts.1).bind fun _ b _ _ => ?_
    split
    · exact Yields.nested (yields_execBlock h hcalls hκ hrt hthen hcasts.2.1 hlocals.1)
    · exact Yields.nested (yields_execBlock h hcalls hκ hrt helse hcasts.2.2 hlocals.2)
  | .whileLoop test body span, W, L, L', hs, hcasts, hlocals => by
    rw [BodyContext.statement] at hs
    obtain ⟨_, htest, hs⟩ := ok_of_bind hs
    obtain ⟨_, hbody, hs⟩ := ok_of_bind hs
    cases hs
    rw [Stmt.EachType] at hcasts
    rw [Stmt.OrdinaryLocals] at hlocals
    rw [exec]
    refine (gives_tellStatement _).bind fun V _ _ _ => ?_
    exact gives_rounds (fun _ => gives_condition h hcalls hκ htest hcasts.1)
      (fun _ => Yields.nested (yields_execBlock h hcalls hκ hrt hbody hcasts.2 hlocals))
      (fun _ => Gives.pure trivial) _ V
  | .forLoop init test update body span, W, L, L', hs, hcasts, hlocals => by
    rw [BodyContext.statement] at hs
    obtain ⟨header, hinit, hs⟩ := ok_of_bind hs
    obtain ⟨_, htest, hs⟩ := ok_of_bind hs
    obtain ⟨header', hupdate, hs⟩ := ok_of_bind hs
    obtain ⟨_, hbody, hs⟩ := ok_of_bind hs
    cases hs
    rw [Stmt.EachType] at hcasts
    rw [Stmt.OrdinaryLocals] at hlocals
    obtain ⟨hinitCasts, htestCasts, hupdateCasts, hbodyCasts⟩ := hcasts
    obtain ⟨hinitLocals, hnotLocal, hupdateLocals, hbodyLocals⟩ := hlocals
    -- The update declares nothing, so every round starts with the locals of the header.
    obtain rfl := BodyContext.statement_of_isLocal hnotLocal hupdate
    obtain ⟨htail, -⟩ := BodyContext.tail_of_statement hinit (List.cons_ne_nil _ _)
    rw [exec]
    refine (gives_tellStatement _).bind fun V _ _ _ => Yields.nested ?_
    refine Yields.bind (yields_exec h hcalls hκ hrt hinit hinitCasts hinitLocals)
      fun U L₁ _ _ hL₁ => ?_
    obtain ⟨rfl, -⟩ := hL₁
    have hround : ∀ W, eng.Gives κ W L₁ (EvalM.nested (eng.execBlock calls body))
        (Flow.Suits eng.table rt) := fun _ =>
      Yields.nested (yields_execBlock h hcalls hκ hrt hbody hbodyCasts hbodyLocals)
    refine Yields.mono (gives_rounds (fun _ => gives_condition h hcalls hκ htest htestCasts) hround
      (fun _ => ?_) _ U) fun _ L₂ flow _ hflow => ⟨hflow.1 ▸ htail, hflow.2⟩
    exact Yields.bind (yields_exec h hcalls hκ hrt hupdate hupdateCasts hupdateLocals)
      fun _ L₂ _ _ hL₂ => hL₂.1 ▸ Gives.pure trivial
  | .returns value span, W, L, L', hs, hcasts, _ => by
    rw [BodyContext.statement] at hs
    obtain ⟨_, hreturned, hs⟩ := ok_of_bind hs
    cases hs
    rw [Stmt.EachType] at hcasts
    rw [exec]
    refine (gives_tellStatement _).bind fun _ _ _ _ => ?_
    exact (gives_returnValue h hcalls hκ hrt hreturned hcasts).bind fun _ _ _ hv => Gives.pure hv
  | .block body span, W, L, L', hs, hcasts, hlocals => by
    rw [BodyContext.statement] at hs
    obtain ⟨_, hbody, hs⟩ := ok_of_bind hs
    cases hs
    rw [Stmt.EachType] at hcasts
    rw [Stmt.OrdinaryLocals] at hlocals
    rw [exec]
    refine (gives_tellStatement _).bind fun _ _ _ _ => ?_
    exact Yields.nested (yields_execBlock h hcalls hκ hrt hbody hcasts hlocals)

/-- After checked statements the locals around their level are as before. -/
theorem yields_execBlock (h : p.WellTyped eng.table) (hcalls : calls.Typed eng) (hκ : κ.Sees this?)
    (hrt : ∀ ty ∈ rt, ty.Formed eng.table.arity? []) : ∀ {ss : List Stmt} {W : World StandardFn}
    {L L' : Locals}, (BodyContext.ofClass eng.table cls this? rt).statements L ss = .ok L' →
    Stmt.EachTypeIn TypeUse.CastsNothing ss → Stmt.OrdinaryLocalsIn ss →
    eng.Yields κ W L (eng.execBlock calls ss) fun V L₁ flow =>
      L₁.tail = L.tail ∧ Flow.Suits eng.table rt V flow
  | [], W, L, _, _, _, _ => by
    rw [execBlock]
    exact Yields.pure ⟨rfl, trivial⟩
  | s :: rest, W, L, L', hss, hcasts, hlocals => by
    rw [BodyContext.statements] at hss
    obtain ⟨M, hs, hrest⟩ := ok_of_bind hss
    rw [Stmt.EachTypeIn] at hcasts
    rw [Stmt.OrdinaryLocalsIn] at hlocals
    rw [execBlock]
    refine Yields.of_typed fun m hm => ?_
    obtain ⟨htail, -⟩ := BodyContext.tail_of_statement hs hm.scope.ne_nil
    refine Yields.bind (yields_exec h hcalls hκ hrt hs hcasts.1 hlocals.1)
      fun V L₁ flow _ hflow => ?_
    obtain ⟨rfl, hflow⟩ := hflow
    cases flow with
    | returned v => exact Yields.pure ⟨htail, hflow⟩
    | normal =>
      exact Yields.mono (yields_execBlock h hcalls hκ hrt hrest hcasts.2 hlocals.2)
        fun _ L₂ _ _ hL₂ => ⟨hL₂.1.trans htail, hL₂.2⟩

end

end Engine

end Middleweight
