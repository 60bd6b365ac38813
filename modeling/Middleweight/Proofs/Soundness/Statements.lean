import Middleweight.Proofs.Soundness.Expressions

/-!
# Checked statements

A statement of a static body that the checker accepts leaves the locals that the checker says are
declared after it, or stops where it may; and what it returns fits the return type of the method. A
loop is safe when a round of it keeps the locals around it, which is where the update of a `for`
loop must not declare any.

* `Engine.safe_exec`, `Engine.safe_execBlock` : statements
-/

namespace Middleweight

/-! ## What the checker has made sure of -/

namespace BodyContext

variable {F : Type} {ctx : BodyContext F} {L L' : Locals}

theorem define_ok {name : Identifier} {ty : Ty} (h : define L name ty = .ok L') :
    L.define? name.name ty = some L' := by
  unfold define at h
  split at h
  · next hL =>
    cases h
    exact hL
  · cases h

/-- In a static body, what is assigned to is a local. -/
theorem lookup_of_targetType {t : ClassTable F} {cls : Template F} {rt : Option Ty}
    {target : Identifier} {ty : Ty} (h : (ofStatic t cls rt).targetType L target = .ok ty) :
    L.lookup target.name = some ty := by
  unfold targetType at h
  rw [show (ofStatic t cls rt).instanceField target.name = none from rfl] at h
  split at h
  · cases h
  · split at h
    · next hL =>
      cases h
      exact hL
    · cases h

/-- Only a declaration declares something. -/
theorem statement_of_isLocal : ∀ {s : Stmt}, s.isLocal = false → ctx.statement L s = .ok L' → L' = L
  | .localVariable _ _ _ _, hs, _ => nomatch hs
  | .assign _ _ _ _, _, h => by
    rw [statement] at h
    obtain ⟨_, -, h⟩ := ok_of_bind h
    obtain ⟨_, -, h⟩ := ok_of_bind h
    cases h
    rfl
  | .fieldAssign _ _ _ _ _, _, h => by
    rw [statement] at h
    obtain ⟨_, -, h⟩ := ok_of_bind h
    obtain ⟨_, -, h⟩ := ok_of_bind h
    obtain ⟨_, -, h⟩ := ok_of_bind h
    cases h
    rfl
  | .expression _ _, _, h => by
    rw [statement] at h
    obtain ⟨_, -, h⟩ := ok_of_bind h
    cases h
    rfl
  | .ifElse _ _ none _, _, h => by
    rw [statement] at h
    obtain ⟨_, -, h⟩ := ok_of_bind h
    obtain ⟨_, -, h⟩ := ok_of_bind h
    cases h
    rfl
  | .ifElse _ _ (some _) _, _, h => by
    rw [statement] at h
    obtain ⟨_, -, h⟩ := ok_of_bind h
    obtain ⟨_, -, h⟩ := ok_of_bind h
    obtain ⟨_, -, h⟩ := ok_of_bind h
    cases h
    rfl
  | .whileLoop _ _ _, _, h => by
    rw [statement] at h
    obtain ⟨_, -, h⟩ := ok_of_bind h
    obtain ⟨_, -, h⟩ := ok_of_bind h
    cases h
    rfl
  | .forLoop _ _ _ _ _, _, h => by
    rw [statement] at h
    obtain ⟨_, -, h⟩ := ok_of_bind h
    obtain ⟨_, -, h⟩ := ok_of_bind h
    obtain ⟨_, -, h⟩ := ok_of_bind h
    obtain ⟨_, -, h⟩ := ok_of_bind h
    cases h
    rfl
  | .returns _ _, _, h => by
    rw [statement] at h
    obtain ⟨_, -, h⟩ := ok_of_bind h
    cases h
    rfl
  | .block _ _, _, h => by
    rw [statement] at h
    obtain ⟨_, -, h⟩ := ok_of_bind h
    cases h
    rfl

/-- A declaration that is checked: its type, its value and its name. -/
theorem statement_local {ty : TypeExpr} {name : Identifier} {value : Option Expr} {span : Span}
    (h : ctx.statement L (.localVariable ty name value span) = .ok L') :
    ∃ lowered, ctx.lower ty = .ok lowered ∧
      (∀ e ∈ value, ctx.expect L e lowered = .ok ()) ∧ L.define? name.name lowered = some L' := by
  rw [statement] at h
  obtain ⟨lowered, hty, h⟩ := ok_of_bind h
  cases value with
  | none =>
    refine ⟨lowered, hty, fun e he => ?_, define_ok h⟩
    cases he
  | some e =>
    obtain ⟨_, hexpect, h⟩ := ok_of_bind h
    refine ⟨lowered, hty, fun e' he' => ?_, define_ok h⟩
    cases he'
    exact hexpect

/-- A statement declares at the innermost level only. -/
theorem tail_of_statement {s : Stmt} (h : ctx.statement L s = .ok L') (hL : L ≠ []) :
    L'.tail = L.tail ∧ L' ≠ [] := by
  cases hs : s.isLocal with
  | false =>
    obtain rfl := statement_of_isLocal hs h
    exact ⟨rfl, hL⟩
  | true =>
    cases s with
    | localVariable ty name value span =>
      obtain ⟨lowered, -, -, hdefine⟩ := statement_local h
      cases L with
      | nil => exact absurd rfl hL
      | cons level outer =>
        rw [Locals.define?] at hdefine
        split at hdefine
        · cases hdefine
        · cases hdefine
          exact ⟨rfl, List.cons_ne_nil _ _⟩
    | _ => cases hs

end BodyContext

/-! ## Flows -/

/-- What a statement returns, if it returns, fits a return type. -/
def Flow.Fits {F : Type} (t : ClassTable F) : Option Ty → Flow F → Prop
  | some ty, .returned v? => ∃ v, v? = some v ∧ v.value.Fits t ty
  | _, _ => True

theorem Flow.fits_normal {F : Type} (t : ClassTable F) (rt : Option Ty) :
    Flow.Fits t rt .normal := by
  cases rt <;> trivial

namespace Engine

variable {p : Program} {eng : Engine StandardFn} {calls : Calls StandardFn} {L L' : Locals}
  {cls : Template StandardFn} {rt : Option Ty}

/-- Where a local is declared, its type is known. -/
theorem Safe.of_lookup {α : Type} {x : EvalM StandardFn α} {Q : α → Locals → Prop} {name : String}
    {ty : Ty} (hL : L.lookup name = some ty) (hx : eng.table.Knows ty → eng.Safe L x Q) :
    eng.Safe L x Q := by
  intro m hm
  rcases rel_elim (hm.scope.lookup name) with ⟨-, hnone⟩ | ⟨v, ty', -, hsome, hv⟩
  · cases hL.symm.trans hnone
  · cases hL.symm.trans hsome
    exact hx hv.knows m hm

/-- There is always a level of locals. -/
theorem Safe.of_ne_nil {α : Type} {x : EvalM StandardFn α} {Q : α → Locals → Prop}
    (hx : L ≠ [] → eng.Safe L x Q) : eng.Safe L x Q :=
  fun m hm => hx hm.scope.ne_nil m hm

/-- A loop whose rounds keep the locals keeps them. -/
theorem keeps_rounds {test : EvalM StandardFn Bool} {body : EvalM StandardFn (Flow StandardFn)}
    {update : EvalM StandardFn Unit} (htest : eng.Keeps L test fun _ => True)
    (hbody : eng.Keeps L body (Flow.Fits eng.table rt))
    (hupdate : eng.Keeps L update fun _ => True) (n : Nat) :
    eng.Keeps L (rounds test body update n) (Flow.Fits eng.table rt) := by
  induction n with
  | zero => exact Safe.exhausted
  | succ n ih =>
    refine Keeps.bind htest fun b _ => ?_
    split
    · refine Keeps.bind hbody fun flow hflow => ?_
      cases flow with
      | returned v => exact Keeps.pure hflow
      | normal => exact Keeps.bind hupdate fun _ _ => ih
    · exact Keeps.pure (Flow.fits_normal _ _)

/-! ## Declarations and assignments -/

section Parts

variable (h : p.Accepted eng.table) (hcalls : calls.Checked eng p)

include h

omit hcalls in
/-- The default value of a class fits its type. -/
theorem fits_defaultFor {ty : Ty} {c : RuntimeClass StandardFn} (hc : eng.table.IsClassOf ty c) :
    (Value.defaultFor c).Fits eng.table ty := by
  have hmakes : eng.table.Makes c := ⟨_, hc.instantiates⟩
  have hprimitive : ∀ {q : Primitive}, c.primitive? = some q → c.name = q.name := by
    intro q hq
    have hname := ClassTable.get?_name hmakes.get?
    unfold RuntimeClass.primitive? at hq
    rcases ClassTable.mem_classes_cases h.build (ClassTable.get?_mem hmakes.get?) with
      ⟨q', heq⟩ | ⟨n, hn, hmade⟩ | ⟨d, hd, hmade⟩
    · rw [heq] at hq hname
      cases hq
      exact hname.symm
    · obtain ⟨base, -, heq⟩ := ClassTable.nativeTemplate_ok hmade
      rw [heq] at hq
      cases hq
    · obtain ⟨base, fields, -, -, heq⟩ := ClassTable.declaredTemplate_ok hmade
      rw [heq] at hq
      cases hq
  rw [← hc.asTy_eq]
  show Value.Fits _ _ (.cls c.name c.ty.args)
  unfold Value.defaultFor
  split
  · next hq =>
    rw [hprimitive hq]
    exact .kind _ (.int 0) (by decide +kernel)
  · next hq =>
    rw [hprimitive hq]
    exact .kind _ (.float 0.0) (by decide +kernel)
  · next hq =>
    rw [hprimitive hq]
    exact .kind _ (.bool false) (by decide +kernel)
  · exact .null _

include hcalls

theorem keeps_condition {e : Expr} {ty : Ty} {u : Unit}
    (he : (BodyContext.ofStatic eng.table cls rt).expect L e ty = .ok u)
    (hmakes : e.EachType TypeUse.MakesNothing) :
    eng.Keeps L (eng.condition calls e) fun _ => True := by
  obtain ⟨actual, hactual, -⟩ := ok_of_bind he
  refine Keeps.bind (keeps_eval h hcalls (operand_of_value hactual) hmakes) fun v _ => ?_
  split
  · exact Keeps.pure trivial
  · exact Safe.invalid _ _

theorem keeps_initialValue {c : RuntimeClass StandardFn} {ty : Ty}
    (hc : eng.table.IsClassOf ty c) (hknows : eng.table.Knows ty) {value : Option Expr}
    (he : ∀ e ∈ value, (BodyContext.ofStatic eng.table cls rt).expect L e ty = .ok ())
    (hmakes : ∀ e ∈ value, e.EachType TypeUse.MakesNothing) :
    eng.Keeps L (eng.initialValue calls c value) fun v => v.Fits eng.table ty := by
  cases value with
  | none => exact Keeps.pure (fits_defaultFor h hc)
  | some e =>
    exact Keeps.bind (keeps_expect h hcalls (he e rfl) (hmakes e rfl) hknows.isGround) fun v hv =>
      Keeps.pure hv

/-- An assignment to a local stores a value that fits its type. -/
theorem keeps_assignName {target : Identifier} {ty : Ty} (hL : L.lookup target.name = some ty)
    {op : AssignOp} {e : Expr} {span : Span} {u : Unit}
    (he : (BodyContext.ofStatic eng.table cls rt).assignment L ty op e span = .ok u)
    (hmakes : e.EachType TypeUse.MakesNothing) :
    eng.Keeps L (eng.assignName calls target op e span) fun _ => True := by
  refine Safe.of_lookup hL fun hknows => ?_
  unfold BodyContext.assignment at he
  unfold assignName combine
  cases hop : op.binary? with
  | none =>
    rw [hop] at he
    refine Keeps.bind (keeps_expect h hcalls he hmakes hknows.isGround) fun v hv => ?_
    exact keeps_store hL hv
  | some binary =>
    rw [hop] at he
    obtain ⟨actual, hactual, he⟩ := ok_of_bind he
    obtain ⟨result, hresult, he⟩ := ok_of_bind he
    have hcheck := (BodyContext.compatible_ok he).resolve_left Bool.false_ne_true
    refine Keeps.bind (keeps_eval h hcalls (operand_of_value hactual) hmakes) fun v _ => ?_
    have hcurrent : eng.Keeps L (do return (← eng.lookup target).value)
        fun w => w.Fits eng.table ty.resolved :=
      Keeps.bind (keeps_lookup_local hL) fun now hnow => Keeps.pure hnow.resolved.fits
    refine Keeps.bind (Keeps.bind hcurrent fun now hnow => keeps_binary h hnow hresult)
      fun w hw => ?_
    obtain ⟨k, hk, rfl⟩ := hw
    exact keeps_store hL (hk.fits.mono h.build hcheck hknows.isGround)

/-- An expression that stands as a statement is evaluated, and what it gives is dropped. -/
theorem keeps_discarded {e : Expr} {span : Span} {u : Unit}
    (he : (BodyContext.ofStatic eng.table cls rt).expressionStatement L e span = .ok u)
    (hmakes : e.EachType TypeUse.MakesNothing) :
    eng.Keeps L (eng.eval calls e) fun _ => True := by
  unfold BodyContext.expressionStatement at he
  split at he
  · -- a call may give nothing here, which is why it is not checked as a value
    obtain ⟨ret, hret, -⟩ := ok_of_bind he
    obtain ⟨o, ho, hret⟩ := ok_of_bind hret
    obtain ⟨owner, howner, hret⟩ := ok_of_bind hret
    obtain ⟨tys, htys, hret⟩ := ok_of_bind hret
    rw [Expr.EachType] at hmakes
    rw [eval]
    refine Keeps.bind (keeps_eval h hcalls ho hmakes.1) fun r hr => ?_
    refine Keeps.bind (keeps_evalAll h hcalls htys hmakes.2) fun vs hvs => ?_
    refine Keeps.bind (keeps_callMethod h hcalls hr howner hvs.1 hvs.2 hret) fun v? _ => ?_
    cases v? with
    | some v => exact Keeps.pure trivial
    | none =>
      exact Keeps.bind (keeps_classOf h.rooted (ClassTable.knows_object h.build) _) fun _ _ =>
        Keeps.pure trivial
  · rw [Expr.EachType] at hmakes
    exact absurd rfl hmakes.1.1
  · obtain ⟨actual, hactual, -⟩ := ok_of_bind he
    exact Keeps.mono (keeps_eval h hcalls (operand_of_value hactual) hmakes) fun _ _ => trivial
  · cases he

/-- What a `return` carries fits the return type. -/
theorem keeps_returnValue (hrt : ∀ ty ∈ rt, ty.IsGround) {value : Option Expr} {span : Span}
    {u : Unit} (he : (BodyContext.ofStatic eng.table cls rt).returned L value span = .ok u)
    (hmakes : ∀ e ∈ value, e.EachType TypeUse.MakesNothing) :
    eng.Keeps L (eng.returnValue calls value) fun v? => Flow.Fits eng.table rt (.returned v?) := by
  cases value with
  | none =>
    cases rt with
    | none => exact Keeps.pure trivial
    | some ty => cases he
  | some e =>
    obtain ⟨actual, hactual, he⟩ := ok_of_bind he
    cases rt with
    | none => cases he
    | some ty =>
      exact Keeps.bind (keeps_compatible h hcalls hactual he (hmakes e rfl) (hrt ty rfl))
        fun v hv => Keeps.pure ⟨v, rfl, hv⟩

omit hcalls in
/-- A field cannot be assigned to, for no value has one. -/
theorem not_fieldAssign {receiver : Expr} {field : Identifier} {op : AssignOp} {e : Expr}
    {span : Span} : (BodyContext.ofStatic eng.table cls rt).statement L
      (.fieldAssign receiver field op e span) ≠ .ok L' := by
  intro hs
  rw [BodyContext.statement] at hs
  obtain ⟨o, -, hs⟩ := ok_of_bind hs
  obtain ⟨declared, hdeclared, -⟩ := ok_of_bind hs
  cases o with
  | value ty => exact h.fieldOf_ne hdeclared
  | static className =>
    obtain ⟨found, -, hfound⟩ := ok_of_bind hdeclared
    cases found with
    | none => cases hfound
    | some _ => cases hfound
  | «namespace» path => cases hdeclared

end Parts

/-! ## Statements -/

mutual

/-- After a checked statement the locals are those that the checker says. -/
theorem safe_exec (h : p.Accepted eng.table) (hcalls : calls.Checked eng p)
    (hrt : ∀ ty ∈ rt, ty.IsGround) : ∀ {s : Stmt} {L L' : Locals},
    (BodyContext.ofStatic eng.table cls rt).statement L s = .ok L' →
    s.EachType TypeUse.MakesNothing → s.OrdinaryLocals →
    eng.Safe L (eng.exec calls s) fun flow L₁ => L₁ = L' ∧ Flow.Fits eng.table rt flow
  | .localVariable ty name value span, L, L', hs, hmakes, hlocals => by
    obtain ⟨lowered, hty, hexpect, hdefine⟩ := BodyContext.statement_local hs
    rw [Stmt.EachType] at hmakes
    rw [Stmt.OrdinaryLocals] at hlocals
    have hlower : eng.table.lower [] ty = .ok lowered := typed_ok hty
    have hknows := ClassTable.knows_of_lower hlower
    rw [exec]
    refine Keeps.bind (keeps_tellStatement _) fun _ _ => ?_
    refine Keeps.bind (keeps_resolveType h.rooted hlower) fun c hc => ?_
    refine Keeps.bind (keeps_initialValue h hcalls hc hknows hexpect hmakes.2) fun v hv => ?_
    refine Safe.bind (safe_define hlocals (hc.hasType hknows hv) hdefine) fun _ L₁ hL₁ => ?_
    exact Safe.pure ⟨hL₁, Flow.fits_normal _ _⟩
  | .assign target op e span, L, L', hs, hmakes, _ => by
    rw [BodyContext.statement] at hs
    obtain ⟨declared, hdeclared, hs⟩ := ok_of_bind hs
    obtain ⟨_, hassign, hs⟩ := ok_of_bind hs
    cases hs
    rw [Stmt.EachType] at hmakes
    have hL := BodyContext.lookup_of_targetType hdeclared
    rw [exec]
    refine Keeps.bind (keeps_tellStatement _) fun _ _ => ?_
    exact Keeps.bind (keeps_assignName h hcalls hL hassign hmakes) fun _ _ =>
      Keeps.pure (Flow.fits_normal _ _)
  | .fieldAssign _ _ _ _ _, _, _, hs, _, _ => absurd hs (not_fieldAssign h)
  | .expression e span, L, L', hs, hmakes, _ => by
    rw [BodyContext.statement] at hs
    obtain ⟨_, he, hs⟩ := ok_of_bind hs
    cases hs
    rw [Stmt.EachType] at hmakes
    rw [exec]
    refine Keeps.bind (keeps_tellStatement _) fun _ _ => ?_
    exact Keeps.bind (keeps_discarded h hcalls he hmakes) fun _ _ =>
      Keeps.pure (Flow.fits_normal _ _)
  | .ifElse test thenBranch none span, L, L', hs, hmakes, hlocals => by
    rw [BodyContext.statement] at hs
    obtain ⟨_, htest, hs⟩ := ok_of_bind hs
    obtain ⟨_, hthen, hs⟩ := ok_of_bind hs
    cases hs
    rw [Stmt.EachType] at hmakes
    rw [Stmt.OrdinaryLocals] at hlocals
    rw [exec]
    refine Keeps.bind (keeps_tellStatement _) fun _ _ => ?_
    refine Keeps.bind (keeps_condition h hcalls htest hmakes.1) fun b _ => ?_
    split
    · exact Safe.nested (safe_execBlock h hcalls hrt hthen hmakes.2 hlocals)
    · exact Keeps.pure (Flow.fits_normal _ _)
  | .ifElse test thenBranch (some elseBranch) span, L, L', hs, hmakes, hlocals => by
    rw [BodyContext.statement] at hs
    obtain ⟨_, htest, hs⟩ := ok_of_bind hs
    obtain ⟨_, hthen, hs⟩ := ok_of_bind hs
    obtain ⟨_, helse, hs⟩ := ok_of_bind hs
    cases hs
    rw [Stmt.EachType] at hmakes
    rw [Stmt.OrdinaryLocals] at hlocals
    rw [exec]
    refine Keeps.bind (keeps_tellStatement _) fun _ _ => ?_
    refine Keeps.bind (keeps_condition h hcalls htest hmakes.1) fun b _ => ?_
    split
    · exact Safe.nested (safe_execBlock h hcalls hrt hthen hmakes.2.1 hlocals.1)
    · exact Safe.nested (safe_execBlock h hcalls hrt helse hmakes.2.2 hlocals.2)
  | .whileLoop test body span, L, L', hs, hmakes, hlocals => by
    rw [BodyContext.statement] at hs
    obtain ⟨_, htest, hs⟩ := ok_of_bind hs
    obtain ⟨_, hbody, hs⟩ := ok_of_bind hs
    cases hs
    rw [Stmt.EachType] at hmakes
    rw [Stmt.OrdinaryLocals] at hlocals
    rw [exec]
    refine Keeps.bind (keeps_tellStatement _) fun _ _ => ?_
    exact keeps_rounds (keeps_condition h hcalls htest hmakes.1)
      (Safe.nested (safe_execBlock h hcalls hrt hbody hmakes.2 hlocals))
      (Keeps.pure trivial) _
  | .forLoop init test update body span, L, L', hs, hmakes, hlocals => by
    rw [BodyContext.statement] at hs
    obtain ⟨header, hinit, hs⟩ := ok_of_bind hs
    obtain ⟨_, htest, hs⟩ := ok_of_bind hs
    obtain ⟨header', hupdate, hs⟩ := ok_of_bind hs
    obtain ⟨_, hbody, hs⟩ := ok_of_bind hs
    cases hs
    rw [Stmt.EachType] at hmakes
    rw [Stmt.OrdinaryLocals] at hlocals
    obtain ⟨hinitMakes, htestMakes, hupdateMakes, hbodyMakes⟩ := hmakes
    obtain ⟨hinitLocals, hnotLocal, hupdateLocals, hbodyLocals⟩ := hlocals
    -- The update declares nothing, so every round starts with the locals of the header.
    obtain rfl := BodyContext.statement_of_isLocal hnotLocal hupdate
    obtain ⟨htail, -⟩ := BodyContext.tail_of_statement hinit (List.cons_ne_nil _ _)
    rw [exec]
    refine Keeps.bind (keeps_tellStatement _) fun _ _ => Safe.nested ?_
    refine Safe.bind (safe_exec h hcalls hrt hinit hinitMakes hinitLocals) fun _ L₁ hL₁ => ?_
    obtain ⟨rfl, -⟩ := hL₁
    have hround : eng.Keeps L₁ (EvalM.nested (eng.execBlock calls body))
        (Flow.Fits eng.table rt) :=
      Safe.nested (safe_execBlock h hcalls hrt hbody hbodyMakes hbodyLocals)
    refine Safe.mono (keeps_rounds (keeps_condition h hcalls htest htestMakes) hround ?_ _)
      fun flow L₂ hflow => ⟨hflow.1 ▸ htail, hflow.2⟩
    exact Safe.bind (safe_exec h hcalls hrt hupdate hupdateMakes hupdateLocals) fun _ L₂ hL₂ =>
      hL₂.1 ▸ Keeps.pure trivial
  | .returns value span, L, L', hs, hmakes, _ => by
    rw [BodyContext.statement] at hs
    obtain ⟨_, hreturned, hs⟩ := ok_of_bind hs
    cases hs
    rw [Stmt.EachType] at hmakes
    rw [exec]
    refine Keeps.bind (keeps_tellStatement _) fun _ _ => ?_
    exact Keeps.bind (keeps_returnValue h hcalls hrt hreturned hmakes) fun _ hv => Keeps.pure hv
  | .block body span, L, L', hs, hmakes, hlocals => by
    rw [BodyContext.statement] at hs
    obtain ⟨_, hbody, hs⟩ := ok_of_bind hs
    cases hs
    rw [Stmt.EachType] at hmakes
    rw [Stmt.OrdinaryLocals] at hlocals
    rw [exec]
    refine Keeps.bind (keeps_tellStatement _) fun _ _ => ?_
    exact Safe.nested (safe_execBlock h hcalls hrt hbody hmakes hlocals)

/-- After checked statements the locals around their level are as before. -/
theorem safe_execBlock (h : p.Accepted eng.table) (hcalls : calls.Checked eng p)
    (hrt : ∀ ty ∈ rt, ty.IsGround) : ∀ {ss : List Stmt} {L L' : Locals},
    (BodyContext.ofStatic eng.table cls rt).statements L ss = .ok L' →
    Stmt.EachTypeIn TypeUse.MakesNothing ss → Stmt.OrdinaryLocalsIn ss →
    eng.Safe L (eng.execBlock calls ss) fun flow L₁ =>
      L₁.tail = L.tail ∧ Flow.Fits eng.table rt flow
  | [], L, _, _, _, _ => by
    rw [execBlock]
    exact Safe.pure ⟨rfl, Flow.fits_normal _ _⟩
  | s :: rest, L, L', hss, hmakes, hlocals => by
    rw [BodyContext.statements] at hss
    obtain ⟨M, hs, hrest⟩ := ok_of_bind hss
    rw [Stmt.EachTypeIn] at hmakes
    rw [Stmt.OrdinaryLocalsIn] at hlocals
    rw [execBlock]
    refine Safe.of_ne_nil fun hL => ?_
    obtain ⟨htail, -⟩ := BodyContext.tail_of_statement hs hL
    refine Safe.bind (safe_exec h hcalls hrt hs hmakes.1 hlocals.1) fun flow L₁ hflow => ?_
    obtain ⟨rfl, hflow⟩ := hflow
    cases flow with
    | returned v => exact Safe.pure ⟨htail, hflow⟩
    | normal =>
      exact Safe.mono (safe_execBlock h hcalls hrt hrest hmakes.2 hlocals.2) fun _ _ hend =>
        ⟨hend.1.trans htail, hend.2⟩

end

end Engine

end Middleweight
