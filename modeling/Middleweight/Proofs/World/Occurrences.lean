import Middleweight.Proofs.Analysis.FieldNames
import Middleweight.Proofs.Engine.ScopeNames
import Middleweight.Proofs.Objects.Dispatch
import Middleweight.Proofs.Soundness.Statements
import Middleweight.Proofs.World.Arguments
import Middleweight.Proofs.World.ConcreteRuns
import Middleweight.Proofs.World.Entry
import Middleweight.Proofs.World.Moments

/-!
# Code of checked bodies at the moments of a run

The checker goes over the bodies of a program once; a run comes to parts of them as often as it
does. At every moment at which a part of a body is about to be carried out, the checker has come to
that part too, in a context and with locals that follow from the way that the run has taken into the
body: `Occurs` goes over a body as the run does and keeps the locals of the checker meanwhile.

* `BodyContext.localsAt`, `BodyContext.Accepts` : the locals of the checker, and what it accepts
* `Leads.accepts` : the checker has accepted the parts of what it accepts
* `Occurs` : a moment at which a run comes to what the checker came to
* `Reaches.exists_occurs` : every moment of a run with a part of a body is such a moment
-/

namespace Middleweight

open NativeRegistry (standard)

variable {F : Type}

/-- Whether an activity carries out a part of a body. -/
def Activity.isCode : Activity F → Bool
  | expression _ | expressions _ | statement _ | statements _ | rounds _ _ _ _ => true
  | _ => false

/-! ## Locals of the checker -/

namespace BodyContext

/--
The locals with which the checker comes to a part of a body, given those with which it comes to the
part around it. The body of a loop is checked after the update.
-/
def localsAt (ctx : BodyContext F) (L : Locals) : Activity F → Activity F → Checked Locals
  | .statements (s :: _), .statements _ => ctx.statement L s
  | .statement (.forLoop _ _ _ _ _), .statement _ => .ok L.push
  | .statement (.forLoop init _ _ _ _), .rounds _ _ _ _ => ctx.statement L.push init
  | .statement _, .statements _ => .ok L.push
  | .rounds _ _ none _, .statements _ => .ok L.push
  | .rounds _ _ (some update) _, .statements _ => (ctx.statement L update).map Locals.push
  | _, _ => .ok L

theorem localsAt_expression {ctx : BodyContext F} {L : Locals} (a : Activity F) (e : Expr) :
    ctx.localsAt L a (.expression e) = .ok L := by
  unfold localsAt
  split <;> first | rfl | simp_all

/-- What the checker accepts as an expression: it stands for something, or it is a call. -/
inductive Evaluable (ctx : BodyContext F) (L : Locals) : Expr → Prop
  | operand {e : Expr} {o : Operand} : ctx.operand L e = .ok o → Evaluable ctx L e
  | call {receiver : Expr} {method : Identifier} {arguments : List Expr} {span : Span}
      {ret : Option Ty} : ctx.callType L receiver method arguments span = .ok ret →
      Evaluable ctx L (.call receiver method arguments span)

/-- The checker accepts a part of a body with some locals. -/
def Accepts (ctx : BodyContext F) (L : Locals) : Activity F → Prop
  | .expression e => ctx.Evaluable L e
  | .expressions es => ∃ tys, ctx.values L es = .ok tys
  | .statement s => ∃ L', ctx.statement L s = .ok L'
  | .statements ss => ∃ L', ctx.statements L ss = .ok L'
  | .rounds test body none _ =>
    ctx.expect L test .boolean = .ok () ∧ ∃ L', ctx.statements L.push body = .ok L'
  | .rounds test body (some update) _ =>
    ctx.expect L test .boolean = .ok () ∧ ∃ L₁, ctx.statement L update = .ok L₁ ∧
      ∃ L', ctx.statements L₁.push body = .ok L'
  | _ => False

variable {ctx : BodyContext F} {L : Locals}

theorem evaluable_of_value {e : Expr} {ty : Ty} (h : ctx.value L e = .ok ty) :
    ctx.Evaluable L e := by
  obtain ⟨o, ho, -⟩ := ok_of_bind h
  exact .operand ho

theorem evaluable_of_expect {e : Expr} {ty : Ty} {u : Unit} (h : ctx.expect L e ty = .ok u) :
    ctx.Evaluable L e := by
  obtain ⟨actual, hactual, -⟩ := ok_of_bind h
  exact evaluable_of_value hactual

/-- A literal `null`, which the checker does not look at among arguments, stands for a value. -/
theorem evaluable_of_isNullLiteral : ∀ {e : Expr}, e.isNullLiteral = true → ctx.Evaluable L e
  | .literal .null _, _ => .operand (by rw [operand])
  | .group e _, h => by
    rw [Expr.isNullLiteral] at h
    cases evaluable_of_isNullLiteral h with
    | operand ho => exact .operand (by rw [operand, ho])
    | call _ => cases h

theorem values_cons_ok {e : Expr} {es : List Expr} {tys : List Ty}
    (h : ctx.values L (e :: es) = .ok tys) :
    ctx.Evaluable L e ∧ ∃ tys', ctx.values L es = .ok tys' := by
  rw [values] at h
  split at h
  · next hnull =>
    obtain ⟨_, -, h⟩ := ok_of_bind h
    obtain ⟨tys', htys, -⟩ := ok_of_bind h
    exact ⟨evaluable_of_isNullLiteral hnull, tys', htys⟩
  · obtain ⟨ty, hty, h⟩ := ok_of_bind h
    obtain ⟨tys', htys, -⟩ := ok_of_bind h
    exact ⟨evaluable_of_value hty, tys', htys⟩

/-- A call that stands for a value is accepted as a call. -/
theorem Evaluable.callType {receiver : Expr} {method : Identifier} {arguments : List Expr}
    {span : Span} (h : ctx.Evaluable L (.call receiver method arguments span)) :
    ∃ ret, ctx.callType L receiver method arguments span = .ok ret := by
  cases h with
  | call hret => exact ⟨_, hret⟩
  | operand ho =>
    rw [BodyContext.operand] at ho
    obtain ⟨r, hr, ho⟩ := ok_of_bind ho
    obtain ⟨owner, howner, ho⟩ := ok_of_bind ho
    obtain ⟨tys, htys, ho⟩ := ok_of_bind ho
    obtain ⟨ret, hret, -⟩ := ok_of_bind ho
    refine ⟨ret, ?_⟩
    simp only [BodyContext.callType, hr, howner, htys, hret, bind, Except.bind]

/-- The receiver of a call and its arguments are accepted. -/
theorem Evaluable.call_parts {receiver : Expr} {method : Identifier} {arguments : List Expr}
    {span : Span} (h : ctx.Evaluable L (.call receiver method arguments span)) :
    ctx.Evaluable L receiver ∧ ∃ tys, ctx.values L arguments = .ok tys := by
  obtain ⟨ret, hret⟩ := h.callType
  obtain ⟨o, ho, hret⟩ := ok_of_bind hret
  obtain ⟨owner, -, hret⟩ := ok_of_bind hret
  obtain ⟨tys, htys, -⟩ := ok_of_bind hret
  exact ⟨.operand ho, tys, htys⟩

/-- What is accepted and is no call stands for something. -/
theorem Evaluable.exists_operand {e : Expr} (h : ctx.Evaluable L e)
    (he : ∀ receiver method arguments span, e ≠ .call receiver method arguments span) :
    ∃ o, ctx.operand L e = .ok o := by
  cases h with
  | operand ho => exact ⟨_, ho⟩
  | call _ => exact absurd rfl (he _ _ _ _)

/-- The expression that is evaluated first is accepted. -/
theorem Evaluable.first {e e' : Expr} (h : ctx.Evaluable L e) (hfirst : e.first? = some e') :
    ctx.Evaluable L e' := by
  cases h with
  | call hret =>
    cases hfirst
    exact (Evaluable.call hret).call_parts.1
  | operand ho =>
    cases e with
    | call receiver method arguments span =>
      cases hfirst
      exact (Evaluable.operand ho).call_parts.1
    | step op before target span =>
      cases target with
      | field receiver name place =>
        cases hfirst
        rw [BodyContext.operand, BodyContext.operand] at ho
        obtain ⟨vo, hvo, -⟩ := ok_of_bind ho
        obtain ⟨ro, hro, -⟩ := ok_of_bind hvo
        exact .operand hro
      | _ => cases hfirst
    | group e span =>
      cases hfirst
      rw [BodyContext.operand] at ho
      exact .operand ho
    | literal _ _ => cases hfirst
    | var _ => cases hfirst
    | new _ _ _ => cases hfirst
    | cast _ _ _ => cases hfirst
    | instanceOf _ _ _ => cases hfirst
    | _ =>
      cases hfirst
      rw [BodyContext.operand] at ho
      obtain ⟨o', ho', -⟩ := ok_of_bind ho
      exact .operand ho'

theorem evaluable_of_assignment {declared : Ty} {op : AssignOp} {e : Expr} {span : Span} {u : Unit}
    (h : ctx.assignment L declared op e span = .ok u) : ctx.Evaluable L e := by
  unfold assignment at h
  split at h
  · exact evaluable_of_expect h
  · obtain ⟨actual, hactual, -⟩ := ok_of_bind h
    exact evaluable_of_value hactual

theorem evaluable_of_expressionStatement {e : Expr} {span : Span} {u : Unit}
    (h : ctx.expressionStatement L e span = .ok u) : ctx.Evaluable L e := by
  unfold expressionStatement at h
  split at h
  · obtain ⟨ret, hret, -⟩ := ok_of_bind h
    exact .call hret
  · obtain ⟨ty, hty, -⟩ := ok_of_bind h
    exact evaluable_of_value hty
  · obtain ⟨ty, hty, -⟩ := ok_of_bind h
    exact evaluable_of_value hty
  · cases h

/-- The test of a choice and what follows it are accepted. -/
theorem statement_ifElse {test : Expr} {thenBranch : List Stmt} {other : Option (List Stmt)}
    {span : Span} {L' : Locals}
    (h : ctx.statement L (.ifElse test thenBranch other span) = .ok L') :
    ctx.Evaluable L test ∧ ∃ L₁, ctx.statements L.push thenBranch = .ok L₁ := by
  cases other with
  | none =>
    rw [statement] at h
    obtain ⟨_, htest, h⟩ := ok_of_bind h
    obtain ⟨L₁, hbody, -⟩ := ok_of_bind h
    exact ⟨evaluable_of_expect htest, L₁, hbody⟩
  | some elseBranch =>
    rw [statement] at h
    obtain ⟨_, htest, h⟩ := ok_of_bind h
    obtain ⟨L₁, hbody, -⟩ := ok_of_bind h
    exact ⟨evaluable_of_expect htest, L₁, hbody⟩

/-- The expression in a statement that is evaluated first is accepted. -/
theorem evaluable_first {s : Stmt} {e : Expr} {L' : Locals} (h : ctx.statement L s = .ok L')
    (hfirst : s.first? = some e) : ctx.Evaluable L e := by
  cases s with
  | assign target op value span =>
    cases hfirst
    rw [statement] at h
    obtain ⟨declared, -, h⟩ := ok_of_bind h
    obtain ⟨_, hassign, -⟩ := ok_of_bind h
    exact evaluable_of_assignment hassign
  | fieldAssign receiver field op value span =>
    cases hfirst
    rw [statement] at h
    obtain ⟨o, ho, -⟩ := ok_of_bind h
    exact .operand ho
  | expression value span =>
    cases hfirst
    rw [statement] at h
    obtain ⟨_, hvalue, -⟩ := ok_of_bind h
    exact evaluable_of_expressionStatement hvalue
  | ifElse test thenBranch other span =>
    cases hfirst
    exact (statement_ifElse h).1
  | returns value span =>
    obtain rfl : value = some e := hfirst
    rw [statement] at h
    obtain ⟨_, hreturned, -⟩ := ok_of_bind h
    obtain ⟨actual, hactual, -⟩ := ok_of_bind hreturned
    exact evaluable_of_value hactual
  | _ => cases hfirst

section Rounds

variable {test : Expr} {body : List Stmt} {update : Option Stmt} {k n : Nat}

@[simp] theorem localsAt_again :
    ctx.localsAt L (.rounds test body update k) (.rounds test body update n) = .ok L := by
  cases update <;> rfl

theorem evaluable_test (h : ctx.Accepts L (.rounds test body update k)) :
    ctx.Evaluable L test := by
  cases update with
  | none => exact evaluable_of_expect h.1
  | some u => exact evaluable_of_expect h.1

theorem accepts_round (h : ctx.Accepts L (.rounds test body update k)) :
    ∃ L', ctx.localsAt L (.rounds test body update n) (.statements body) = .ok L' ∧
      ∃ L₁, ctx.statements L' body = .ok L₁ := by
  cases update with
  | none => exact ⟨L.push, rfl, h.2⟩
  | some u =>
    obtain ⟨-, L₁, hupdate, hbody⟩ := h
    exact ⟨L₁.push, by rw [localsAt, hupdate]; rfl, hbody⟩

/-- How many rounds there may be does not count. -/
theorem accepts_rounds (h : ctx.Accepts L (.rounds test body update k)) :
    ctx.Accepts L (.rounds test body update n) := by
  cases update with
  | none => exact h
  | some u => exact h

end Rounds

end BodyContext

/-! ## Steps inside a body -/

section Steps

variable {eng : Engine F} {ctx : BodyContext F} {L : Locals} [HostFunctions F]

/-- What the checker accepts leads to parts that it has accepted. -/
theorem Leads.accepts {M N : Moment F} (hstep : Leads eng M N) (hM : M.activity.isCode = true)
    (hN : N.activity.isCode = true) (h : ctx.Accepts L M.activity) :
    ∃ L', ctx.localsAt L M.activity N.activity = .ok L' ∧ ctx.Accepts L' N.activity := by
  cases hstep with
  | first hfirst => exact ⟨L, rfl, h.first hfirst⟩
  | right _ =>
    obtain ⟨o, ho⟩ := h.exists_operand (by simp)
    rw [BodyContext.operand] at ho
    obtain ⟨_, -, ho⟩ := ok_of_bind ho
    obtain ⟨_, -, ho⟩ := ok_of_bind ho
    obtain ⟨r, hr, -⟩ := ok_of_bind ho
    exact ⟨L, rfl, .operand hr⟩
  | thenValue _ =>
    obtain ⟨o, ho⟩ := h.exists_operand (by simp)
    rw [BodyContext.operand] at ho
    obtain ⟨_, -, ho⟩ := ok_of_bind ho
    obtain ⟨_, -, ho⟩ := ok_of_bind ho
    obtain ⟨_, -, ho⟩ := ok_of_bind ho
    obtain ⟨a, ha, -⟩ := ok_of_bind ho
    exact ⟨L, rfl, .operand ha⟩
  | elseValue _ =>
    obtain ⟨o, ho⟩ := h.exists_operand (by simp)
    rw [BodyContext.operand] at ho
    obtain ⟨_, -, ho⟩ := ok_of_bind ho
    obtain ⟨_, -, ho⟩ := ok_of_bind ho
    obtain ⟨_, -, ho⟩ := ok_of_bind ho
    obtain ⟨_, -, ho⟩ := ok_of_bind ho
    obtain ⟨_, -, ho⟩ := ok_of_bind ho
    obtain ⟨b, hb, -⟩ := ok_of_bind ho
    exact ⟨L, rfl, .operand hb⟩
  | newArguments _ =>
    obtain ⟨o, ho⟩ := h.exists_operand (by simp)
    rw [BodyContext.operand] at ho
    obtain ⟨ty, -, ho⟩ := ok_of_bind ho
    split at ho
    · obtain ⟨tys, htys, -⟩ := ok_of_bind ho
      exact ⟨L, rfl, tys, htys⟩
    · cases ho
  | callArguments _ => exact ⟨L, rfl, h.call_parts.2⟩
  | castValue _ =>
    obtain ⟨o, ho⟩ := h.exists_operand (by simp)
    rw [BodyContext.operand] at ho
    obtain ⟨v, hv, -⟩ := ok_of_bind ho
    exact ⟨L, rfl, .operand hv⟩
  | instanceValue _ =>
    obtain ⟨o, ho⟩ := h.exists_operand (by simp)
    rw [BodyContext.operand] at ho
    obtain ⟨v, hv, -⟩ := ok_of_bind ho
    exact ⟨L, rfl, .operand hv⟩
  | headExpression =>
    obtain ⟨tys, htys⟩ := h
    exact ⟨L, rfl, (BodyContext.values_cons_ok htys).1⟩
  | tailExpressions _ =>
    obtain ⟨tys, htys⟩ := h
    exact ⟨L, rfl, (BodyContext.values_cons_ok htys).2⟩
  | firstValue hfirst _ =>
    obtain ⟨L', hs⟩ := h
    exact ⟨L, BodyContext.localsAt_expression _ _, BodyContext.evaluable_first hs hfirst⟩
  | initialValue _ _ =>
    obtain ⟨L', hs⟩ := h
    obtain ⟨lowered, -, hexpect, -⟩ := BodyContext.statement_local hs
    exact ⟨L, rfl, BodyContext.evaluable_of_expect (hexpect _ rfl)⟩
  | fieldAssignValue _ _ =>
    obtain ⟨L', hs⟩ := h
    rw [BodyContext.statement] at hs
    obtain ⟨o, -, hs⟩ := ok_of_bind hs
    obtain ⟨declared, -, hs⟩ := ok_of_bind hs
    obtain ⟨_, hassign, -⟩ := ok_of_bind hs
    exact ⟨L, rfl, BodyContext.evaluable_of_assignment hassign⟩
  | thenBranch _ _ =>
    obtain ⟨L', hs⟩ := h
    exact ⟨L.push, rfl, (BodyContext.statement_ifElse hs).2⟩
  | elseBranch _ _ =>
    obtain ⟨L', hs⟩ := h
    rw [BodyContext.statement] at hs
    obtain ⟨_, -, hs⟩ := ok_of_bind hs
    obtain ⟨_, -, hs⟩ := ok_of_bind hs
    obtain ⟨L₁, hbody, -⟩ := ok_of_bind hs
    exact ⟨L.push, rfl, L₁, hbody⟩
  | whileRounds _ =>
    obtain ⟨L', hs⟩ := h
    rw [BodyContext.statement] at hs
    obtain ⟨_, htest, hs⟩ := ok_of_bind hs
    obtain ⟨L₁, hbody, -⟩ := ok_of_bind hs
    exact ⟨L, rfl, htest, L₁, hbody⟩
  | forInit _ =>
    obtain ⟨L', hs⟩ := h
    rw [BodyContext.statement] at hs
    obtain ⟨header, hinit, -⟩ := ok_of_bind hs
    exact ⟨L.push, rfl, header, hinit⟩
  | forRounds _ _ =>
    obtain ⟨L', hs⟩ := h
    rw [BodyContext.statement] at hs
    obtain ⟨header, hinit, hs⟩ := ok_of_bind hs
    obtain ⟨_, htest, hs⟩ := ok_of_bind hs
    obtain ⟨header', hupdate, hs⟩ := ok_of_bind hs
    obtain ⟨L₁, hbody, -⟩ := ok_of_bind hs
    exact ⟨header, hinit, htest, header', hupdate, L₁, hbody⟩
  | block _ =>
    obtain ⟨L', hs⟩ := h
    rw [BodyContext.statement] at hs
    obtain ⟨L₁, hbody, -⟩ := ok_of_bind hs
    exact ⟨L.push, rfl, L₁, hbody⟩
  | headStatement =>
    obtain ⟨L', hss⟩ := h
    rw [BodyContext.statements] at hss
    obtain ⟨L₁, hs, -⟩ := ok_of_bind hss
    exact ⟨L, rfl, L₁, hs⟩
  | tailStatements _ =>
    obtain ⟨L', hss⟩ := h
    rw [BodyContext.statements] at hss
    obtain ⟨L₁, hs, hrest⟩ := ok_of_bind hss
    exact ⟨L₁, hs, L', hrest⟩
  | test => exact ⟨L, BodyContext.localsAt_expression _ _, BodyContext.evaluable_test h⟩
  | round _ => exact BodyContext.accepts_round h
  | update _ _ =>
    obtain ⟨-, L₁, hupdate, -⟩ := h
    exact ⟨L, rfl, L₁, hupdate⟩
  | again _ _ _ => exact ⟨L, BodyContext.localsAt_again, BodyContext.accepts_rounds h⟩
  | _ => first | (cases hM; done) | cases hN

end Steps

/-! ## Starts of bodies -/

/-- The members of a program, with the contexts and the locals that the checker starts with. -/
inductive Program.Opens (p : Program) (t : ClassTable F) :
    Member F → BodyContext F → Locals → Prop
  | method {d : ClassDecl} {m : MethodDecl} {cls : Template F} {rt : Option Ty} {L : Locals} :
      d ∈ p.classes → m ∈ d.methods → t.get? d.name.name = some cls →
      m.loweredReturn t (m.typeParams cls) = .ok rt →
      (m.context t cls rt).initialLocals m.parameters = .ok L →
      Opens p t (.ofMethod d.name.name m) (m.context t cls rt) L
  | constructor {d : ClassDecl} {k : ConstructorDecl} {cls : Template F} {L : Locals} :
      d ∈ p.classes → k ∈ d.constructors → t.get? d.name.name = some cls →
      (cls.constructorContext t).initialLocals k.parameters = .ok L →
      Opens p t (.ofConstructor d.name.name k) (cls.constructorContext t) L

section Opens

variable {p : Program} {t : ClassTable F} (hcheck : p.check t = .ok ()) {member : Member F}

include hcheck

/-- Every declared member of a class that the checker has accepted is one on which it started. -/
theorem Program.exists_opens {d : ClassDecl} (hd : d ∈ p.classes)
    (hmember : (∃ m ∈ d.methods, member = .ofMethod d.name.name m) ∨
      ∃ k ∈ d.constructors, member = .ofConstructor d.name.name k) :
    ∃ ctx L, p.Opens t member ctx L := by
  obtain ⟨cls, hcls, -, hconstructors, hmethods⟩ := ClassDecl.check_ok (forM_ok_iff.mp hcheck d hd)
  have hcls := ClassTable.template_ok_iff.mp hcls
  rcases hmember with ⟨m, hm, rfl⟩ | ⟨k, hk, rfl⟩
  · obtain ⟨rt, L, L', hrt, hL, -, -⟩ := MethodDecl.check_ok (hmethods m hm)
    exact ⟨_, L, .method hd hm hcls hrt hL⟩
  · obtain ⟨L, L', hL, -, -⟩ := ConstructorDecl.check_ok (hconstructors k hk)
    exact ⟨_, L, .constructor hd hk hcls hL⟩

/-- The body of a member is accepted, and so is what a constructor passes on to its base. -/
theorem Program.Opens.accepts {ctx : BodyContext F} {L : Locals} (h : p.Opens t member ctx L)
    {body : List Stmt} {superArguments : Option (List Expr)}
    (hbody : member.body = .declared body superArguments) :
    (∃ L', ctx.statements L body = .ok L') ∧
      (ctx.cls.base.isSome = true → ∃ tys, ctx.values L (superArguments.getD []) = .ok tys) := by
  cases h with
  | @method d m cls rt _ hd hm hcls hrt hL =>
    cases hbody
    obtain ⟨cls', hcls', -, -, hmethods⟩ := ClassDecl.check_ok (forM_ok_iff.mp hcheck d hd)
    cases hcls.symm.trans (ClassTable.template_ok_iff.mp hcls')
    obtain ⟨rt', L₁, L', hrt', hL', hss, -⟩ := MethodDecl.check_ok (hmethods m hm)
    cases hrt.symm.trans hrt'
    cases hL.symm.trans hL'
    exact ⟨⟨L', hss⟩, fun _ => ⟨[], by rw [Option.getD_none, BodyContext.values]⟩⟩
  | @constructor d k cls _ hd hk hcls hL =>
    cases hbody
    obtain ⟨cls', hcls', -, hconstructors, -⟩ := ClassDecl.check_ok (forM_ok_iff.mp hcheck d hd)
    cases hcls.symm.trans (ClassTable.template_ok_iff.mp hcls')
    obtain ⟨L₁, L', hL', hsuper, hss⟩ := ConstructorDecl.check_ok (hconstructors k hk)
    cases hL.symm.trans hL'
    refine ⟨⟨L', hss⟩, fun hbase => ?_⟩
    obtain ⟨base, hbase⟩ := Option.isSome_iff_exists.mp hbase
    unfold BodyContext.superCall at hsuper
    rw [hbase] at hsuper
    obtain ⟨tys, htys, -⟩ := ok_of_bind hsuper
    exact ⟨tys, htys⟩

end Opens

/-- The body that the member of an activity has in front of it, and what the body belongs to. -/
def Activity.entered? : Activity F → Option (Selected F (RuntimeClass F) × Context F)
  | method s this _ _ => some (s, Engine.bodyContext s.owner this)
  | constructor s o _ _ _ _ => some (s, .instance o s.owner)
  | _ => none

theorem Activity.member?_of_entered? {a : Activity F} {s : Selected F (RuntimeClass F)}
    {κ : Context F} (h : a.entered? = some (s, κ)) : a.member? = some s.member := by
  cases a <;> cases h <;> rfl

theorem Activity.exists_entered? {a : Activity F} {member : Member F}
    (h : a.member? = some member) : ∃ s κ, a.entered? = some (s, κ) ∧ s.member = member := by
  cases a <;> cases h <;> exact ⟨_, _, rfl, rfl⟩

/--
The start of a body, or of what a constructor passes on to its base: the scope is the one that the
body belongs to, with a name for each parameter.
-/
structure Moment.Enters (N : Moment F) (s : Selected F (RuntimeClass F)) (κ : Context F) :
    Prop where
  code : ∃ body superArguments, s.member.body = .declared body superArguments ∧
    (N.activity = .statements body ∨
      N.activity = .expressions (superArguments.getD []) ∧ s.owner.base?.isSome = true)
  context : N.machine.scope.context = κ
  names : N.machine.scope.names = (s.signature.params.map Param.name).foldl
    (fun names name => Scope.withName (some name) names) [fun _ => false]

/-- Where a member leads to a part of its body, that is its start. -/
theorem Leads.enters [HostFunctions F] {eng : Engine F} {M N : Moment F} (hstep : Leads eng M N)
    (hfit : M.activity.Fit) {s : Selected F (RuntimeClass F)} {κ : Context F}
    (hs : M.activity.entered? = some (s, κ)) (hN : N.activity.isCode = true) : N.Enters s κ := by
  have hcalls := fun n => Calls.scopeKept_atDepth eng n
  have hbase : ∀ {layer : Layer F} {isStaticView : Bool} {rest : List (Layer F)},
      s.owner = ⟨isStaticView, layer, rest⟩ → rest ≠ [] → s.owner.base?.isSome = true := by
    intro layer isStaticView rest howner hrest
    cases rest with
    | nil => exact absurd rfl hrest
    | cons l rest =>
      rw [howner]
      rfl
  cases hstep with
  | methodBody hbody hbind =>
    cases hs
    obtain ⟨hcontext, hnames⟩ := eng.names_bindParameters _ _ _ _ hbind hfit.1
    exact ⟨⟨_, _, hbody, .inl rfl⟩, hcontext, hnames⟩
  | superArguments hbody hrest hbind =>
    cases hs
    obtain ⟨hlength, ⟨layer, howner⟩, -⟩ := hfit
    obtain ⟨hcontext, hnames⟩ := eng.names_bindParameters _ _ _ _ hbind hlength
    exact ⟨⟨_, _, hbody, .inr ⟨rfl, hbase howner hrest⟩⟩, hcontext, hnames⟩
  | derivedBody hbody hrest hbind heval hconstruct =>
    cases hs
    obtain ⟨hcontext, hnames⟩ := eng.names_bindParameters _ _ _ _ hbind hfit.1
    obtain ⟨hcontext₁, hnames₁⟩ := eng.keepsNames_evalAll (hcalls _) _ _ _ _ heval
    obtain ⟨hcontext₂, hnames₂⟩ := EvalM.Declares.of_scopeKept
      (eng.scopeKept_runConstructors (hcalls _) _ _ _ _ _ _) _ _ _ hconstruct
    exact ⟨⟨_, _, hbody, .inl rfl⟩, hcontext₂.trans (hcontext₁.trans hcontext),
      hnames₂.trans (hnames₁.trans hnames)⟩
  | rootBody hbody hbind =>
    cases hs
    obtain ⟨hcontext, hnames⟩ := eng.names_bindParameters _ _ _ _ hbind hfit.1
    exact ⟨⟨_, _, hbody, .inl rfl⟩, hcontext, hnames⟩
  | _ => first | (cases hs; done) | cases hN

/-- Only members and parts of bodies lead to parts of bodies. -/
theorem Leads.isCode_or_entered [HostFunctions F] {eng : Engine F} {M N : Moment F}
    (hstep : Leads eng M N) (hN : N.activity.isCode = true) :
    M.activity.isCode = true ∨ ∃ s κ, M.activity.entered? = some (s, κ) := by
  cases hstep with
  | methodBody _ _ => exact .inr ⟨_, _, rfl⟩
  | superArguments _ _ _ => exact .inr ⟨_, _, rfl⟩
  | derivedBody _ _ _ _ _ => exact .inr ⟨_, _, rfl⟩
  | rootBody _ _ => exact .inr ⟨_, _, rfl⟩
  | _ => first | (cases hN; done) | exact .inl rfl

/-! ## Occurrences -/

/--
A moment at which a run comes to a part of a body to which the checker came in a context, with some
locals. The run has gone over the body from its start, and the checker goes the same way.
-/
inductive Occurs [HostFunctions F] (eng : Engine F) (p : Program) (t : ClassTable F)
    (start : Moment F) : BodyContext F → Locals → Moment F → Prop
  | opens {M N : Moment F} {member : Member F} {ctx : BodyContext F} {L : Locals} :
      Reaches eng start M → M.activity.member? = some member → Leads eng M N →
      N.activity.isCode = true → p.Opens t member ctx L → Occurs eng p t start ctx L N
  | inner {M N : Moment F} {ctx : BodyContext F} {L L' : Locals} :
      Occurs eng p t start ctx L M → Leads eng M N → N.activity.isCode = true →
      ctx.localsAt L M.activity N.activity = .ok L' → Occurs eng p t start ctx L' N

namespace Occurs

section Generic

variable [HostFunctions F] {eng : Engine F} {p : Program} {t : ClassTable F} {start N : Moment F}
  {ctx : BodyContext F} {L : Locals}

theorem isCode (h : Occurs eng p t start ctx L N) : N.activity.isCode = true := by
  cases h with
  | opens _ _ _ hN _ => exact hN
  | inner _ _ hN _ => exact hN

theorem reaches (h : Occurs eng p t start ctx L N) : Reaches eng start N := by
  induction h with
  | opens hreach _ hstep _ _ => exact hreach.tail hstep
  | inner _ hstep _ _ ih => exact ih.tail hstep

/-- The checker came to it from the start of a member. -/
theorem opened (h : Occurs eng p t start ctx L N) : ∃ member L₀, p.Opens t member ctx L₀ := by
  induction h with
  | opens _ _ _ _ hopens => exact ⟨_, _, hopens⟩
  | inner _ _ _ _ ih => exact ih

end Generic

end Occurs

/-- An engine of a program whose bodies were accepted with a table of the same names. -/
structure Engine.RunsChecked (eng : Engine StandardFn) (p : Program) (t : ClassTable StandardFn) :
    Prop where
  build : ClassTable.build p standard = .ok eng.table
  check : p.check t = .ok ()
  table : ∃ p₀, ClassTable.build p₀ standard = .ok t
  alike : t.NamesAlike eng.table

/-- An engine of an analysed program runs what the checker has accepted. -/
theorem Engine.runsChecked_of_analysed {p p' : Program} (h : p.analyse standard = .ok p')
    {eng : Engine StandardFn} (hserves : eng.Serves p') :
    ∃ t, ClassTable.build p standard = .ok t ∧ eng.RunsChecked p' t := by
  obtain ⟨t, p₁, hbuild, hexpand, rfl, -, -, hcheck⟩ :=
    Program.analyseFindings_ok (Program.analyse_ok_iff.mp h)
  exact ⟨t, hbuild, hserves.build, hcheck, ⟨p, hbuild⟩,
    ClassTable.namesAlike_of_analysed hbuild hexpand hserves.build⟩

/-- A moment that is valid, and all that it leads to is. -/
structure Moment.Sound (M : Moment F) (t : ClassTable F) (strict : Prop) : Prop where
  valid : M.Valid t strict
  fit : M.activity.Fit

section Runs

variable {eng : Engine StandardFn} {p : Program} {t : ClassTable StandardFn} {strict : Prop}
  {M N start : Moment StandardFn} {ctx : BodyContext StandardFn} {L : Locals}

theorem Reaches.sound (h : ClassTable.build p standard = .ok eng.table)
    (hreach : Reaches eng M N) (hM : M.Sound eng.table strict) : N.Sound eng.table strict :=
  ⟨hreach.valid h hM.valid, hreach.fit hM.fit⟩

/-- A member that runs is called as a member of its class. -/
theorem Moment.Sound.selected (hM : M.Sound eng.table strict)
    {s : Selected StandardFn (RuntimeClass StandardFn)} {κ : Context StandardFn}
    (hs : M.activity.entered? = some (s, κ)) : s.Valid eng.table strict := by
  obtain ⟨⟨W, -, hvalid⟩, -⟩ := hM
  generalize M.activity = a at hs hvalid
  cases a with
  | method s' this args span =>
    cases hs
    exact hvalid.selected
  | constructor s' o isStaticView rest args span =>
    cases hs
    exact hvalid.1.selected
  | _ => cases hs

/-- A member of a class that is not native is one that the program declares. -/
theorem ClassTable.declared_member (h : ClassTable.build p standard = .ok t) {name : String}
    {c : Template StandardFn} (hc : t.get? name = some c) {member : Member StandardFn}
    (hmember : member ∈ c.methods ∨ member ∈ c.constructors) {body : List Stmt}
    {superArguments : Option (List Expr)} (hbody : member.body = .declared body superArguments) :
    ∃ d ∈ p.classes, d.name.name = name ∧
      ((∃ m ∈ d.methods, member = .ofMethod d.name.name m) ∨
        ∃ k ∈ d.constructors, member = .ofConstructor d.name.name k) := by
  rcases mem_classes_cases h (get?_mem hc) with ⟨q, rfl⟩ | ⟨n, -, hmade⟩ | ⟨d, hd, hmade⟩
  · exact (hmember.elim List.not_mem_nil List.not_mem_nil).elim
  · obtain ⟨base, -, rfl⟩ := nativeTemplate_ok hmade
    rcases hmember with hm | hm
    · obtain ⟨m, -, rfl⟩ := List.mem_map.mp hm
      cases hbody
    · obtain ⟨m, -, rfl⟩ := List.mem_map.mp hm
      cases hbody
  · obtain ⟨base, fields, -, -, rfl⟩ := declaredTemplate_ok hmade
    refine ⟨d, hd, get?_name hc, ?_⟩
    rcases hmember with hmem | hmem
    · obtain ⟨m, hm, rfl⟩ := List.mem_map.mp hmem
      exact .inl ⟨m, hm, rfl⟩
    · obtain ⟨k, hk, rfl⟩ := List.mem_map.mp hmem
      exact .inr ⟨k, hk, rfl⟩

/-- A member belongs to the class in whose context it is checked. -/
theorem Program.Opens.get?_owner {member : Member StandardFn} (h : p.Opens t member ctx L) :
    ctx.table = t ∧ t.get? member.owner = some ctx.cls := by
  cases h with
  | method _ _ hcls _ _ => exact ⟨rfl, hcls⟩
  | constructor _ _ hcls _ => exact ⟨rfl, hcls⟩

namespace Engine.RunsChecked

variable (h : eng.RunsChecked p t)

include h

/-- The checker has started on every body that a run comes to. -/
theorem exists_opens {s : Selected StandardFn (RuntimeClass StandardFn)}
    (hs : s.Valid eng.table strict) {body : List Stmt} {superArguments : Option (List Expr)}
    (hbody : s.member.body = .declared body superArguments) :
    s.member.owner = s.owner.name ∧ ∃ ctx L, p.Opens t s.member ctx L := by
  obtain ⟨d, hd, hname, hmember⟩ :=
    ClassTable.declared_member h.build hs.owner.get? hs.member hbody
  refine ⟨?_, Program.exists_opens h.check hd hmember⟩
  rcases hmember with ⟨m, -, heq⟩ | ⟨k, -, heq⟩
  · rw [heq, ← hname]
    rfl
  · rw [heq, ← hname]
    rfl

/-- The checker has accepted the start of a body. -/
theorem accepts_start {s : Selected StandardFn (RuntimeClass StandardFn)}
    {κ : Context StandardFn} (hs : s.Valid eng.table strict) (hN : N.Enters s κ)
    (hopens : p.Opens t s.member ctx L) : ctx.Accepts L N.activity := by
  obtain ⟨body, superArguments, hbody, hcode⟩ := hN.code
  obtain ⟨hstatements, harguments⟩ := hopens.accepts h.check hbody
  rcases hcode with hcode | ⟨hcode, hbase⟩
  · rw [hcode]
    exact hstatements
  · rw [hcode]
    refine harguments ?_
    -- The class has a base for the checker if it has one for the engine.
    have howner := (h.exists_opens hs hbody).1
    have hname := hs.owner.baseName?
    rw [h.alike.bases, ClassTable.baseName?, ← howner, hopens.get?_owner.2, Option.bind_some]
      at hname
    rw [← Option.isSome_map (f := ClassTy.name), hname, Option.isSome_map]
    exact hbase

/-- The checker has accepted every part of a body that a run comes to. -/
theorem accepts (hstart : start.Sound eng.table strict) (hN : Occurs eng p t start ctx L N) :
    ctx.Accepts L N.activity := by
  induction hN with
  | opens hreach hmember hstep hcode hopens =>
    obtain ⟨s, κ, hs, rfl⟩ := Activity.exists_entered? hmember
    have hM := hreach.sound h.build hstart
    exact h.accepts_start (hM.selected hs) (hstep.enters hM.fit hs hcode) hopens
  | inner hM hstep hcode hlocals ih =>
    obtain ⟨L', hlocals', haccepts⟩ := hstep.accepts hM.isCode hcode ih
    cases hlocals.symm.trans hlocals'
    exact haccepts

/-- Wherever a run comes to a part of a body, the checker has come to it. -/
theorem exists_occurs (hstart : start.Sound eng.table strict)
    (hbegins : start.activity.isCode = false) (hreach : Reaches eng start N)
    (hN : N.activity.isCode = true) : ∃ ctx L, Occurs eng p t start ctx L N := by
  induction hreach with
  | refl => cases hbegins.symm.trans hN
  | tail hreach hstep ih =>
    rcases hstep.isCode_or_entered hN with hM | ⟨s, κ, hs⟩
    · obtain ⟨ctx, L, hoccurs⟩ := ih hM
      obtain ⟨L', hlocals, -⟩ := hstep.accepts hM hN (h.accepts hstart hoccurs)
      exact ⟨ctx, L', .inner hoccurs hstep hN hlocals⟩
    · have hM := Reaches.sound h.build hreach hstart
      obtain ⟨body, superArguments, hbody, -⟩ := (hstep.enters hM.fit hs hN).code
      obtain ⟨-, ctx, L, hopens⟩ := h.exists_opens (hM.selected hs) hbody
      exact ⟨ctx, L, .opens hreach (Activity.member?_of_entered? hs) hstep hN hopens⟩

end Engine.RunsChecked

end Runs

end Middleweight
