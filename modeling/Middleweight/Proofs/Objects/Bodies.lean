import Middleweight.Proofs.Objects.Members
import Middleweight.Proofs.World.Mirrors

/-!
# Typed moments inside bodies

At a moment inside a body that the checker has accepted, with a machine whose locals are those of
the checker, the activity may lead to parts of the body. Then the machine has the locals with which
the checker came to that part.

* `Engine.Yields.ok`, `Engine.Gives.ok` : computations that ended well
* `Engine.gives_evaluable` : what the checker accepts as an expression can be evaluated
* `Moment.TypedAt` : a typed moment inside a body
* `Leads.typedAt` : steps inside a body
-/

namespace Middleweight

variable {F : Type}

/-! ## Types in bodies -/

/-- What holds of every type that is written in the parts of a body that an activity carries out. -/
def Activity.EachType (P : TypeUse → TypeExpr → Prop) : Activity F → Prop
  | .expression e => e.EachType P
  | .expressions es => Expr.EachTypeIn P es
  | .statement s => s.EachType P
  | .statements ss => Stmt.EachTypeIn P ss
  | .rounds test body update _ =>
    test.EachType P ∧ Stmt.EachTypeIn P body ∧ ∀ u ∈ update, u.EachType P
  | _ => True

section Parts

variable {P : TypeUse → TypeExpr → Prop}

theorem Expr.eachType_first {e e' : Expr} (h : e.EachType P) (hfirst : e.first? = some e') :
    e'.EachType P := by
  cases e with
  | step op before target span =>
    cases target with
    | field receiver name place =>
      cases hfirst
      rw [EachType, EachType] at h
      exact h
    | _ => cases hfirst
  | unary _ _ _ | field _ _ _ | group _ _ =>
    cases hfirst
    rw [EachType] at h
    exact h
  | binary _ _ _ _ | ternary _ _ _ _ | call _ _ _ _ =>
    cases hfirst
    rw [EachType] at h
    exact h.1
  | _ => cases hfirst

theorem Stmt.eachType_thenBranch {test : Expr} {body : List Stmt} {other : Option (List Stmt)}
    {span : Span} (h : (Stmt.ifElse test body other span).EachType P) :
    test.EachType P ∧ EachTypeIn P body := by
  cases other with
  | none =>
    rw [EachType] at h
    exact h
  | some elseBranch =>
    rw [EachType] at h
    exact ⟨h.1, h.2.1⟩

theorem Stmt.eachType_first {s : Stmt} {e : Expr} (h : s.EachType P) (hfirst : s.first? = some e) :
    e.EachType P := by
  cases s with
  | assign _ _ _ _ | expression _ _ =>
    cases hfirst
    rw [EachType] at h
    exact h
  | fieldAssign _ _ _ _ _ =>
    cases hfirst
    rw [EachType] at h
    exact h.1
  | ifElse _ _ _ _ =>
    cases hfirst
    exact (eachType_thenBranch h).1
  | returns value _ =>
    obtain rfl : value = some e := hfirst
    rw [EachType] at h
    exact h e rfl
  | _ => cases hfirst

/-- What holds of the types in a part of a body holds of the types in its parts. -/
theorem Leads.eachType [HostFunctions F] {eng : Engine F} {M N : Moment F} (hstep : Leads eng M N)
    (hM : M.activity.isCode = true) (h : M.activity.EachType P) : N.activity.EachType P := by
  cases hstep with
  | first hfirst => exact Expr.eachType_first h hfirst
  | thenValue _ =>
    simp only [Activity.EachType, Expr.EachType] at h
    exact h.2.1
  | elseValue _ =>
    simp only [Activity.EachType, Expr.EachType] at h
    exact h.2.2
  | right _ | newArguments _ | callArguments _ | castValue _ | instanceValue _ =>
    simp only [Activity.EachType, Expr.EachType] at h
    exact h.2
  | headExpression =>
    simp only [Activity.EachType, Expr.EachTypeIn] at h
    exact h.1
  | tailExpressions _ =>
    simp only [Activity.EachType, Expr.EachTypeIn] at h
    exact h.2
  | firstValue hfirst _ => exact Stmt.eachType_first h hfirst
  | initialValue _ _ =>
    simp only [Activity.EachType, Stmt.EachType] at h
    exact h.2 _ rfl
  | fieldAssignValue _ _ =>
    simp only [Activity.EachType, Stmt.EachType] at h
    exact h.2
  | thenBranch _ _ => exact (Stmt.eachType_thenBranch h).2
  | elseBranch _ _ =>
    simp only [Activity.EachType, Stmt.EachType] at h
    exact h.2.2
  | whileRounds _ =>
    simp only [Activity.EachType, Stmt.EachType] at h
    exact ⟨h.1, h.2, fun _ hu => nomatch hu⟩
  | forInit _ =>
    simp only [Activity.EachType, Stmt.EachType] at h
    exact h.1
  | forRounds _ _ =>
    simp only [Activity.EachType, Stmt.EachType] at h
    refine ⟨h.2.1, h.2.2.2, fun u hu => ?_⟩
    cases hu
    exact h.2.2.1
  | block _ =>
    simp only [Activity.EachType, Stmt.EachType] at h
    exact h
  | headStatement =>
    simp only [Activity.EachType, Stmt.EachTypeIn] at h
    exact h.1
  | tailStatements _ =>
    simp only [Activity.EachType, Stmt.EachTypeIn] at h
    exact h.2
  | test => exact h.1
  | round _ => exact h.2.1
  | update _ _ => exact h.2.2 _ rfl
  | again _ _ _ => exact h
  | _ => first | (cases hM; done) | trivial

end Parts

/-! ## Computations that end well -/

namespace Engine

section Ok

variable {α : Type} {eng : Engine F} {κ : Context F} {W : World F} {L : Locals} {x : EvalM F α}
  {a : α} {m m' : Machine F}

theorem Yields.ok {Q : World F → Locals → α → Prop} (hx : eng.Yields κ W L x Q)
    (hm : m.Typed eng.table κ W L) (h : x m = .ok a m') :
    ∃ V L', W.Grows V ∧ m'.Typed eng.table κ V L' ∧ Q V L' a := by
  have hends := hx m hm
  rw [h] at hends
  cases hends with
  | ok hV hm' hq => exact ⟨_, _, hV, hm', hq⟩

theorem Gives.ok {P : World F → α → Prop} (hx : eng.Gives κ W L x P)
    (hm : m.Typed eng.table κ W L) (h : x m = .ok a m') :
    ∃ V, W.Grows V ∧ m'.Typed eng.table κ V L ∧ P V a := by
  obtain ⟨V, L', hV, hm', rfl, ha⟩ := Yields.ok hx hm h
  exact ⟨V, hV, hm', ha⟩

end Ok

end Engine

theorem Machine.Typed.inner {t : ClassTable F} {κ : Context F} {W : World F} {L : Locals}
    {m : Machine F} (h : m.Typed t κ W L) : m.inner.Typed t κ W L.push :=
  h.withScope h.valid.scope.push h.scope.push

/-- A machine stays typed when it resolves a type. -/
theorem Machine.Typed.resolveType {eng : Engine F} {κ : Context F} {W : World F} {L : Locals}
    {m m' : Machine F} (hm : m.Typed eng.table κ W L) {e : TypeExpr} {c : RuntimeClass F}
    (h : eng.resolveType e m = .ok c m') : m'.Typed eng.table κ W L := by
  obtain ⟨r, k, hr, hk, heq⟩ := Engine.resolveType_eq e hm.valid.remembers
  rw [heq] at h
  cases hmeaning : eng.table.meaning m.scope.typeParams e with
  | error err =>
    rw [hmeaning] at h
    cases h
  | ok c' =>
    rw [hmeaning] at h
    cases h
    exact hm.withMemory hr hk

/-! ## Parts of checked bodies -/

/-- A context runs a body that the checker looks at where no parameter is in scope. -/
inductive Context.Runs (t : ClassTable F) (κ : Context F) : BodyContext F → Prop
  | ofClass {cls : Template F} {this? : Option ClassTy} {rt : Option Ty} :
      κ.Sees this? → (∀ ty ∈ rt, ty.Formed t.arity? []) →
      Runs t κ (BodyContext.ofClass t cls this? rt)

/--
A moment inside a body: the checker has come to it with the locals of its machine, nothing is cast
there, and locals are ordinary.
-/
structure Moment.TypedAt (t : ClassTable F) (ctx : BodyContext F) (L : Locals) (κ : Context F)
    (W : World F) (N : Moment F) : Prop where
  machine : N.machine.Typed t κ W L
  context : κ.Runs t ctx
  accepts : ctx.Accepts L N.activity
  casts : N.activity.EachType fun use ty => use.CastsNothing ty
  locals : N.activity.OrdinaryLocals

namespace Engine

variable {p : Program} {eng : Engine StandardFn} (h : p.WellTyped eng.table)
  {κ : Context StandardFn} {W : World StandardFn} {ctx : BodyContext StandardFn}
  (hctx : κ.Runs eng.table ctx) {L L' : Locals} (n : Nat)

include h hctx

/-- What the checker accepts as an expression can be evaluated. -/
theorem gives_evaluable {e : Expr} (he : ctx.Evaluable L e)
    (hcasts : e.EachType TypeUse.CastsNothing) :
    eng.Gives κ W L (eng.eval (.atDepth eng n) e) fun _ _ => True := by
  have hcalls := Calls.typed_atDepth h n
  obtain ⟨hκ, -⟩ := hctx
  cases he with
  | operand ho => exact (gives_eval h hcalls hκ ho hcasts).mono fun _ _ _ _ => trivial
  | call hret =>
    obtain ⟨o, ho, hret⟩ := ok_of_bind hret
    obtain ⟨owner, howner, hret⟩ := ok_of_bind hret
    obtain ⟨tys, htys, hret⟩ := ok_of_bind hret
    rw [Expr.EachType] at hcasts
    exact (gives_call h hcalls (gives_eval h hcalls hκ ho hcasts.1) howner
      (fun _ _ => gives_evalAll h hcalls hκ htys hcasts.2) hret).mono fun _ _ _ _ => trivial

theorem gives_test {e : Expr} (he : ctx.Evaluable L e) (hcasts : e.EachType TypeUse.CastsNothing) :
    eng.Gives κ W L (eng.condition (.atDepth eng n) e) fun _ _ => True := by
  refine (gives_evaluable h hctx n he hcasts).bind fun V v _ _ => ?_
  split
  · exact Gives.pure trivial
  · exact Yields.invalid _ _

theorem yields_statement {s : Stmt} (hs : ctx.statement L s = .ok L')
    (hcasts : s.EachType TypeUse.CastsNothing) (hlocals : s.OrdinaryLocals) :
    eng.Yields κ W L (eng.exec (.atDepth eng n) s) fun _ L₁ _ => L₁ = L' := by
  obtain ⟨hκ, hrt⟩ := hctx
  exact (yields_exec h (Calls.typed_atDepth h n) hκ hrt hs hcasts hlocals).mono
    fun _ _ _ _ hL => hL.1

/-- The body of a loop leaves the locals around it as they were. -/
theorem gives_body {ss : List Stmt} (hss : ctx.statements L.push ss = .ok L')
    (hcasts : Stmt.EachTypeIn TypeUse.CastsNothing ss) (hlocals : Stmt.OrdinaryLocalsIn ss) :
    eng.Gives κ W L (EvalM.nested (eng.execBlock (.atDepth eng n) ss)) fun _ _ => True := by
  obtain ⟨hκ, hrt⟩ := hctx
  refine Yields.nested ?_
  exact (yields_execBlock h (Calls.typed_atDepth h n) hκ hrt hss hcasts hlocals).mono
    fun _ _ _ _ hL => ⟨hL.1, trivial⟩

theorem gives_update {u : Option Stmt} (hu : ∀ s ∈ u, s.isLocal = false ∧ s.OrdinaryLocals)
    (hs : ∀ s ∈ u, ∃ L', ctx.statement L s = .ok L')
    (hcasts : ∀ s ∈ u, s.EachType TypeUse.CastsNothing) :
    eng.Gives κ W L (eng.execUpdate (.atDepth eng n) u) fun _ _ => True := by
  cases u with
  | none => exact Gives.pure trivial
  | some s =>
    obtain ⟨hlocal, hordinary⟩ := hu s rfl
    obtain ⟨L', hL'⟩ := hs s rfl
    obtain rfl := BodyContext.statement_of_isLocal hlocal hL'
    exact Yields.bind (yields_statement h hctx n hL' (hcasts s rfl) hordinary)
      fun _ L₁ _ _ hL₁ => hL₁ ▸ Gives.pure trivial

end Engine

/-- Where the checker has accepted the rounds of a loop that declares nothing where it goes on. -/
theorem BodyContext.Accepts.rounds {ctx : BodyContext F} {L : Locals} {test : Expr}
    {body : List Stmt} {update : Option Stmt} {k : Nat}
    (h : ctx.Accepts L (.rounds test body update k))
    (hupdate : ∀ u ∈ update, u.isLocal = false) :
    ctx.Evaluable L test ∧ (∃ L', ctx.statements L.push body = .ok L') ∧
      ∀ u ∈ update, ∃ L', ctx.statement L u = .ok L' := by
  refine ⟨evaluable_test h, ?_, fun u hu => ?_⟩
  · obtain ⟨L', hL', hbody⟩ := accepts_round h (n := k)
    rwa [localsAt_round hupdate hL'] at hbody
  · cases hu
    obtain ⟨-, L', hL', -⟩ := h
    exact ⟨L', hL'⟩

section Steps

variable {p : Program} {eng : Engine StandardFn} (h : p.WellTyped eng.table)
  {κ : Context StandardFn} {W : World StandardFn} {ctx : BodyContext StandardFn} {L L' : Locals}
  {M N : Moment StandardFn}

include h

/-- Where a part of a body leads to another one, the machine has the locals of the checker there. -/
theorem Leads.typed_machine (hstep : Leads eng M N) (hMcode : M.activity.isCode = true)
    (hNcode : N.activity.isCode = true)
    (hL' : ctx.localsAt L M.activity N.activity = .ok L') (hM : M.TypedAt eng.table ctx L κ W) :
    ∃ V, N.machine.Typed eng.table κ V L' := by
  obtain ⟨hm, hctx, haccepts, hcasts, hlocals⟩ := hM
  cases hstep with
  | first _ | headExpression | headStatement =>
    cases hL'
    exact ⟨W, hm⟩
  | right heval | thenValue heval | elseValue heval | callArguments heval =>
    cases hL'
    obtain ⟨V, -, hm₁, -⟩ := (Engine.gives_evaluable h hctx _ (haccepts.first rfl)
      (Expr.eachType_first hcasts rfl)).ok hm heval
    exact ⟨V, hm₁⟩
  | tailExpressions heval =>
    cases hL'
    simp only [Activity.EachType, Expr.EachTypeIn] at hcasts
    obtain ⟨tys, htys⟩ := haccepts
    obtain ⟨V, -, hm₁, -⟩ := (Engine.gives_evaluable h hctx _
      (BodyContext.values_cons_ok htys).1 hcasts.1).ok hm heval
    exact ⟨V, hm₁⟩
  | newArguments hty | castValue hty | instanceValue hty =>
    cases hL'
    exact ⟨W, hm.resolveType hty⟩
  | firstValue _ htell =>
    rw [BodyContext.localsAt_expression] at hL'
    cases hL'
    obtain ⟨V, -, hm₁, -⟩ := (Engine.gives_tellStatement _).ok hm htell
    exact ⟨V, hm₁⟩
  | initialValue htell hty =>
    cases hL'
    obtain ⟨V, -, hm₁, -⟩ := (Engine.gives_tellStatement _).ok hm htell
    exact ⟨V, hm₁.resolveType hty⟩
  | fieldAssignValue htell heval =>
    cases hL'
    obtain ⟨V, -, hm₁, -⟩ := (Engine.gives_tellStatement _).ok hm htell
    obtain ⟨L', hs⟩ := haccepts
    obtain ⟨U, -, hm₂, -⟩ := (Engine.gives_evaluable h hctx _
      (BodyContext.evaluable_first hs rfl) (Stmt.eachType_first hcasts rfl)).ok hm₁ heval
    exact ⟨U, hm₂⟩
  | thenBranch htell htest | elseBranch htell htest =>
    cases hL'
    obtain ⟨V, -, hm₁, -⟩ := (Engine.gives_tellStatement _).ok hm htell
    obtain ⟨L', hs⟩ := haccepts
    obtain ⟨U, -, hm₂, -⟩ := (Engine.gives_test h hctx _ (BodyContext.evaluable_first hs rfl)
      (Stmt.eachType_first hcasts rfl)).ok hm₁ htest
    exact ⟨U, hm₂.inner⟩
  | whileRounds htell =>
    cases hL'
    obtain ⟨V, -, hm₁, -⟩ := (Engine.gives_tellStatement _).ok hm htell
    exact ⟨V, hm₁⟩
  | forInit htell | block htell =>
    cases hL'
    obtain ⟨V, -, hm₁, -⟩ := (Engine.gives_tellStatement _).ok hm htell
    exact ⟨V, hm₁.inner⟩
  | forRounds htell hinit =>
    obtain ⟨V, -, hm₁, -⟩ := (Engine.gives_tellStatement _).ok hm htell
    simp only [Activity.EachType, Stmt.EachType] at hcasts
    simp only [Activity.OrdinaryLocals, Stmt.OrdinaryLocals] at hlocals
    obtain ⟨U, L₁, -, hm₂, rfl⟩ :=
      (Engine.yields_statement h hctx _ hL' hcasts.1 hlocals.1).ok hm₁.inner hinit
    exact ⟨U, hm₂⟩
  | tailStatements hexec =>
    simp only [Activity.EachType, Stmt.EachTypeIn] at hcasts
    simp only [Activity.OrdinaryLocals, Stmt.OrdinaryLocalsIn] at hlocals
    obtain ⟨U, L₁, -, hm₁, rfl⟩ :=
      (Engine.yields_statement h hctx _ hL' hcasts.1 hlocals.1).ok hm hexec
    exact ⟨U, hm₁⟩
  | test =>
    rw [BodyContext.localsAt_expression] at hL'
    cases hL'
    exact ⟨W, hm⟩
  | round htest =>
    obtain rfl := BodyContext.localsAt_round (fun u hu => (hlocals.2 u hu).1) hL'
    obtain ⟨V, -, hm₁, -⟩ := (Engine.gives_test h hctx _
      (BodyContext.evaluable_test haccepts) hcasts.1).ok hm htest
    exact ⟨V, hm₁.inner⟩
  | update htest hbody =>
    cases hL'
    obtain ⟨hevaluable, ⟨L₁, hss⟩, -⟩ := haccepts.rounds fun u hu => (hlocals.2 u hu).1
    obtain ⟨V, -, hm₁, -⟩ := (Engine.gives_test h hctx _ hevaluable hcasts.1).ok hm htest
    obtain ⟨U, -, hm₂, -⟩ :=
      (Engine.gives_body h hctx _ hss hcasts.2.1 hlocals.1).ok hm₁ hbody
    exact ⟨U, hm₂⟩
  | again htest hbody hupdate =>
    rw [BodyContext.localsAt_again] at hL'
    cases hL'
    obtain ⟨hevaluable, ⟨L₁, hss⟩, hupdates⟩ := haccepts.rounds fun u hu => (hlocals.2 u hu).1
    obtain ⟨V, -, hm₁, -⟩ := (Engine.gives_test h hctx _ hevaluable hcasts.1).ok hm htest
    obtain ⟨U, -, hm₂, -⟩ :=
      (Engine.gives_body h hctx _ hss hcasts.2.1 hlocals.1).ok hm₁ hbody
    obtain ⟨T, -, hm₃, -⟩ :=
      (Engine.gives_update h hctx _ hlocals.2 hupdates hcasts.2.2).ok hm₂ hupdate
    exact ⟨T, hm₃⟩
  | _ => first | (cases hMcode; done) | cases hNcode

/-- A typed moment inside a body leads to such moments as long as it stays in the body. -/
theorem Leads.typedAt (hstep : Leads eng M N) (hMcode : M.activity.isCode = true)
    (hNcode : N.activity.isCode = true)
    (hL' : ctx.localsAt L M.activity N.activity = .ok L') (hM : M.TypedAt eng.table ctx L κ W) :
    ∃ V, N.TypedAt eng.table ctx L' κ V := by
  obtain ⟨V, hmachine⟩ := hstep.typed_machine h hMcode hNcode hL' hM
  obtain ⟨L₁, hL₁, haccepts⟩ := hstep.accepts hMcode hNcode hM.accepts
  cases hL₁.symm.trans hL'
  exact ⟨V, hmachine, hM.context, haccepts, hstep.eachType hMcode hM.casts,
    hstep.ordinaryLocals hMcode hM.locals⟩

end Steps

end Middleweight
