import Middleweight.Proofs.Analysis.ExpandedRun
import Middleweight.Proofs.World.Occurrences

/-!
# Walks through a run

What a moment leads to can be computed as far as methods, statements and expressions go, and so can
the context and the locals with which the checker came there. A walk through a run says at every
moment which of these ways to go.

* `Moment.leads_of_mem_successors` : ways are steps
* `Program.Opens.opening_eq` : what the checker starts a member with
* `Visit.reaches_of_along` : walks go through moments of a run
* `Visit.Sound.successor` : visits are occurrences
* `Program.visits_ok` : walks through runs of analysed programs
-/

namespace Middleweight

open NativeRegistry (standard)

variable {F : Type}

/-! ## Steps -/

namespace Moment

variable [HostFunctions F]

/-- The result of a computation as the start of an activity. -/
def start? {α : Type} (n : Nat) (activity : α → Option (Activity F)) :
    EStateM.Result (Stop F) (Machine F) α → Option (Moment F)
  | .ok a m => (activity a).map fun activity => ⟨n, activity, m⟩
  | .error _ _ => none

/-- Moments that the evaluation of an expression leads to. -/
def fromExpression (eng : Engine F) (n : Nat) (m : Machine F) (e : Expr) : List (Option (Moment F)) :=
  e.first?.map (fun e' => ⟨n, .expression e', m⟩) ::
    match e with
    | .call receiver method es span =>
      let evaluated : EvalM F (Activity F) := do
        let r ← eng.eval (.atDepth eng n) receiver
        let args ← eng.evalAll (.atDepth eng n) es
        let (c, isStatic) ← eng.callTarget r method.name span
        return .call c (if isStatic then .null else r.value) method.name isStatic args
          (argumentTypes es args) span
      [start? n (fun _ => some (.expressions es)) (eng.eval (.atDepth eng n) receiver m),
       start? n some (evaluated m)]
    | _ => []

/-- Moments that the execution of a statement leads to, once the observer has been told. -/
def fromStatement (eng : Engine F) (n : Nat) (m : Machine F) (s : Stmt) : List (Option (Moment F)) :=
  let told := eng.tellStatement s.span
  start? n (fun _ => s.first?.map Activity.expression) (told m) ::
    match s with
    | .localVariable ty _ (some e) _ =>
      [start? n (fun _ => some (.expression e)) ((do told; let _ ← eng.resolveType ty) m)]
    | .block body _ => [(start? n (fun _ => some (.statements body)) (told m)).map fun N =>
        { N with machine := N.machine.inner }]
    | .forLoop init test update body _ =>
      match told m with
      | .ok _ m₁ =>
        [start? n (fun _ => some (.rounds test body (some update) (Calls.atDepth eng n).rounds))
          (eng.exec (.atDepth eng n) init m₁.inner)]
      | .error _ _ => []
    | _ => []

/-- Some of the moments that a moment leads to. -/
def successors (eng : Engine F) : Moment F → List (Option (Moment F))
  | ⟨n, .operation .run, m⟩ =>
    [eng.entry.map fun entry => ⟨n, .operation (.callStatic entry "main" [] {}),
      eng.pushFrame ⟨"Global", eng.location {}⟩ m⟩]
  | ⟨_, .operation (.callStatic className method args span), m⟩ =>
    [(eng.table.imports.resolve? className).bind fun full =>
      start? eng.budget (fun view =>
        some (.call view .null method true args (declaredTypes args) span))
        (eng.staticView full span m)]
  | ⟨n + 1, .call c this name isStatic args argTypes span, m⟩ =>
    match eng.table.runtimeMembers.resolveMethod eng.table c name isStatic argTypes with
    | .ok (.found s) => [some ⟨n, .method s this args span, m⟩]
    | _ => []
  | ⟨n, .method s this args span, m⟩ =>
    match s.member.body with
    | .declared body _ =>
      [start? n (fun _ => some (.statements body))
        (eng.bindParameters (s.bindings.complete s.signature) span s.signature.params args
          (eng.enterMethod s this span m)),
       some ⟨n, .parameters (s.bindings.complete s.signature) s.signature.params args span,
          eng.enterMethod s this span m⟩]
    | .native _ => []
  | ⟨n, .expression e, m⟩ => fromExpression eng n m e
  | ⟨n, .expressions (e :: _), m⟩ => [some ⟨n, .expression e, m⟩]
  | ⟨n, .statement s, m⟩ => fromStatement eng n m s
  | ⟨n, .statements (s :: ss), m⟩ =>
    [some ⟨n, .statement s, m⟩,
     start? n (fun flow => match flow with
        | .normal => some (.statements ss)
        | .returned _ => none) (eng.exec (.atDepth eng n) s m)]
  | ⟨n, .rounds test body _ (_ + 1), m⟩ =>
    [(start? n (fun b => if b then some (.statements body) else none)
      (eng.condition (.atDepth eng n) test m)).map fun N => { N with machine := N.machine.inner }]
  | _ => []

variable {eng : Engine F} {M N : Moment F}

omit [HostFunctions F] in
theorem start?_some {α : Type} {n : Nat} {activity : α → Option (Activity F)}
    {r : EStateM.Result (Stop F) (Machine F) α} (h : start? n activity r = some N) :
    ∃ a m act, r = .ok a m ∧ activity a = some act ∧ N = ⟨n, act, m⟩ := by
  cases r with
  | error e m => cases h
  | ok a m =>
    obtain ⟨act, hact, rfl⟩ := Option.map_eq_some_iff.mp h
    exact ⟨a, m, act, rfl, hact, rfl⟩

theorem leads_of_fromExpression {n : Nat} {m : Machine F} {e : Expr}
    (h : some N ∈ fromExpression eng n m e) : Leads eng ⟨n, .expression e, m⟩ N := by
  rcases List.mem_cons.mp h with h | h
  · obtain ⟨e', he', rfl⟩ := Option.map_eq_some_iff.mp h.symm
    exact .first he'
  · split at h
    · next receiver method es span =>
      rcases List.mem_cons.mp h with h | h
      · obtain ⟨r, m₁, act, heval, hact, rfl⟩ := start?_some h.symm
        cases hact
        exact .callArguments heval
      · obtain ⟨act, m₃, act', hall, hact, rfl⟩ := start?_some (List.mem_singleton.mp h).symm
        cases hact
        obtain ⟨r, m₁, heval, hall⟩ := EvalM.ok_of_bind hall
        obtain ⟨args, m₂, hargs, hall⟩ := EvalM.ok_of_bind hall
        obtain ⟨⟨c, isStatic⟩, m₄, htarget, hall⟩ := EvalM.ok_of_bind hall
        cases hall
        exact .callMethod heval hargs htarget
    · cases h

theorem leads_of_fromStatement {n : Nat} {m : Machine F} {s : Stmt}
    (h : some N ∈ fromStatement eng n m s) : Leads eng ⟨n, .statement s, m⟩ N := by
  rcases List.mem_cons.mp h with h | h
  · obtain ⟨_, m₁, act, htell, hact, rfl⟩ := start?_some h.symm
    obtain ⟨e, he, rfl⟩ := Option.map_eq_some_iff.mp hact
    exact .firstValue he htell
  · split at h
    · obtain ⟨c, m₂, act, hall, hact, rfl⟩ := start?_some (List.mem_singleton.mp h).symm
      cases hact
      obtain ⟨_, m₁, htell, hall⟩ := EvalM.ok_of_bind hall
      obtain ⟨c, m₃, hc, hall⟩ := EvalM.ok_of_bind hall
      cases hall
      exact .initialValue htell hc
    · obtain ⟨N', hN', rfl⟩ := Option.map_eq_some_iff.mp (List.mem_singleton.mp h).symm
      obtain ⟨_, m₁, act, htell, hact, rfl⟩ := start?_some hN'
      cases hact
      exact .block htell
    · split at h
      · next htell =>
        obtain ⟨flow, m₂, act, hinit, hact, rfl⟩ := start?_some (List.mem_singleton.mp h).symm
        cases hact
        exact .forRounds htell hinit
      · cases h
    · cases h

/-- What is computed from a moment is what the moment leads to. -/
theorem leads_of_mem_successors (h : some N ∈ M.successors eng) : Leads eng M N := by
  unfold successors at h
  split at h
  · obtain ⟨entry, hentry, rfl⟩ := Option.map_eq_some_iff.mp (List.mem_singleton.mp h).symm
    exact .run hentry
  · obtain ⟨full, hfull, hstart⟩ := Option.bind_eq_some_iff.mp (List.mem_singleton.mp h).symm
    obtain ⟨view, m₁, act, hview, hact, rfl⟩ := start?_some hstart
    cases hact
    exact .callStatic hfull hview
  · split at h
    · next hfound =>
      cases List.mem_singleton.mp h
      exact .call hfound
    · cases h
  · split at h
    · next hbody =>
      rcases List.mem_cons.mp h with h | h
      · obtain ⟨_, m₁, act, hbind, hact, rfl⟩ := start?_some h.symm
        cases hact
        exact .methodBody hbody hbind
      · cases List.mem_singleton.mp h
        exact .methodParameters hbody
    · cases h
  · exact leads_of_fromExpression h
  · cases List.mem_singleton.mp h
    exact .headExpression
  · exact leads_of_fromStatement h
  · rcases List.mem_cons.mp h with h | h
    · cases h
      exact .headStatement
    · obtain ⟨flow, m₁, act, hexec, hact, rfl⟩ := start?_some (List.mem_singleton.mp h).symm
      cases flow with
      | normal =>
        cases hact
        exact .tailStatements hexec
      | returned v => cases hact
  · obtain ⟨N', hN', rfl⟩ := Option.map_eq_some_iff.mp (List.mem_singleton.mp h).symm
    obtain ⟨b, m₁, act, htest, hact, rfl⟩ := start?_some hN'
    cases b with
    | true =>
      cases hact
      exact .round htest
    | false => cases hact
  · cases h

end Moment

/-! ## Starts of members -/

namespace BodyContext

/-- Only the names and the types of parameters count. -/
theorem defineParameters_congr {ctx : BodyContext F} : ∀ {ps qs : List Parameter} {L L' : Locals},
    Member.writtenParams ps = Member.writtenParams qs → ctx.defineParameters L ps = .ok L' →
    ctx.defineParameters L qs = .ok L'
  | [], [], _, _, _, h => h
  | [], _ :: _, _, _, hsame, _ => nomatch hsame
  | _ :: _, [], _, _, hsame, _ => nomatch hsame
  | q :: ps, r :: qs, L, L', hsame, h => by
    obtain ⟨hhead, htail⟩ := List.cons.inj hsame
    obtain ⟨hname, hty⟩ := Prod.mk.inj hhead
    obtain ⟨ty, hlower, h⟩ := ok_of_bind h
    obtain ⟨L₁, hdefine, h⟩ := ok_of_bind h
    have hlower' : ctx.lower r.ty = .ok ty := hty ▸ hlower
    have hdefine' : define L r.name ty = .ok L₁ := by
      unfold define
      rw [← hname, define_ok hdefine]
    rw [defineParameters, hlower']
    show (define L r.name ty >>= fun L₁ => ctx.defineParameters L₁ qs) = .ok L'
    rw [hdefine']
    exact defineParameters_congr htail h

end BodyContext

namespace Member

/-- The declared parameters of a member; it is not kept where they stand. -/
def parameters (m : Member F) : List Parameter := m.params.map fun q => ⟨q.2, ⟨q.1, {}⟩⟩

theorem writtenParams_parameters (m : Member F) : writtenParams m.parameters = m.params := by
  rw [writtenParams, parameters, List.map_map]
  exact List.map_id _

/-- The context in which the checker looks at the body of a member. -/
def openingContext (m : Member F) (t : ClassTable F) (cls : Template F) (rt : Option Ty) :
    BodyContext F :=
  { table := t, cls, returnType := rt,
    params := TypeParams.pushUnbound (if m.isStatic then [] else TypeParams.unbound cls.generics)
      m.generics,
    this? := if m.isStatic then none else some cls.selfType }

/-- The type that the checker expects the body of a member to return. -/
def openingReturn (m : Member F) (t : ClassTable F) (params : TypeParams) : Option (Option Ty) :=
  match m.returnType with
  | none => some none
  | some e => (t.lower params e).toOption.map some

/-- The context and the locals with which the checker starts on a member. -/
def opening (m : Member F) (t : ClassTable F) : Option (BodyContext F × Locals) := do
  let cls ← t.get? m.owner
  let rt ← m.openingReturn t (m.openingContext t cls none).params
  let L ← ((m.openingContext t cls rt).initialLocals m.parameters).toOption
  return (m.openingContext t cls rt, L)

theorem opening_eq {m : Member F} {t : ClassTable F} {cls : Template F} {rt : Option Ty}
    {L : Locals} (hcls : t.get? m.owner = some cls)
    (hrt : Option.Rel (fun e ty => t.lower (m.openingContext t cls none).params e = .ok ty)
      m.returnType rt)
    (hL : (m.openingContext t cls rt).initialLocals m.parameters = .ok L) :
    m.opening t = some (m.openingContext t cls rt, L) := by
  have hreturn : m.openingReturn t (m.openingContext t cls none).params = some rt := by
    unfold openingReturn
    rcases rel_elim hrt with ⟨h1, rfl⟩ | ⟨e, ty, h1, rfl, hty⟩
    · rw [h1]
    · rw [h1]
      dsimp only
      rw [hty]
      rfl
  rw [opening, hcls, Option.bind_eq_bind, Option.bind_some, hreturn, Option.bind_eq_bind,
    Option.bind_some, hL]
  rfl

end Member

/-- What the checker starts with follows from the member. -/
theorem Program.Opens.opening_eq {p : Program} {t : ClassTable F} {member : Member F}
    {ctx : BodyContext F} {L : Locals} (h : p.Opens t member ctx L) :
    member.opening t = some (ctx, L) := by
  have hlocals : ∀ {qs : List Parameter}, ctx.initialLocals qs = .ok L →
      member.params = Member.writtenParams qs → ctx.initialLocals member.parameters = .ok L := by
    intro qs hL hparams
    rw [BodyContext.initialLocals_eq] at hL ⊢
    exact BodyContext.defineParameters_congr
      (hparams.symm.trans member.writtenParams_parameters.symm) hL
  cases h with
  | method _ _ hcls hrt hL =>
    exact Member.opening_eq hcls (MethodDecl.loweredReturn_ok_iff.mp hrt) (hlocals hL rfl)
  | constructor _ _ hcls hL => exact Member.opening_eq hcls .none (hlocals hL rfl)

/-! ## Visits -/

/-- A moment, with the context and the locals with which the checker came there. -/
structure Visit (F : Type) where
  moment : Moment F
  view? : Option (BodyContext F × Locals)

namespace Visit

/-- How the checker sees what a visit leads to. -/
def viewOf (v : Visit F) (t : ClassTable F) (N : Moment F) : Option (BodyContext F × Locals) :=
  if N.activity.isCode then
    match v.view? with
    | some (ctx, L) =>
      (ctx.localsAt L v.moment.activity N.activity).toOption.map fun L' => (ctx, L')
    | none => v.moment.activity.member?.bind fun m => m.opening t
  else none

variable [HostFunctions F]

/-- One of the visits that a visit leads to. -/
def successor (v : Visit F) (eng : Engine F) (t : ClassTable F) (way : Nat) : Option (Visit F) :=
  (v.moment.successors eng)[way]?.join.map fun N => ⟨N, v.viewOf t N⟩

/-- The last of the visits along a way. -/
def along (eng : Engine F) (t : ClassTable F) (v : Visit F) : List Nat → Option (Visit F)
  | [] => some v
  | way :: ways => (v.successor eng t way).bind fun v => v.along eng t ways

/-- A visit of a moment that a run comes to, as the checker sees it. -/
structure Sound (eng : Engine F) (p : Program) (t : ClassTable F) (start : Moment F)
    (v : Visit F) : Prop where
  reaches : Reaches eng start v.moment
  occurs : ∀ ctx L, v.view? = some (ctx, L) → Occurs eng p t start ctx L v.moment
  code : v.view?.isSome = v.moment.activity.isCode

end Visit

variable {eng : Engine StandardFn} {p : Program} {t : ClassTable StandardFn}
  {start : Moment StandardFn} {v w : Visit StandardFn}

namespace Visit

/-- A visit leads to what its moment leads to. -/
theorem leads_of_successor {way : Nat} (h : v.successor eng t way = some w) :
    Leads eng v.moment w.moment := by
  obtain ⟨N, hN, rfl⟩ := Option.map_eq_some_iff.mp h
  exact Moment.leads_of_mem_successors (List.mem_of_getElem? (Option.join_eq_some_iff.mp hN))

/-- A walk goes through moments of a run, also where the checker has not been. -/
theorem reaches_of_along : ∀ {ways : List Nat} {v : Visit StandardFn},
    v.along eng t ways = some w → Reaches eng v.moment w.moment
  | [], v, hw => by
    cases hw
    exact .refl
  | way :: ways, v, hw => by
    obtain ⟨v', hnext, hw⟩ := Option.bind_eq_some_iff.mp hw
    exact (reaches_of_along hw).head (leads_of_successor hnext)

end Visit

/-- What a visit leads to is seen by the checker as the walk says. -/
theorem Visit.Sound.successor (hv : v.Sound eng p t start) (h : eng.RunsChecked p t)
    (hstart : start.Sound eng.table True) {way : Nat} (hw : v.successor eng t way = some w) :
    w.Sound eng p t start := by
  have hstep := Visit.leads_of_successor hw
  obtain ⟨N, -, rfl⟩ := Option.map_eq_some_iff.mp hw
  have hreach := hv.reaches.tail hstep
  cases hcode : N.activity.isCode with
  | false =>
    have hview : v.viewOf t N = none := by simp [Visit.viewOf, hcode]
    rw [hview]
    exact ⟨hreach, fun _ _ h => (nomatch h), hcode.symm⟩
  | true =>
    obtain ⟨ctx, L, hview, hoccurs⟩ :
        ∃ ctx L, v.viewOf t N = some (ctx, L) ∧ Occurs eng p t start ctx L N := by
      unfold Visit.viewOf
      rw [if_pos hcode]
      cases hprevious : v.view? with
      | some view =>
        obtain ⟨ctx, L⟩ := view
        have hoccurs := hv.occurs ctx L hprevious
        obtain ⟨L', hlocals, -⟩ :=
          hstep.accepts hoccurs.isCode hcode (h.accepts hstart hoccurs)
        exact ⟨ctx, L', by simp [hlocals, Except.toOption], .inner hoccurs hstep hcode hlocals⟩
      | none =>
        have hM : v.moment.activity.isCode = false := by rw [← hv.code, hprevious]; rfl
        rcases hstep.isCode_or_entered hcode with hM' | ⟨s, κ, hs⟩
        · cases hM.symm.trans hM'
        · have hsound := hv.reaches.sound h.build hstart
          obtain ⟨body, superArguments, hbody, -⟩ := (hstep.enters hsound.fit hs hcode).code
          obtain ⟨-, ctx, L, hopens⟩ := h.exists_opens (hsound.selected hs) hbody
          have hmember := Activity.member?_of_entered? hs
          refine ⟨ctx, L, ?_, .opens hv.reaches hmember hstep hcode hopens⟩
          rw [hmember, Option.bind_some, hopens.opening_eq]
    rw [hview]
    refine ⟨hreach, fun ctx' L' h => ?_, hcode.symm⟩
    cases h
    exact hoccurs

theorem Visit.Sound.along (h : eng.RunsChecked p t) (hstart : start.Sound eng.table True) :
    ∀ {ways : List Nat} {v : Visit StandardFn}, v.Sound eng p t start →
    v.along eng t ways = some w → w.Sound eng p t start
  | [], v, hv, hw => by
    cases hw
    exact hv
  | way :: ways, v, hv, hw => by
    obtain ⟨v', hnext, hw⟩ := Option.bind_eq_some_iff.mp hw
    exact along h hstart (hv.successor h hstart hnext) hw

/-- The moment at which a run starts, in a fresh machine. -/
def Moment.first (eng : Engine StandardFn) : Moment StandardFn := ⟨eng.budget, .operation .run, {}⟩

theorem Moment.sound_first {p : Program} {eng : Engine StandardFn} (hserves : eng.Serves p) :
    (Moment.first eng).Sound eng.table True :=
  ⟨(History.fresh : History eng True [] {}).valid_operation hserves.build trivial (.inl rfl),
    trivial⟩

/-- Whether the moment at the end of a way through the run of a program passes a test. -/
def Program.visits (p : Program) (ways : List Nat)
    (test : Engine StandardFn → Visit StandardFn → Bool) : Bool :=
  match ClassTable.build p standard with
  | .error _ => false
  | .ok t => p.launches (fun _ => false) fun eng =>
    (Visit.along eng t ⟨.first eng, none⟩ ways).any (test eng)

/-- Such a moment is one of the run, which the checker sees as the walk says. -/
theorem Program.visits_ok {p : Program} {ways : List Nat}
    {test : Engine StandardFn → Visit StandardFn → Bool} (h : p.visits ways test = true) :
    ∃ p' t eng v, p.analyse standard = .ok p' ∧ ClassTable.build p standard = .ok t ∧
      Engine.new p' standard = .ok eng ∧ v.Sound eng p' t (.first eng) ∧ test eng v = true := by
  unfold visits at h
  split at h
  · cases h
  · next t hbuild =>
    obtain ⟨p', hanalyse, hnew⟩ := Program.launches_iff.mp h
    obtain ⟨eng, hnew, htest⟩ := hnew.resolve_left (by simp)
    obtain ⟨v, hv, htest⟩ := (Option.any_eq_true _ _).mp htest
    have hserves : eng.Serves p' := ⟨eng, hnew, rfl⟩
    obtain ⟨t', hbuild', hchecked⟩ := Engine.runsChecked_of_analysed hanalyse hserves
    cases hbuild.symm.trans hbuild'
    have hfirst : Visit.Sound eng p' t (.first eng) ⟨.first eng, none⟩ :=
      ⟨.refl, fun _ _ hview => (nomatch hview), rfl⟩
    exact ⟨p', t, eng, v, hanalyse, hbuild, hnew,
      hfirst.along hchecked (Moment.sound_first hserves) hv, htest⟩

end Middleweight
