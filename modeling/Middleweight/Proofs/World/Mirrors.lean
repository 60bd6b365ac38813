import Middleweight.Proofs.World.LocalLevels

/-!
# Scopes have the names that the checker has

Where a run comes to a part of a body, its scope has as many levels as the checker has of locals,
with the same names in each. The checker has `this` at its outermost level, a scope keeps the
running instance apart. In programs with ordinary names nothing else has that name, so that a scope
has all names of the checker but this one.

* `Scope.Mirrors` : a scope with the names of the checker
* `Leads.ordinaryLocals`, `Leads.mirrors` : steps inside a body
* `Program.Opens.heightOf?_this`, `Engine.RunsChecked.context_of` : starts of bodies
* `Engine.RunsChecked.mirrors` : all parts of bodies that a run comes to
-/

namespace Middleweight

open NativeRegistry (standard)

variable {F : Type}

/-! ## Levels of locals -/

namespace Locals

/-- The names of all levels, the innermost first; the engine does not keep `this` among them. -/
def names (L : Locals) : List (String → Bool) :=
  L.map fun level name => name != "this" && (level.lookup name).isSome

theorem heightOf?_cons (level : List (String × Ty)) (outer : Locals) (name : String) :
    heightOf? (level :: outer) name =
      if (level.lookup name).isSome then some outer.length else heightOf? outer name := by
  unfold heightOf? levelOf?
  rw [List.findIdx?_cons]
  split
  · simp
  · cases List.findIdx? (fun level : List (String × Ty) => (level.lookup name).isSome) outer with
    | none => rfl
    | some level => simp

theorem heightOf?_push (L : Locals) (name : String) : L.push.heightOf? name = L.heightOf? name :=
  heightOf?_cons [] L name

theorem heightOf?_define {L L' : Locals} {name key : String} {ty : Ty}
    (h : L.define? name ty = some L') (hkey : key ≠ name) (hL : L ≠ []) :
    L'.heightOf? key = L.heightOf? key := by
  obtain ⟨level, outer, rfl, -, rfl⟩ := define?_ok h hL
  rw [heightOf?_cons, heightOf?_cons, List.lookup_cons, beq_false_of_ne hkey]

theorem outermostHas_of_heightOf? {name : String} : ∀ {L : Locals}, L.heightOf? name = some 0 →
    L.outermostHas name = true
  | [], h => nomatch h
  | [level], h => by
    rw [heightOf?_cons] at h
    rw [outermostHas]
    split at h
    · assumption
    · cases h
  | level :: next :: outer, h => by
    rw [heightOf?_cons] at h
    rw [outermostHas]
    split at h
    · cases h
    · exact outermostHas_of_heightOf? h

/-- Where no level but the outermost has `this`, and that only from the checker. -/
theorem declared_eq_names {α : Type} {this? : Option α} : ∀ {L : Locals},
    (L.heightOf? "this" = this?.map fun _ => 0) → L.declared this?.isSome = L.names
  | [], _ => rfl
  | [level], h => by
    refine congrArg (· :: []) (funext fun name => ?_)
    cases this? with
    | some this => rfl
    | none =>
      by_cases hname : name = "this"
      · subst hname
        rw [heightOf?_cons] at h
        split at h
        · cases h
        · next hnone =>
          rw [Bool.eq_false_iff.mpr hnone]
          rfl
      · simp [hname]
  | level :: next :: outer, h => by
    rw [heightOf?_cons] at h
    split at h
    · cases this? <;> cases h
    · next hnone =>
      refine congrArg₂ List.cons (funext fun name => ?_) (declared_eq_names h)
      by_cases hname : name = "this"
      · rw [hname, Bool.eq_false_iff.mpr hnone]
        rfl
      · show _ = (name != "this" && _)
        rw [bne_iff_ne.mpr hname, Bool.true_and]

end Locals

/-- The parts of a body that an activity carries out have ordinary locals. -/
def Activity.OrdinaryLocals : Activity F → Prop
  | .statement s => s.OrdinaryLocals
  | .statements ss => Stmt.OrdinaryLocalsIn ss
  | .rounds _ body update _ =>
    Stmt.OrdinaryLocalsIn body ∧ ∀ u ∈ update, u.isLocal = false ∧ u.OrdinaryLocals
  | _ => True

/-- The loops in parts with ordinary locals declare nothing in their updates. -/
theorem Activity.OrdinaryLocals.plainUpdates {a : Activity F} (h : a.OrdinaryLocals) :
    a.PlainUpdates := by
  cases a with
  | statement s => exact Stmt.OrdinaryLocals.plainUpdates h
  | statements ss => exact Stmt.OrdinaryLocalsIn.plainUpdatesIn h
  | rounds test body update k =>
    exact ⟨h.1.plainUpdatesIn, fun u hu => ⟨(h.2 u hu).1, (h.2 u hu).2.plainUpdates⟩⟩
  | _ => trivial

namespace BodyContext

variable {ctx : BodyContext F} {L L' : Locals}

/-- A statement with ordinary locals leaves `this` where the checker has it. -/
theorem heightOf?_statement {s : Stmt} (h : ctx.statement L s = .ok L') (hs : s.OrdinaryLocals)
    (hL : L ≠ []) : L'.heightOf? "this" = L.heightOf? "this" := by
  cases hlocal : s.isLocal with
  | false => rw [statement_of_isLocal hlocal h]
  | true =>
    cases s with
    | localVariable ty name value span =>
      obtain ⟨lowered, -, -, hdefine⟩ := statement_local h
      rw [Stmt.OrdinaryLocals] at hs
      exact Locals.heightOf?_define hdefine hs.symm hL
    | _ => cases hlocal

/-- On the way into a part with ordinary locals, `this` stays where the checker has it. -/
theorem heightOf?_localsAt {a b : Activity F} (h : ctx.localsAt L a b = .ok L')
    (ha : a.OrdinaryLocals) (hL : L ≠ []) : L'.heightOf? "this" = L.heightOf? "this" := by
  unfold localsAt at h
  split at h
  · change Stmt.OrdinaryLocalsIn _ at ha
    rw [Stmt.OrdinaryLocalsIn] at ha
    exact heightOf?_statement h ha.1 hL
  · cases h
    exact Locals.heightOf?_push L _
  · change Stmt.OrdinaryLocals _ at ha
    rw [Stmt.OrdinaryLocals] at ha
    exact (heightOf?_statement h ha.1 (List.cons_ne_nil _ _)).trans (Locals.heightOf?_push L _)
  · cases h
    exact Locals.heightOf?_push L _
  · cases h
    exact Locals.heightOf?_push L _
  · obtain ⟨L₁, hL₁, rfl⟩ := ok_of_map h
    exact (Locals.heightOf?_push L₁ _).trans (heightOf?_statement hL₁ (ha.2 _ rfl).2 hL)
  · cases h
    rfl

/-- Parameters with ordinary names leave `this` where the checker has it. -/
theorem heightOf?_defineParameters : ∀ {ps : List Parameter} {L L' : Locals},
    ctx.defineParameters L ps = .ok L' → (∀ q ∈ ps, q.name.name ≠ "this") → L ≠ [] →
    L'.heightOf? "this" = L.heightOf? "this"
  | [], L, L', h, _, _ => by
    cases h
    rfl
  | q :: ps, L, L', h, hthis, hL => by
    obtain ⟨ty, -, h⟩ := ok_of_bind h
    obtain ⟨L₁, hL₁, h⟩ := ok_of_bind h
    obtain ⟨hq, hps⟩ := List.forall_mem_cons.mp hthis
    have hdefine := define_ok hL₁
    have hheight := Locals.heightOf?_define hdefine hq.symm hL
    obtain ⟨level, outer, -, -, rfl⟩ := Locals.define?_ok hdefine hL
    exact (heightOf?_defineParameters h hps (List.cons_ne_nil _ _)).trans hheight

end BodyContext

/-! ## Scopes -/

/-- A scope in a context has the names of the checker, level by level, but for `this`. -/
structure Scope.Mirrors (s : Scope F) (κ : Context F) (ctx : BodyContext F) (L : Locals) :
    Prop where
  context : s.context = κ
  names : s.names = L.names
  this : L.heightOf? "this" = ctx.this?.map fun _ => 0

namespace Scope.Mirrors

variable {s : Scope F} {κ : Context F} {ctx : BodyContext F} {L : Locals} {m m' : Machine F}
  {α : Type} {x : EvalM F α} {a : α}

theorem keeps (hx : EvalM.KeepsNames x) (h : m.scope.Mirrors κ ctx L) (hok : x m = .ok a m') :
    m'.scope.Mirrors κ ctx L := by
  obtain ⟨hcontext, hnames⟩ := hx _ _ _ hok
  exact ⟨hcontext.trans h.context, hnames.trans h.names, h.this⟩

theorem follows (h : s.Mirrors κ ctx L) : s.Follows κ ctx L where
  context := h.context
  names := by rw [h.names, Locals.declared_eq_names h.this]
  self hself := by
    obtain ⟨this, hthis⟩ := Option.isSome_iff_exists.mp hself
    exact Locals.outermostHas_of_heightOf? (by rw [h.this, hthis]; rfl)

end Scope.Mirrors

theorem Scope.Follows.mirrors {s : Scope F} {κ : Context F} {ctx : BodyContext F} {L : Locals}
    (h : s.Follows κ ctx L) (hthis : L.heightOf? "this" = ctx.this?.map fun _ => 0) :
    s.Mirrors κ ctx L :=
  ⟨h.context, h.names.trans (Locals.declared_eq_names hthis), hthis⟩

/-- Parts of what has ordinary locals have ordinary locals. -/
theorem Leads.ordinaryLocals [HostFunctions F] {eng : Engine F} {M N : Moment F}
    (hstep : Leads eng M N) (hM : M.activity.isCode = true) (ho : M.activity.OrdinaryLocals) :
    N.activity.OrdinaryLocals := by
  cases hstep with
  | thenBranch _ _ => exact Stmt.ordinaryLocals_thenBranch ho
  | elseBranch _ _ =>
    change Stmt.OrdinaryLocals _ at ho
    rw [Stmt.OrdinaryLocals] at ho
    exact ho.2
  | whileRounds _ =>
    change Stmt.OrdinaryLocals _ at ho
    rw [Stmt.OrdinaryLocals] at ho
    exact ⟨ho, fun _ hu => nomatch hu⟩
  | forInit _ =>
    change Stmt.OrdinaryLocals _ at ho
    rw [Stmt.OrdinaryLocals] at ho
    exact ho.1
  | forRounds _ _ =>
    change Stmt.OrdinaryLocals _ at ho
    rw [Stmt.OrdinaryLocals] at ho
    obtain ⟨-, hlocal, hupdate, hbody⟩ := ho
    refine ⟨hbody, fun u hu => ?_⟩
    cases hu
    exact ⟨hlocal, hupdate⟩
  | block _ =>
    change Stmt.OrdinaryLocals _ at ho
    rw [Stmt.OrdinaryLocals] at ho
    exact ho
  | headStatement =>
    change Stmt.OrdinaryLocalsIn _ at ho
    rw [Stmt.OrdinaryLocalsIn] at ho
    exact ho.1
  | tailStatements _ =>
    change Stmt.OrdinaryLocalsIn _ at ho
    rw [Stmt.OrdinaryLocalsIn] at ho
    exact ho.2
  | round _ => exact ho.1
  | update _ _ => exact (ho.2 _ rfl).2
  | again _ _ _ => exact ho
  | _ => first | (cases hM; done) | trivial

/-- Inside a body a scope keeps having the names of the checker. -/
theorem Leads.mirrors [HostFunctions F] {eng : Engine F} {M N : Moment F} {κ : Context F}
    {ctx : BodyContext F} {L L' : Locals} (hstep : Leads eng M N) (hM : M.activity.isCode = true)
    (hN : N.activity.isCode = true) (hL' : ctx.localsAt L M.activity N.activity = .ok L')
    (h : M.machine.scope.Mirrors κ ctx L) (ho : M.activity.OrdinaryLocals) :
    N.machine.scope.Mirrors κ ctx L' :=
  (hstep.follows hM hN hL' h.follows ho.plainUpdates).mirrors
    ((BodyContext.heightOf?_localsAt hL' ho h.follows.ne_nil).trans h.this)

/-! ## Starts of bodies -/

/--
A context is that of a body in a class: there is no running instance where the checker sees none,
and an instance runs a body of the class.
-/
structure Context.Of (κ : Context F) (ctx : BodyContext F) : Prop where
  static : ctx.this? = none → κ.instance? = none
  owner : ∀ o c, κ = .instance o c → c.name = ctx.cls.name

namespace Program.Opens

variable {p : Program} {t : ClassTable F} {member : Member F} {ctx : BodyContext F} {L : Locals}
  (h : p.Opens t member ctx L)

include h

/-- The type of `this` is that of the class, with its own parameters. -/
theorem this_eq : ctx.this? = if member.isStatic then none else some ctx.cls.selfType := by
  cases h with
  | method _ _ _ _ _ => rfl
  | constructor _ _ _ _ => rfl

theorem ordinaryParams (hnames : p.HasOrdinaryNames) : ∀ e ∈ member.params, e.1 ≠ "this" := by
  cases h with
  | method hd hm _ _ _ => exact List.forall_mem_map.mpr (hnames.methods _ hd _ hm).parameters
  | constructor hd hk _ _ =>
    exact List.forall_mem_map.mpr (hnames.constructors _ hd _ hk).parameters

/-- A body starts with `this` at the outermost level alone, if it is not static. -/
theorem heightOf?_this (hnames : p.HasOrdinaryNames) :
    L.heightOf? "this" = ctx.this?.map fun _ => 0 := by
  obtain ⟨qs, hL, hparams⟩ := h.exists_parameters
  obtain ⟨level, hfirst, -⟩ := ctx.firstLocals_eq
  have hqs : ∀ q ∈ qs, q.name.name ≠ "this" := by
    have hordinary := h.ordinaryParams hnames
    rw [hparams] at hordinary
    exact fun q hq => hordinary _ (List.mem_map_of_mem hq)
  rw [BodyContext.heightOf?_defineParameters hL hqs (by simp [hfirst]), BodyContext.firstLocals]
  cases ctx.this? <;> rfl

theorem ordinaryLocals (hnames : p.HasOrdinaryNames) {body : List Stmt}
    {superArguments : Option (List Expr)} (hbody : member.body = .declared body superArguments) :
    Stmt.OrdinaryLocalsIn body := by
  cases h with
  | method hd hm _ _ _ =>
    cases hbody
    exact (hnames.methods _ hd _ hm).locals
  | constructor hd hk _ _ =>
    cases hbody
    exact (hnames.constructors _ hd _ hk).locals

end Program.Opens

/-- The parameters of a chosen member have the names that are written. -/
theorem Selected.Sound.paramNames {t : ClassTable F} {s : Selected F (RuntimeClass F)}
    (hs : s.Sound t) : s.signature.params.map Param.name = s.member.params.map Prod.fst :=
  ClassTable.paramNames_of_signature hs.signature

section Runs

variable {eng : Engine StandardFn} {p : Program} {t : ClassTable StandardFn}
  {M N start : Moment StandardFn} {ctx : BodyContext StandardFn} {L : Locals}

/-- Constructors are not static. -/
theorem ClassTable.isStatic_of_constructor (h : build p standard = .ok t) {name : String}
    {c : Template StandardFn} (hc : t.get? name = some c) {member : Member StandardFn}
    (hmember : member ∈ c.constructors) : member.isStatic = false := by
  have hnatives : ∀ n ∈ standard.classes, ∀ m ∈ n.constructors, m.isStatic = false := by
    decide +kernel
  rcases mem_classes_cases h (get?_mem hc) with ⟨q, rfl⟩ | ⟨n, hn, hmade⟩ | ⟨d, -, hmade⟩
  · cases hmember
  · obtain ⟨base, -, rfl⟩ := nativeTemplate_ok hmade
    obtain ⟨m, hm, rfl⟩ := List.mem_map.mp hmember
    exact hnatives n hn m hm
  · obtain ⟨base, fields, -, -, rfl⟩ := declaredTemplate_ok hmade
    obtain ⟨k, -, rfl⟩ := List.mem_map.mp hmember
    rfl

namespace Engine.RunsChecked

variable (h : eng.RunsChecked p t)

include h

/-- The context that a member runs in is that of its body. -/
theorem context_of (hM : M.Sound eng.table True)
    {s : Selected StandardFn (RuntimeClass StandardFn)} {κ : Context StandardFn}
    (hs : M.activity.entered? = some (s, κ)) (hopens : p.Opens t s.member ctx L)
    (howner : s.member.owner = s.owner.name) : κ.Of ctx := by
  have hthis := hopens.this_eq
  have hget := (hM.selected hs).owner.get?
  have hname : s.owner.name = ctx.cls.name :=
    howner.symm.trans (ClassTable.get?_name hopens.get?_owner.2).symm
  obtain ⟨-, hfit⟩ := hM
  generalize M.activity = a at hs hfit
  cases a with
  | method s this args span =>
    cases hs
    constructor
    · intro hnone
      cases hstatic : s.member.isStatic with
      | false => simp [hnone, hstatic] at hthis
      | true =>
        rw [hfit.2 hstatic]
        rfl
    · intro o c hκ
      cases this <;> cases hκ
      exact hname
  | constructor s o isStaticView rest args span =>
    cases hs
    constructor
    · intro hnone
      have hmem := hfit.2.2
      unfold RuntimeClass.constructors at hmem
      split at hmem
      · cases hmem
      · simp [hnone, ClassTable.isStatic_of_constructor h.build hget hmem] at hthis
    · intro o' c hκ
      cases hκ
      exact hname
  | _ => cases hs

/-- Wherever a run comes to a part of a body, the scope has the names of the checker. -/
theorem mirrors (hstart : start.Sound eng.table True) (hnames : p.HasOrdinaryNames)
    (hN : Occurs eng p t start ctx L N) :
    ∃ κ : Context StandardFn, κ.Of ctx ∧ N.machine.scope.Mirrors κ ctx L ∧
      N.activity.OrdinaryLocals := by
  induction hN with
  | opens hreach hmember hstep hcode hopens =>
    obtain ⟨s, κ, hs, rfl⟩ := Activity.exists_entered? hmember
    have hM := hreach.sound h.build hstart
    have hselected := hM.selected hs
    have henters := hstep.enters hM.fit hs hcode
    obtain ⟨body, superArguments, hbody, hactivity⟩ := henters.code
    refine ⟨κ, h.context_of hM hs hopens (h.exists_opens hselected hbody).1,
      (henters.follows hopens (hselected.sound trivial).paramNames).mirrors
        (hopens.heightOf?_this hnames), ?_⟩
    rcases hactivity with heq | ⟨heq, -⟩
    · rw [heq]
      exact hopens.ordinaryLocals hnames hbody
    · rw [heq]
      trivial
  | inner hM hstep hcode hlocals ih =>
    obtain ⟨κ, hκ, hmirrors, hlocal⟩ := ih
    exact ⟨κ, hκ, hstep.mirrors hM.isCode hcode hlocals hmirrors hlocal,
      hstep.ordinaryLocals hM.isCode hlocal⟩

end Engine.RunsChecked

end Runs

end Middleweight
