import Middleweight.Proofs.World.Mirrors
import Middleweight.Proofs.World.Walks

/-!
# Locals are found at the levels that the checker has for them

However a run goes over a body that was accepted, its scope keeps in step with the locals of the
checker. So a name that the checker took for a local or a parameter is looked up and assigned to at
the level where the checker found it, and what is declared takes the place of nothing.

* `Scope.FindsAt`, `Scope.InStep` : names and levels of a scope, and those of the checker
* `Moment.Within`, `Inside` : the parts of a body that a run comes to, and the locals of the checker
* `Reaches.bindsNew` : parameters are new when they are bound
* `scopes_keep_step` : all parts of accepted bodies
-/

namespace Middleweight

open NativeRegistry (standard)

variable {F : Type}

/-! ## Names in scopes -/

namespace Scope

variable {s : Scope F} {name : String} {k : Nat}

theorem assignIn_of_findIdx? (value : Value F) : ∀ {ls : List (Level F)} {k : Nat} {l : Level F},
    ls.findIdx? (fun l => (l.locals.lookup name).isSome) = some k → ls[k]? = some l →
    assignIn name value ls =
      some (ls.set k { l with locals := Instance.setIn name value l.locals })
  | [], _, _, h, _ => nomatch h
  | l :: rest, k, l', h, hl => by
    rw [List.findIdx?_cons] at h
    rw [assignIn]
    cases hname : l.locals.lookup name with
    | some v =>
      rw [hname] at h
      cases h
      cases hl
      rfl
    | none =>
      rw [hname] at h
      obtain ⟨i, hi, rfl⟩ := Option.map_eq_some_iff.mp h
      rw [List.getElem?_cons_succ] at hl
      dsimp only
      rw [assignIn_of_findIdx? value hi hl]
      rfl

/--
The innermost level with a name: looking the name up gives the variable of that level, and assigning
to the name changes that variable and nothing else.
-/
def FindsAt (s : Scope F) (name : String) (k : Nat) : Prop :=
  s.levelOf? name = some k ∧ ∃ l v, s.levels[k]? = some l ∧ l.locals.lookup name = some v ∧
    s.lookup name = some v ∧
    ∀ value, ∃ s', s.assign name value = some s' ∧ s'.context = s.context ∧
      s'.levels = s.levels.set k { l with locals := Instance.setIn name value l.locals }

theorem findsAt_of_levelOf? (h : s.levelOf? name = some k) : s.FindsAt name k := by
  obtain ⟨l, v, hl, hv, hlookup⟩ := lookupIn_of_findIdx? h
  refine ⟨h, l, v, hl, hv, hlookup, fun value => ?_⟩
  have hassign := assignIn_of_findIdx? value h hl
  unfold assign
  rw [hassign]
  cases k with
  | zero => exact ⟨_, rfl, rfl, rfl⟩
  | succ k => exact ⟨_, rfl, rfl, rfl⟩

/-- A name is declared that is new at the current level, and no variable gives way to it. -/
def Gains (s : Scope F) (name : String) (s' : Scope F) : Prop :=
  s.current.locals.lookup name = none ∧
    ∃ v, s' = s.define name v ∧ s'.current.locals = (name, v) :: s.current.locals

theorem gains_define (h : s.current.locals.lookup name = none) (v : Variable F) :
    s.Gains name (s.define name v) := by
  refine ⟨h, v, rfl, congrArg ((name, v) :: ·) (List.filter_eq_self.mpr fun e he => ?_)⟩
  rw [decide_eq_true_iff]
  rintro rfl
  exact bne_iff_ne.mp (List.lookup_eq_none_iff.mp h e he) rfl

theorem Gains.lookup {s s' : Scope F} {name key : String} (h : s.Gains name s')
    (hkey : key ≠ name) : s'.current.locals.lookup key = s.current.locals.lookup key := by
  obtain ⟨-, v, -, hlocals⟩ := h
  rw [hlocals, List.lookup_cons, beq_false_of_ne hkey]

/--
A scope is in step with locals of the checker: it has as many levels, with the same names at each,
and what the checker finds among the locals is found at the same level.
-/
structure InStep (s : Scope F) (ctx : BodyContext F) (L : Locals) : Prop where
  levels : s.levels.length = L.length
  names : s.names = L.declared ctx.this?.isSome
  finds : ∀ name ty, name ≠ "this" → L.lookup name = some ty →
    ∃ k, L.levelOf? name = some k ∧ s.FindsAt name k

theorem Follows.inStep {κ : Context F} {ctx : BodyContext F} {L : Locals}
    (h : s.Follows κ ctx L) : s.InStep ctx L where
  levels := h.length_eq
  names := h.names
  finds name ty hname hlookup := by
    cases hlevel : L.levelOf? name with
    | none => cases hlookup.symm.trans (Locals.lookup_of_levelOf?_none hlevel)
    | some k => exact ⟨k, rfl, findsAt_of_levelOf? ((h.levelOf?_eq hname).trans hlevel)⟩

end Scope

/-! ## Parts of bodies -/

variable [HostFunctions F] {eng : Engine F}

/--
The machines in which a moment looks names up and assigns to them: its own, and those after the
observer has been told, expressions have been evaluated and operators have been applied.
-/
inductive Moment.Meets (eng : Engine F) (N : Moment F) : Machine F → Prop
  | start : Meets eng N N.machine
  | told : Meets eng N m → eng.tellStatement span m = .ok () m' → Meets eng N m'
  | evaluated : Meets eng N m → eng.eval (.atDepth eng N.depth) e m = .ok v m' → Meets eng N m'
  | combined : Meets eng N m →
      eng.combine op (do return (← eng.lookup target).value) v span m = .ok w m' → Meets eng N m'

theorem Moment.Meets.follows {N : Moment F} {m : Machine F} (h : N.Meets eng m) {κ : Context F}
    {ctx : BodyContext F} {L : Locals} (hN : N.machine.scope.Follows κ ctx L) :
    m.scope.Follows κ ctx L := by
  induction h with
  | start => exact hN
  | told _ htell ih => exact .keeps (eng.keepsNames_tellStatement _) ih htell
  | evaluated _ heval ih =>
    exact .keeps (eng.keepsNames_eval (Calls.scopeKept_atDepth eng _) _) ih heval
  | combined _ hcombine ih =>
    exact .keeps (Engine.keepsNames_combine (.map (eng.keepsNames_lookup _) _) _ _) ih hcombine

/-- What a run comes to from a part of a body without leaving the body. -/
def Moment.Within (eng : Engine F) : Moment F → Moment F → Prop :=
  Relation.ReflTransGen fun M N => Leads eng M N ∧ N.activity.isCode = true

/-- The locals with which the checker comes to a part of a body, on the way that a run takes. -/
inductive Inside (eng : Engine F) (ctx : BodyContext F) (L₀ : Locals) (B : Moment F) :
    Locals → Moment F → Prop
  | start : Inside eng ctx L₀ B L₀ B
  | step {M N : Moment F} {L L' : Locals} : Inside eng ctx L₀ B L M → Leads eng M N →
      N.activity.isCode = true → ctx.localsAt L M.activity N.activity = .ok L' →
      Inside eng ctx L₀ B L' N

/--
A moment of a body is in step with locals of the checker: its scopes are, and a local that it
declares is new at its level and takes the place of nothing.
-/
structure Moment.InStep (eng : Engine F) (N : Moment F) (ctx : BodyContext F) (L : Locals) :
    Prop where
  accepts : ctx.Accepts L N.activity
  scopes : ∀ m, N.Meets eng m → m.scope.InStep ctx L
  declares : ∀ ty name value span flow m',
    N.activity = .statement (.localVariable ty name value span) →
    eng.exec (.atDepth eng N.depth) (.localVariable ty name value span) N.machine = .ok flow m' →
    ∃ s : Scope F, s.InStep ctx L ∧ s.Gains name.name m'.scope

theorem Scope.Follows.moment {N : Moment F} {κ : Context F} {ctx : BodyContext F} {L : Locals}
    (h : N.machine.scope.Follows κ ctx L) (haccepts : ctx.Accepts L N.activity) :
    N.InStep eng ctx L where
  accepts := haccepts
  scopes m hm := (hm.follows h).inStep
  declares ty name value span flow m' hactivity hexec := by
    rw [hactivity] at haccepts
    obtain ⟨L', hL'⟩ := haccepts
    obtain ⟨lowered, -, -, hdefine⟩ := BodyContext.statement_local hL'
    -- The scope in which the local is declared, after all that comes before.
    rw [Engine.exec] at hexec
    obtain ⟨_, m₁, htell, hexec⟩ := EvalM.ok_of_bind hexec
    obtain ⟨c, m₂, hty, hexec⟩ := EvalM.ok_of_bind hexec
    obtain ⟨v, m₃, hvalue, hexec⟩ := EvalM.ok_of_bind hexec
    obtain ⟨_, m₄, hmodify, hexec⟩ := EvalM.ok_of_bind hexec
    cases hexec
    cases hmodify
    have hscope : m₃.scope.Follows κ ctx L :=
      .keeps (eng.keepsNames_initialValue (Calls.scopeKept_atDepth eng _) _ _)
        (.keeps (eng.keepsNames_resolveType _) (.keeps (eng.keepsNames_tellStatement _) h htell)
          hty) hvalue
    exact ⟨m₃.scope, hscope.inStep, Scope.gains_define (hscope.fresh hdefine) ⟨c, v⟩⟩

section Parts

variable {ctx : BodyContext F} {L₀ L : Locals} {B N : Moment F}

/-- The checker has come to every part of an accepted body that a run comes to. -/
theorem Moment.Within.exists_inside (h : B.Within eng N) (hB : B.activity.isCode = true)
    (haccepts : ctx.Accepts L₀ B.activity) :
    ∃ L, Inside eng ctx L₀ B L N ∧ ctx.Accepts L N.activity := by
  have hcode : ∀ {M : Moment F}, B.Within eng M → M.activity.isCode = true := by
    intro M hM
    rcases Relation.ReflTransGen.cases_tail hM with rfl | ⟨M', -, -, hcode⟩
    · exact hB
    · exact hcode
  induction h with
  | refl => exact ⟨L₀, .start, haccepts⟩
  | tail hM hstep ih =>
    obtain ⟨L, hinside, hL⟩ := ih
    obtain ⟨L', hlocals, hL'⟩ := hstep.1.accepts (hcode hM) hstep.2 hL
    exact ⟨L', .step hinside hstep.1 hstep.2 hlocals, hL'⟩

/-- All parts of a body keep in step with the checker if its start does. -/
theorem Inside.follows (h : Inside eng ctx L₀ B L N) (hB : B.activity.isCode = true)
    {κ : Context F} (hscope : B.machine.scope.Follows κ ctx L₀)
    (haccepts : ctx.Accepts L₀ B.activity) (hplain : B.activity.PlainUpdates) :
    N.activity.isCode = true ∧ N.machine.scope.Follows κ ctx L ∧ ctx.Accepts L N.activity ∧
      N.activity.PlainUpdates := by
  induction h with
  | start => exact ⟨hB, hscope, haccepts, hplain⟩
  | step _ hstep hcode hlocals ih =>
    obtain ⟨hM, hfollows, hL, hplainM⟩ := ih
    obtain ⟨L', hlocals', hL'⟩ := hstep.accepts hM hcode hL
    cases hlocals.symm.trans hlocals'
    exact ⟨hcode, hstep.follows hM hcode hlocals hfollows hplainM, hL',
      hstep.plainUpdates hM hplainM⟩

/-- Every part of a body that a run comes to is reached from the start of the body. -/
theorem Occurs.exists_inside {p : Program} {t : ClassTable F} {start : Moment F}
    (h : Occurs eng p t start ctx L N) : ∃ M B member L₀, Reaches eng start M ∧
      M.activity.member? = some member ∧ Leads eng M B ∧ B.activity.isCode = true ∧
      p.Opens t member ctx L₀ ∧ B.Within eng N ∧ Inside eng ctx L₀ B L N := by
  induction h with
  | opens hreach hmember hstep hcode hopens =>
    exact ⟨_, _, _, _, hreach, hmember, hstep, hcode, hopens, .refl, .start⟩
  | inner _ hstep hcode hlocals ih =>
    obtain ⟨M, B, member, L₀, hreach, hmember, hB, hBcode, hopens, hwithin, hinside⟩ := ih
    exact ⟨M, B, member, L₀, hreach, hmember, hB, hBcode, hopens, hwithin.tail ⟨hstep, hcode⟩,
      .step hinside hstep hcode hlocals⟩

end Parts

/-! ## Parameters -/

/-- The parameters that are still to be bound have different names, and the scope has none. -/
def Moment.BindsNew (N : Moment F) : Prop :=
  ∃ bindings ps vs span, N.activity = .parameters bindings ps vs span ∧
    (ps.map Param.name).Nodup ∧ ∀ q ∈ ps, N.machine.scope.current.locals.lookup q.name = none

section Parameters

variable {M N : Moment F}

/-- A member that a run comes to has the parameters that are written. -/
theorem Reaches.paramNames {n : Nat} {op : HostOperation F} {m : Machine F}
    (h : Reaches eng ⟨n, .operation op, m⟩ M) {s : Selected F (RuntimeClass F)} {κ : Context F}
    (hs : M.activity.entered? = some (s, κ)) :
    s.signature.params.map Param.name = s.member.params.map Prod.fst := by
  rcases Relation.ReflTransGen.cases_tail h with rfl | ⟨M', -, hstep⟩
  · cases hs
  · cases hstep with
    | call hresolve =>
      cases hs
      exact ClassTable.paramNames_of_signature (ClassTable.method_of_found hresolve).2.1
    | constructor hresolve =>
      cases hs
      exact ClassTable.paramNames_of_signature (ClassTable.constructor_of_found hresolve).2.2
    | _ => cases hs

/-- Where a member leads to its parameters, they are new if they have different names. -/
theorem Leads.bindsNew (hstep : Leads eng M N) {s : Selected F (RuntimeClass F)} {κ : Context F}
    (hs : M.activity.entered? = some (s, κ)) (hnodup : (s.signature.params.map Param.name).Nodup)
    {bindings : Bindings} {ps : List Param} {vs : List (Variable F)} {span : Span}
    (hN : N.activity = .parameters bindings ps vs span) : N.BindsNew := by
  cases hstep with
  | methodParameters _ | constructorParameters _ =>
    cases hs
    exact ⟨_, _, _, _, rfl, hnodup, fun _ _ => rfl⟩
  | _ => first | (cases hs; done) | cases hN

/-- Where parameters are bound, the first of them is, and the others stay new. -/
theorem Moment.BindsNew.step (h : M.BindsNew) (hstep : Leads eng M N) :
    N.BindsNew ∧ ∃ bindings q ps v vs span,
      M.activity = .parameters bindings (q :: ps) (v :: vs) span ∧
        M.machine.scope.Gains q.name N.machine.scope := by
  obtain ⟨bindings, ps, vs, span, hM, hnodup, hnew⟩ := h
  cases hstep with
  | nextParameter hclass =>
    cases hM
    obtain ⟨hq, hrest⟩ := List.nodup_cons.mp hnodup
    rw [EvalM.ScopeKept.of_ok (eng.scopeKept_register _) hclass]
    have hgains := Scope.gains_define (hnew _ List.mem_cons_self)
    refine ⟨⟨_, _, _, _, rfl, hrest, fun r hr => ?_⟩, _, _, _, _, _, _, rfl, hgains _⟩
    have hne := ne_of_mem_of_not_mem (List.mem_map_of_mem hr) hq
    exact ((hgains _).lookup hne).trans (hnew r (List.mem_cons_of_mem _ hr))
  | _ => cases hM

/-- From the parameters of a member, a run binds parameters and does nothing else. -/
theorem Reaches.bindsNew (h : Reaches eng M N) (hM : M.BindsNew) : N.BindsNew := by
  induction h with
  | refl => exact hM
  | tail _ hstep ih => exact (ih.step hstep).1

end Parameters

/-! ## Bodies -/

/--
A run of a member on which the checker has started, in whose body no update of a loop declares a
local. Its parameters take the place of nothing when they are bound. And once its body, or what it
passes on to a base as a constructor, has been accepted, the checker has come to every part of it
that the run comes to; and whenever the run comes there, its scope is in step with the locals of the
checker.
-/
theorem scopes_keep_step {p : Program} {t : ClassTable F} {member : Member F}
    {ctx : BodyContext F} {L₀ : Locals} (hopens : p.Opens t member ctx L₀) {body : List Stmt}
    {superArguments : Option (List Expr)} (hbody : member.body = .declared body superArguments)
    (hplain : Stmt.plainUpdatesIn body = true) {n : Nat} {op : HostOperation F} {m₀ : Machine F}
    {M : Moment F} (hreach : Reaches eng ⟨n, .operation op, m₀⟩ M)
    (hmember : M.activity.member? = some member) :
    (∀ P, Leads eng M P → (∃ b ps vs span, P.activity = .parameters b ps vs span) →
      ∀ Q R, Reaches eng P Q → Leads eng Q R → ∃ b q ps v vs span,
        Q.activity = .parameters b (q :: ps) (v :: vs) span ∧
          Q.machine.scope.Gains q.name R.machine.scope) ∧
    ∀ B, Leads eng M B → B.activity.isCode = true → ctx.Accepts L₀ B.activity →
      ∀ N, B.Within eng N →
        (∃ L, Inside eng ctx L₀ B L N) ∧ ∀ L, Inside eng ctx L₀ B L N → N.InStep eng ctx L := by
  obtain ⟨s, κ, hs, rfl⟩ := Activity.exists_entered? hmember
  have hnames := hreach.paramNames hs
  refine ⟨fun P hP ⟨b, ps, vs, span, hparameters⟩ Q R hQ hR => ?_,
    fun B hB hcode haccepts N hN => ?_⟩
  · have hnew := hP.bindsNew hs (hnames ▸ hopens.nodup) hparameters
    exact ((hQ.bindsNew hnew).step hR).2
  · have henters := hB.enters (hreach.fit trivial) hs hcode
    have hscope := henters.follows hopens hnames
    have hupdates : B.activity.PlainUpdates := by
      obtain ⟨body', superArguments', hbody', hactivity⟩ := henters.code
      cases hbody.symm.trans hbody'
      rcases hactivity with heq | ⟨heq, -⟩
      · rw [heq]
        exact hplain
      · rw [heq]
        trivial
    obtain ⟨L, hinside, -⟩ := hN.exists_inside hcode haccepts
    refine ⟨⟨L, hinside⟩, fun L hL => ?_⟩
    obtain ⟨-, hfollows, hL, -⟩ := hL.follows hcode hscope haccepts hupdates
    exact hfollows.moment hL

open Build in
/-- A method that assigns to its parameter from a block in a loop. -/
def nestedProgram : Program :=
  program
    [{ name := ident "Main",
       methods :=
         [staticMethod "count" none [param "int" "n"]
           [forLoop (localVariable "int" "i" (some (int 0))) (binary (var "i") .lt (var "n"))
             (expr (postIncrement (var "i")))
             [localVariable "int" "k" (some (var "i")),
              block [localVariable "String" "s" (some (string "a")), assign "n" (var "k")]]],
          mainMethod [expr (call (var "Main") "count" [int 2])]] }]

/-- Whether a name is assigned to that the checker has found at some level. -/
def Visit.assignsAt (name : String) (level : Nat) (v : Visit StandardFn) : Bool :=
  match v.view?, v.moment.activity with
  | some (_, L), .statement (.assign target _ _ _) =>
    target.name == name && L.levelOf? name == some level
  | _, _ => false

theorem scopes_keep_step_nested :
    ∃ p' eng t M B N member body superArguments ctx L₀ L target op e span,
      nestedProgram.analyse standard = .ok p' ∧ Engine.new p' standard = .ok eng ∧
      p'.Opens t member ctx L₀ ∧ member.body = .declared body superArguments ∧
      Stmt.plainUpdatesIn body = true ∧ Reaches eng (.first eng) M ∧
      M.activity.member? = some member ∧ Leads eng M B ∧ B.activity.isCode = true ∧
      ctx.Accepts L₀ B.activity ∧ B.Within eng N ∧ Inside eng ctx L₀ B L N ∧
      N.activity = .statement (.assign target op e span) ∧ target.name = "n" ∧
      N.machine.scope.levels.length = L.length ∧ N.machine.scope.FindsAt target.name 3 := by
  have hvisits : nestedProgram.visits [0, 0, 0, 0, 0, 0, 2, 0, 0, 0, 1, 0, 1, 0, 1, 1, 0]
      (fun _ v => v.assignsAt "n" 3) = true := by
    decide +kernel
  have hnames : nestedProgram.HasOrdinaryNames := by decide +kernel
  obtain ⟨p', t, eng, v, hanalyse, hbuild, hnew, hv, htest⟩ := Program.visits_ok hvisits
  have hserves : eng.Serves p' := ⟨eng, hnew, rfl⟩
  obtain ⟨t', hbuild', hchecked⟩ := Engine.runsChecked_of_analysed hanalyse hserves
  cases hbuild.symm.trans hbuild'
  unfold Visit.assignsAt at htest
  split at htest
  · next ctx L target op e span hview hactivity =>
    simp only [Bool.and_eq_true, beq_iff_eq] at htest
    obtain ⟨htarget, hlevel⟩ := htest
    obtain ⟨M, B, member, L₀, hreach, hmember, hB, hcode, hopens, hwithin, hinside⟩ :=
      (hv.occurs ctx L hview).exists_inside
    obtain ⟨s, κ, hs, rfl⟩ := Activity.exists_entered? hmember
    have hM := hreach.sound hchecked.build (Moment.sound_first hserves)
    have henters := hB.enters hM.fit hs hcode
    have haccepts := hchecked.accepts_start (hM.selected hs) henters hopens
    obtain ⟨body, superArguments, hbody, -⟩ := henters.code
    have hplain := (hopens.ordinaryLocals
      (hnames.analysed (Program.analyse_ok_iff.mp hanalyse)) hbody).plainUpdatesIn
    obtain ⟨-, hbodies⟩ := scopes_keep_step hopens hbody hplain hreach hmember
    have hscope := ((hbodies B hB hcode haccepts _ hwithin).2 L hinside).scopes _ .start
    obtain ⟨-, -, hlookup, hsome⟩ := Locals.lookup_of_levelOf? hlevel
    obtain ⟨ty, hty⟩ := Option.isSome_iff_exists.mp hsome
    obtain ⟨k, hk, hfinds⟩ := hscope.finds "n" ty (by decide) hty
    cases hlevel.symm.trans hk
    exact ⟨p', eng, t, M, B, v.moment, s.member, body, superArguments, ctx, L₀, L, target, op, e,
      span, hanalyse, hnew, hopens, hbody, hplain, hreach, hmember, hB, hcode, haccepts, hwithin,
      hinside, hactivity, htarget, hscope.levels, htarget ▸ hfinds⟩
  · cases htest

end Middleweight
