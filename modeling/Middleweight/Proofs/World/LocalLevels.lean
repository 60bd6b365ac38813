import Middleweight.Proofs.Syntax.OrdinaryNames
import Middleweight.Proofs.World.Occurrences
import Middleweight.Proofs.World.Referents

/-!
# Levels of locals and levels of scopes

The checker goes over a body once, with one level of locals for every block that it is in. A run
comes to the parts of the body as often as it does, and opens a level of its scope for every block
each time. Wherever a run comes to a part of a body, its scope has as many levels as the checker has
there, with the same names in each.

In members that are not static the checker has `this` among the names of the outermost level; a
scope keeps the running instance apart. And what a loop declares in its update would be known to the
checker in the body of the loop, to the engine only later; so bodies are taken that have no such
updates.

* `Locals.declared` : the names of the checker, level by level
* `Scope.Follows` : a scope with the names of the checker
* `Leads.follows` : steps inside a body
* `Program.Opens.declared`, `Program.Opens.nodup` : starts of bodies
-/

namespace Middleweight

variable {F : Type}

/-! ## Names of the checker -/

namespace Locals

/--
The names that are declared at each level, the innermost first. Where the checker has put `this` at
the outermost level by itself, it is not among them.
-/
def declared (self : Bool) : Locals → List (String → Bool)
  | [] => []
  | [level] => [fun name => !(self && name == "this") && (level.lookup name).isSome]
  | level :: next :: outer =>
    (fun name => (level.lookup name).isSome) :: declared self (next :: outer)

/-- Whether a name is among the locals of the outermost level. -/
def outermostHas (name : String) : Locals → Bool
  | [] => false
  | [level] => (level.lookup name).isSome
  | _ :: next :: outer => outermostHas name (next :: outer)

variable {L L' : Locals} {self : Bool}

theorem length_declared : ∀ L : Locals, (L.declared self).length = L.length
  | [] => rfl
  | [_] => rfl
  | _ :: next :: outer => congrArg (· + 1) (length_declared (next :: outer))

theorem declared_push (hL : L ≠ []) :
    L.push.declared self = (fun _ => false) :: L.declared self := by
  cases L with
  | nil => exact absurd rfl hL
  | cons level outer => rfl

/-- What a level does not have is not among its names. -/
theorem declared_cons (self : Bool) {level : List (String × Ty)} {name : String}
    (hnew : level.lookup name = none) (outer : Locals) :
    ∃ names rest, declared self (level :: outer) = names :: rest ∧ names name = false := by
  cases outer with
  | nil => exact ⟨_, _, rfl, by simp [hnew]⟩
  | cons next outer => exact ⟨_, _, rfl, by simp [hnew]⟩

theorem outermostHas_push (hL : L ≠ []) (name : String) :
    L.push.outermostHas name = L.outermostHas name := by
  cases L with
  | nil => exact absurd rfl hL
  | cons level outer => rfl

/-- A name is declared at the innermost level, which did not have it. -/
theorem define?_ok {name : String} {ty : Ty} (h : L.define? name ty = some L') (hL : L ≠ []) :
    ∃ level outer, L = level :: outer ∧ level.lookup name = none ∧
      L' = ((name, ty) :: level) :: outer := by
  cases L with
  | nil => exact absurd rfl hL
  | cons level outer =>
    rw [define?] at h
    split at h
    · cases h
    · next hnew =>
      cases h
      exact ⟨level, outer, rfl, Option.not_isSome_iff_eq_none.mp hnew, rfl⟩

/-- Declaring a name adds it to the innermost level, for `this` cannot be declared again there. -/
theorem declared_define {name : String} {ty : Ty} (h : L.define? name ty = some L') (hL : L ≠ [])
    (hself : self = true → L.outermostHas "this" = true) :
    L'.declared self = Scope.withName (some name) (L.declared self) := by
  obtain ⟨level, outer, rfl, hnew, rfl⟩ := define?_ok h hL
  have hkey : ∀ key, ((((name, ty) :: level).lookup key).isSome : Bool) =
      (key == name || (level.lookup key).isSome) := by
    intro key
    rw [List.lookup_cons]
    cases key == name <;> rfl
  cases outer with
  | cons next rest => exact congrArg (· :: _) (funext hkey)
  | nil =>
    refine congrArg (· :: []) (funext fun key => ?_)
    rw [hkey]
    by_cases heq : key = name
    · -- The new name is `this` only if the level has not got it from the checker.
      subst heq
      have hthis : (self && key == "this") = false := by
        by_contra hboth
        rw [Bool.not_eq_false, Bool.and_eq_true, beq_iff_eq] at hboth
        have := hself hboth.1
        rw [outermostHas, ← hboth.2, hnew] at this
        cases this
      rw [hthis, beq_self_eq_true]
      rfl
    · rw [beq_false_of_ne heq, Bool.false_or, Bool.false_or]

theorem outermostHas_define {name key : String} {ty : Ty} (h : L.define? name ty = some L')
    (hL : L ≠ []) (hkey : L.outermostHas key = true) : L'.outermostHas key = true := by
  obtain ⟨level, outer, rfl, -, rfl⟩ := define?_ok h hL
  cases outer with
  | cons next rest => exact hkey
  | nil =>
    rw [outermostHas] at hkey ⊢
    rw [List.lookup_cons]
    cases key == name
    · exact hkey
    · rfl

/-- The level at which a name other than `this` is declared. -/
theorem levelOf?_eq_findIdx? {name : String} (hname : name ≠ "this") : ∀ L : Locals,
    L.levelOf? name = (L.declared self).findIdx? fun names => names name
  | [] => rfl
  | [level] => by
    simp only [levelOf?, declared, List.findIdx?_cons, List.findIdx?_nil, beq_false_of_ne hname,
      Bool.and_false, Bool.not_false, Bool.true_and]
  | level :: next :: outer => by
    have ih := levelOf?_eq_findIdx? hname (next :: outer)
    unfold levelOf? at ih ⊢
    rw [List.findIdx?_cons, ih, declared, List.findIdx?_cons]

end Locals

/-! ## Scopes -/

theorem Scope.length_names (s : Scope F) : s.names.length = s.levels.length := List.length_map _

theorem Scope.levelOf?_eq_findIdx? (s : Scope F) (name : String) :
    s.levelOf? name = s.names.findIdx? fun names => names name := by
  rw [Scope.names, List.findIdx?_map]
  rfl

/-- A scope in a context has the names of the checker at every level. -/
structure Scope.Follows (s : Scope F) (κ : Context F) (ctx : BodyContext F) (L : Locals) :
    Prop where
  context : s.context = κ
  names : s.names = L.declared ctx.this?.isSome
  self : ctx.this?.isSome = true → L.outermostHas "this" = true

namespace Scope.Follows

variable {s : Scope F} {κ : Context F} {ctx : BodyContext F} {L L' : Locals} {m m' : Machine F}
  {α : Type} {x : EvalM F α} {a : α}

theorem ne_nil (h : s.Follows κ ctx L) : L ≠ [] := by
  rintro rfl
  cases h.names

theorem length_eq (h : s.Follows κ ctx L) : s.levels.length = L.length := by
  rw [← Scope.length_names, h.names, Locals.length_declared]

/-- What the checker finds at a level is found there. -/
theorem levelOf?_eq (h : s.Follows κ ctx L) {name : String} (hname : name ≠ "this") :
    s.levelOf? name = L.levelOf? name := by
  rw [Scope.levelOf?_eq_findIdx?, h.names, Locals.levelOf?_eq_findIdx? hname]

/-- What the checker can declare is new at the innermost level. -/
theorem fresh (h : s.Follows κ ctx L) {name : String} {ty : Ty}
    (hdefine : L.define? name ty = some L') : s.current.locals.lookup name = none := by
  obtain ⟨level, outer, rfl, hnew, -⟩ := Locals.define?_ok hdefine h.ne_nil
  obtain ⟨names, rest, hnames, hname⟩ := Locals.declared_cons ctx.this?.isSome hnew outer
  have hcurrent : (s.current.locals.lookup name).isSome = false :=
    (congrFun (List.cons.inj (h.names.trans hnames)).1 name).trans hname
  exact Option.isNone_iff_eq_none.mp (Option.isSome_eq_false_iff.mp hcurrent)

theorem push (h : s.Follows κ ctx L) : s.push.Follows κ ctx L.push where
  context := h.context
  names := by rw [names_push, Locals.declared_push h.ne_nil, h.names]
  self hself := (Locals.outermostHas_push h.ne_nil _).trans (h.self hself)

theorem keeps (hx : EvalM.KeepsNames x) (h : m.scope.Follows κ ctx L) (hok : x m = .ok a m') :
    m'.scope.Follows κ ctx L := by
  obtain ⟨hcontext, hnames⟩ := hx _ _ _ hok
  exact ⟨hcontext.trans h.context, hnames.trans h.names, h.self⟩

/-- A statement declares for the engine what it declares for the checker. -/
theorem exec [HostFunctions F] {eng : Engine F} {calls : Calls F} (hcalls : calls.ScopeKept)
    {st : Stmt} {flow : Flow F} (h : m.scope.Follows κ ctx L) (hL' : ctx.statement L st = .ok L')
    (hok : eng.exec calls st m = .ok flow m') : m'.scope.Follows κ ctx L' := by
  obtain ⟨hcontext, hnames⟩ := eng.declares_exec hcalls st _ _ _ hok
  cases hlocal : st.isLocal with
  | false =>
    obtain rfl := BodyContext.statement_of_isLocal hlocal hL'
    rw [Stmt.localName?_of_isLocal hlocal] at hnames
    exact ⟨hcontext.trans h.context, hnames.trans h.names, h.self⟩
  | true =>
    cases st with
    | localVariable ty name value span =>
      obtain ⟨lowered, -, -, hdefine⟩ := BodyContext.statement_local hL'
      refine ⟨hcontext.trans h.context, ?_, fun hself =>
        Locals.outermostHas_define hdefine h.ne_nil (h.self hself)⟩
      rw [hnames, h.names, Locals.declared_define hdefine h.ne_nil h.self]
      rfl
    | _ => cases hlocal

/-- An update of a loop that declares nothing. -/
theorem update [HostFunctions F] {eng : Engine F} {calls : Calls F} (hcalls : calls.ScopeKept)
    {u : Option Stmt} (hu : ∀ s ∈ u, s.isLocal = false) (h : m.scope.Follows κ ctx L)
    (hok : eng.execUpdate calls u m = .ok () m') : m'.scope.Follows κ ctx L := by
  cases u with
  | none =>
    cases hok
    exact h
  | some s =>
    have hkeeps := eng.declares_exec hcalls s
    rw [Stmt.localName?_of_isLocal (hu s rfl)] at hkeeps
    exact .keeps (hkeeps.bind fun _ => .pure _) h hok

end Scope.Follows

/-! ## Steps inside a body -/

/-- A loop whose update declares nothing checks its body with the locals around it. -/
theorem BodyContext.localsAt_round {ctx : BodyContext F} {L L' : Locals} {test : Expr}
    {body body' : List Stmt} {update : Option Stmt} {k : Nat}
    (hupdate : ∀ u ∈ update, u.isLocal = false)
    (h : ctx.localsAt L (.rounds test body update k) (.statements body') = .ok L') :
    L' = L.push := by
  cases update with
  | none =>
    cases h
    rfl
  | some u =>
    obtain ⟨L₁, hL₁, rfl⟩ := ok_of_map h
    rw [statement_of_isLocal (hupdate u rfl) hL₁]

/-- No loop in the parts of a body that an activity carries out declares a local in its update. -/
def Activity.PlainUpdates : Activity F → Prop
  | .statement s => s.plainUpdates = true
  | .statements ss => Stmt.plainUpdatesIn ss = true
  | .rounds _ body update _ =>
    Stmt.plainUpdatesIn body = true ∧ ∀ u ∈ update, u.isLocal = false ∧ u.plainUpdates = true
  | _ => True

section Steps

variable [HostFunctions F] {eng : Engine F} {M N : Moment F}

theorem Leads.plainUpdates (hstep : Leads eng M N) (hM : M.activity.isCode = true)
    (h : M.activity.PlainUpdates) : N.activity.PlainUpdates := by
  cases hstep with
  | @thenBranch span m m₁ n test m₂ body other _ _ =>
    change Stmt.plainUpdates _ = true at h
    cases other with
    | none => exact h
    | some elseBranch =>
      rw [Stmt.plainUpdates, Bool.and_eq_true] at h
      exact h.1
  | elseBranch _ _ =>
    change Stmt.plainUpdates _ = true at h
    rw [Stmt.plainUpdates, Bool.and_eq_true] at h
    exact h.2
  | whileRounds _ => exact ⟨h, fun _ hu => nomatch hu⟩
  | forInit _ =>
    change Stmt.plainUpdates _ = true at h
    simp only [Stmt.plainUpdates, Bool.and_eq_true] at h
    exact h.1.1.1
  | forRounds _ _ =>
    change Stmt.plainUpdates _ = true at h
    simp only [Stmt.plainUpdates, Bool.and_eq_true, Bool.not_eq_true'] at h
    obtain ⟨⟨⟨-, hlocal⟩, hupdate⟩, hbody⟩ := h
    refine ⟨hbody, fun u hu => ?_⟩
    cases hu
    exact ⟨hlocal, hupdate⟩
  | block _ => exact h
  | headStatement =>
    change Stmt.plainUpdatesIn _ = true at h
    rw [Stmt.plainUpdatesIn, Bool.and_eq_true] at h
    exact h.1
  | tailStatements _ =>
    change Stmt.plainUpdatesIn _ = true at h
    rw [Stmt.plainUpdatesIn, Bool.and_eq_true] at h
    exact h.2
  | round _ => exact h.1
  | update _ _ => exact (h.2 _ rfl).2
  | again _ _ _ => exact h
  | _ => first | (cases hM; done) | trivial

/-- Inside a body a scope keeps having the names of the checker. -/
theorem Leads.follows {κ : Context F} {ctx : BodyContext F} {L L' : Locals} (hstep : Leads eng M N)
    (hM : M.activity.isCode = true) (hN : N.activity.isCode = true)
    (hL' : ctx.localsAt L M.activity N.activity = .ok L') (h : M.machine.scope.Follows κ ctx L)
    (hplain : M.activity.PlainUpdates) : N.machine.scope.Follows κ ctx L' := by
  have hcalls := Calls.scopeKept_atDepth eng M.depth
  cases hstep with
  | first _ | headExpression | headStatement =>
    cases hL'
    exact h
  | right heval | thenValue heval | elseValue heval | callArguments heval | tailExpressions heval =>
    cases hL'
    exact .keeps (eng.keepsNames_eval hcalls _) h heval
  | newArguments hty | castValue hty | instanceValue hty =>
    cases hL'
    exact .keeps (eng.keepsNames_resolveType _) h hty
  | firstValue _ htell =>
    rw [BodyContext.localsAt_expression] at hL'
    cases hL'
    exact .keeps (eng.keepsNames_tellStatement _) h htell
  | initialValue htell hty =>
    cases hL'
    exact .keeps (eng.keepsNames_resolveType _)
      (.keeps (eng.keepsNames_tellStatement _) h htell) hty
  | fieldAssignValue htell heval =>
    cases hL'
    exact .keeps (eng.keepsNames_eval hcalls _)
      (.keeps (eng.keepsNames_tellStatement _) h htell) heval
  | thenBranch htell htest | elseBranch htell htest =>
    cases hL'
    exact (Scope.Follows.keeps (eng.keepsNames_condition hcalls _)
      (.keeps (eng.keepsNames_tellStatement _) h htell) htest).push
  | whileRounds htell =>
    cases hL'
    exact .keeps (eng.keepsNames_tellStatement _) h htell
  | forInit htell | block htell =>
    cases hL'
    exact (Scope.Follows.keeps (eng.keepsNames_tellStatement _) h htell).push
  | forRounds htell hinit =>
    exact .exec hcalls (Scope.Follows.keeps (eng.keepsNames_tellStatement _) h htell).push hL' hinit
  | tailStatements hexec => exact .exec hcalls h hL' hexec
  | test =>
    rw [BodyContext.localsAt_expression] at hL'
    cases hL'
    exact h
  | round htest =>
    obtain rfl := BodyContext.localsAt_round (fun u hu => (hplain.2 u hu).1) hL'
    exact (Scope.Follows.keeps (eng.keepsNames_condition hcalls _) h htest).push
  | update htest hbody =>
    cases hL'
    exact .keeps (eng.keepsOuter_execBlock hcalls _).nested
      (.keeps (eng.keepsNames_condition hcalls _) h htest) hbody
  | again htest hbody hupdate =>
    rw [BodyContext.localsAt_again] at hL'
    cases hL'
    have hround := Scope.Follows.keeps (eng.keepsOuter_execBlock hcalls _).nested
      (.keeps (eng.keepsNames_condition hcalls _) h htest) hbody
    exact .update hcalls (fun u hu => (hplain.2 u hu).1) hround hupdate
  | _ => first | (cases hM; done) | cases hN

end Steps

/-! ## Starts of bodies -/

namespace BodyContext

variable {ctx : BodyContext F}

/-- Parameters become names one after the other, and all are new. -/
theorem declared_of_defineParameters {self : Bool} : ∀ {ps : List Parameter} {L L' : Locals},
    ctx.defineParameters L ps = .ok L' → L ≠ [] →
    (self = true → L.outermostHas "this" = true) →
    L'.declared self = (ps.map fun q => q.name.name).foldl
        (fun names name => Scope.withName (some name) names) (L.declared self) ∧
      (self = true → L'.outermostHas "this" = true)
  | [], L, L', h, _, hself => by
    cases h
    exact ⟨rfl, hself⟩
  | q :: ps, L, L', h, hL, hself => by
    obtain ⟨ty, -, h⟩ := ok_of_bind h
    obtain ⟨L₁, hL₁, h⟩ := ok_of_bind h
    have hdefine := define_ok hL₁
    obtain ⟨level, outer, -, -, rfl⟩ := Locals.define?_ok hdefine hL
    obtain ⟨hdeclared, hself'⟩ := declared_of_defineParameters h (List.cons_ne_nil _ _)
      fun hs => Locals.outermostHas_define hdefine hL (hself hs)
    rw [List.map_cons, List.foldl_cons, ← Locals.declared_define hdefine hL hself]
    exact ⟨hdeclared, hself'⟩

/-- Parameters have different names, and none is among the locals of the level already. -/
theorem nodup_of_defineParameters : ∀ {ps : List Parameter} {level : List (String × Ty)}
    {outer L' : Locals}, ctx.defineParameters (level :: outer) ps = .ok L' →
    (ps.map fun q => q.name.name).Nodup ∧ ∀ q ∈ ps, level.lookup q.name.name = none
  | [], _, _, _, _ => ⟨List.nodup_nil, fun _ hq => nomatch hq⟩
  | q :: ps, level, outer, L', h => by
    obtain ⟨ty, -, h⟩ := ok_of_bind h
    obtain ⟨L₁, hL₁, h⟩ := ok_of_bind h
    obtain ⟨level', outer', heq, hnew, rfl⟩ :=
      Locals.define?_ok (define_ok hL₁) (List.cons_ne_nil _ _)
    cases heq
    obtain ⟨hnodup, hfresh⟩ := nodup_of_defineParameters h
    have hkeys : ∀ r ∈ ps, q.name.name ≠ r.name.name ∧ level.lookup r.name.name = none := by
      intro r hr
      have hnone := hfresh r hr
      rw [List.lookup_cons] at hnone
      split at hnone
      · cases hnone
      · next hne => exact ⟨fun heq => by simp [heq] at hne, hnone⟩
    refine ⟨List.nodup_cons.mpr ⟨fun hmem => ?_, hnodup⟩, List.forall_mem_cons.mpr
      ⟨hnew, fun r hr => (hkeys r hr).2⟩⟩
    obtain ⟨r, hr, heq⟩ := List.mem_map.mp hmem
    exact (hkeys r hr).1 heq.symm

/-- Before its parameters, a member has one level with nothing but `this`, if it is not static. -/
theorem firstLocals_eq (ctx : BodyContext F) :
    ∃ level, ctx.firstLocals = [level] ∧
      Locals.declared ctx.this?.isSome [level] = [fun _ => false] ∧
      (ctx.this?.isSome = true → Locals.outermostHas "this" [level] = true) := by
  unfold firstLocals
  cases ctx.this? with
  | none => exact ⟨_, rfl, congrArg ([·]) (funext fun _ => Bool.and_false _), fun h => nomatch h⟩
  | some this =>
    refine ⟨_, rfl, congrArg ([·]) (funext fun name => ?_), fun _ => rfl⟩
    rw [List.lookup_cons]
    cases name == "this" <;> rfl

end BodyContext

namespace Program.Opens

variable {p : Program} {t : ClassTable F} {member : Member F} {ctx : BodyContext F} {L : Locals}
  (h : p.Opens t member ctx L)

include h

theorem exists_parameters : ∃ qs, ctx.defineParameters ctx.firstLocals qs = .ok L ∧
    member.params = Member.writtenParams qs := by
  cases h with
  | method _ _ _ _ hL => exact ⟨_, BodyContext.initialLocals_eq _ _ ▸ hL, rfl⟩
  | constructor _ _ _ hL => exact ⟨_, BodyContext.initialLocals_eq _ _ ▸ hL, rfl⟩

/-- A body starts with the names of its parameters. -/
theorem declared : L.declared ctx.this?.isSome = (member.params.map Prod.fst).foldl
      (fun names name => Scope.withName (some name) names) [fun _ => false] ∧
    (ctx.this?.isSome = true → L.outermostHas "this" = true) := by
  obtain ⟨qs, hL, hparams⟩ := h.exists_parameters
  obtain ⟨level, hfirst, hdeclared, hself⟩ := ctx.firstLocals_eq
  rw [hfirst] at hL
  rw [hparams, Member.writtenParams, List.map_map, ← hdeclared]
  exact BodyContext.declared_of_defineParameters hL (List.cons_ne_nil _ _) hself

/-- The parameters of a member on which the checker starts have different names. -/
theorem nodup : (member.params.map Prod.fst).Nodup := by
  obtain ⟨qs, hL, hparams⟩ := h.exists_parameters
  obtain ⟨level, hfirst, -⟩ := ctx.firstLocals_eq
  rw [hfirst] at hL
  rw [hparams, Member.writtenParams, List.map_map]
  exact (BodyContext.nodup_of_defineParameters hL).1

end Program.Opens

/-- A body starts in a scope with the names of the checker. -/
theorem Moment.Enters.follows {N : Moment F} {s : Selected F (RuntimeClass F)} {κ : Context F}
    (h : N.Enters s κ) {p : Program} {t : ClassTable F} {ctx : BodyContext F} {L : Locals}
    (hopens : p.Opens t s.member ctx L)
    (hparams : s.signature.params.map Param.name = s.member.params.map Prod.fst) :
    N.machine.scope.Follows κ ctx L :=
  ⟨h.context, by rw [h.names, hparams, hopens.declared.1], hopens.declared.2⟩

end Middleweight
