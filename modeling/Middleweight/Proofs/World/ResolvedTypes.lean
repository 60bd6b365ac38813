import Middleweight.Proofs.World.FormedMembers
import Middleweight.Proofs.World.Walks

/-!
# Types in a run resolve as they lower

A run resolves written types on its own, through the parameters in scope, what the levels of the
scope have cached, and the imports. It gives the class of the type that the same written type lowers
to; and a bare name gives the static view of the class that it is imported as. What is cached makes
no difference, since it is valid at every moment.

A written type that lowers does resolve, since all parameters that a body sees stand for formed
types. Only while the parameters of a call are declared that fails at one of them this need not be
so: the call was given a class for an argument, which the checker does not accept, and its scope is
gone before any code runs in it.

* `Leads.formed`, `Reaches.formed` : the moments of a run are formed
* `types_resolve_as_lowered` : types and names at every moment of a run
* `class_argument_unresolved` : a type that lowers, and does not resolve in the scope of a call that
  fails at its parameters
-/

namespace Middleweight

variable {F : Type}

/-! ## Formed moments -/

/-- An operation that a host starts with formed values. -/
def HostOperation.Formed (t : ClassTable F) : HostOperation F → Prop
  | .callStatic _ _ args _ => ∀ v ∈ args, v.Formed t
  | .construct c args _ => t.Admits c ∧ ∀ v ∈ args, v.Formed t
  | _ => True

/-- What an activity is about is formed. -/
def Activity.Formed (t : ClassTable F) : Activity F → Prop
  | operation op => op.Formed t
  | call c this _ isStatic args argTypes _ => IsFormedCall t c this isStatic args argTypes
  | method s this args _ => IsFormedInvocation t s this args
  | construction c args argTypes _ => t.Admits c ∧ AreArguments t args argTypes
  | constructors o isStaticView layers args argTypes _ =>
    t.Admits o.cls ∧ (∀ layer rest, layers = layer :: rest → t.Admits ⟨isStaticView, layer, rest⟩) ∧
      AreArguments t args argTypes
  | constructor s o isStaticView rest args _ =>
    IsFormedInitialization t s o args ∧
      ∀ layer rest', rest = layer :: rest' → t.Admits ⟨isStaticView, layer, rest'⟩
  | parameters bindings params args _ =>
    (∀ q ∈ params, t.ArgumentType (q.ty.substitute bindings).resolved) ∧ ∀ v ∈ args, v.Formed t
  | host program _ => program.Formed t fun v => v.Formed t
  | _ => True

namespace Moment

/-- A formed machine with an activity of the same kind. -/
structure Formed (t : ClassTable F) (M : Moment F) : Prop where
  machine : M.machine.Formed t
  activity : M.activity.Formed t

/--
Whether the parameters that are left to declare at a moment all get declared. There are such
parameters only at the beginning of a call, before its body.
-/
def Declares [HostFunctions F] (eng : Engine F) (M : Moment F) : Prop :=
  ∀ bindings params args span, M.activity = .parameters bindings params args span →
    ∃ m, eng.bindParameters bindings span params args M.machine = .ok () m

end Moment

/-- Whether all parameters get declared is decided with each of them. -/
theorem Leads.declares [HostFunctions F] {eng : Engine F} {M N : Moment F} (hstep : Leads eng M N)
    (hN : N.Declares eng) : M.Declares eng := by
  cases hstep with
  | nextParameter hclass =>
    intro bindings params args span heq
    cases heq
    obtain ⟨m', hrest⟩ := hN _ _ _ _ rfl
    refine ⟨m', ?_⟩
    rw [Engine.bindParameters, EvalM.bind_congr_at hclass]
    exact hrest
  | _ =>
    intro _ _ _ _ heq
    cases heq

/-! ## One step -/

namespace Engine

variable {eng : Engine StandardFn} {calls : Calls StandardFn}

theorem forms_execUpdate (ht : eng.table.Complete) (hcalls : calls.Formed eng) (u : Option Stmt) :
    eng.Forms (eng.execUpdate calls u) fun _ => True := by
  cases u with
  | none => exact .pure trivial
  | some s => exact (forms_exec ht hcalls s).bind fun _ _ => .pure trivial

/-- A moment after a computation that ended well. -/
theorem Forms.formed {α : Type} {x : EvalM StandardFn α} {Q : α → Prop} (hx : eng.Forms x Q)
    {m m' : Machine StandardFn} (hm : m.Formed eng.table) {r : α} (h : x m = .ok r m') {n : Nat}
    {a : Activity StandardFn} (ha : Q r → a.Formed eng.table) :
    Moment.Formed eng.table ⟨n, a, m'⟩ :=
  ⟨(hx m m' r hm h).1, ha (hx m m' r hm h).2⟩

end Engine

section Methods

variable {eng : Engine StandardFn} {s : Selected StandardFn (RuntimeClass StandardFn)}
  {this : Value StandardFn} {args : List (Variable StandardFn)} {m m' : Machine StandardFn}
  {span : Span}

/-- A method whose parameters get declared starts in a formed machine. -/
theorem Machine.Formed.enterMethod (h : m.Formed eng.table)
    (hs : IsFormedInvocation eng.table s this args)
    (hok : eng.bindParameters (s.bindings.complete s.signature) span s.signature.params args
      (eng.enterMethod s this span m) = .ok () m') :
    (eng.enterMethod s this span m).Formed eng.table :=
  (h.pushFrame eng _).withScope
    (hs.scope (hs.binds_of_ok ((h.pushFrame eng _).remembers.invocation _ _) hok))

theorem Machine.Formed.enterConstructor (h : m.Formed eng.table) {o : ObjectRef StandardFn}
    (hs : IsFormedInitialization eng.table s o args) :
    (eng.enterConstructor s o span m).Formed eng.table :=
  (h.pushFrame eng _).withScope hs.scope

end Methods

variable {eng : Engine StandardFn} {p : Program}

/-- What a formed moment leads to is formed, if the parameters that it has to declare get declared. -/
theorem Leads.formed (h : ClassTable.build p .standard = .ok eng.table) {M N : Moment StandardFn}
    (hstep : Leads eng M N) (hM : M.Formed eng.table) (hN : N.Declares eng) :
    N.Formed eng.table := by
  have ht := ClassTable.complete_of_build h
  have hobject := ClassTable.formed_object h
  have hcalls := Calls.formed_atDepth h
  obtain ⟨hm, ha⟩ := hM
  cases hstep with
  -- Operations of a host
  | run => exact ⟨hm.pushFrame eng _, fun _ hv => absurd hv List.not_mem_nil⟩
  | callStatic _ hview =>
    exact (Engine.forms_staticView _ _).formed hm hview fun hshows => .ofView hshows ha
  | construct => exact ⟨hm, ha.1, .declared ha.2⟩
  -- Methods, whose scopes are formed because their parameters get declared
  | call hresolve => exact ⟨hm, ha.invocation h hresolve⟩
  | methodNative hbody => exact ⟨hm.pushFrame eng _, StandardFn.formed_perform (ha.hostCall _)⟩
  | methodParameters hbody =>
    obtain ⟨m', hok⟩ := hN _ _ _ _ rfl
    have hb := ha.binds_of_ok ((hm.pushFrame eng _).remembers.invocation _ _) hok
    exact ⟨hm.enterMethod ha hok, fun q hq => ha.selected.argumentType_param hb hq, ha.args⟩
  | methodBody hbody hbind =>
    exact (Engine.forms_methodParameters ha _).formed (hm.enterMethod ha hbind) hbind
      fun _ => trivial
  | nextParameter hclass =>
    obtain ⟨hq, hps⟩ := List.forall_mem_cons.mp ha.1
    obtain ⟨hv, hvs⟩ := List.forall_mem_cons.mp ha.2
    obtain ⟨hm₁, hc⟩ := Engine.forms_classOf hq _ _ _ _ hm hclass
    exact ⟨hm₁.withScope (hm₁.scope.define _ ⟨hc.1, hv.value⟩), hps, hvs⟩
  -- Constructors, which bind nothing by their arguments
  | construction hallocate =>
    refine (Engine.forms_allocate ht ha.1 _).formed hm hallocate fun ho =>
      ⟨ho ▸ ha.1, fun layer rest hlayers => ?_, ha.2⟩
    cases hlayers
    exact ha.1
  | constructor hresolve =>
    obtain ⟨ho, hlayers, hargs⟩ := ha
    have hc := hlayers _ _ rfl
    refine ⟨hm, hc.initialization ho hargs.formed hresolve, ?_⟩
    rintro layer rest' rfl
    exact hc.extends ht (.base rfl (.refl _))
  | defaultConstructor =>
    obtain ⟨ho, hlayers, -⟩ := ha
    refine ⟨hm, ho, ?_, .nil⟩
    rintro layer rest' rfl
    exact (hlayers _ _ rfl).extends ht (.base rfl (.refl _))
  | constructorNative hbody =>
    exact ⟨hm.pushFrame eng _, StandardFn.formed_perform (ha.1.hostCall _)⟩
  | constructorParameters hbody =>
    exact ⟨hm.enterConstructor ha.1, fun q hq => ha.1.argumentType_param hobject hq, ha.1.args⟩
  | superArguments hbody hrest hbind =>
    exact (Engine.forms_constructorParameters hobject ha.1 _).formed (hm.enterConstructor ha.1)
      hbind fun _ => trivial
  | baseConstructors hbody hrest hbind heval =>
    obtain ⟨hm₁, -⟩ := Engine.forms_constructorParameters hobject ha.1 _ _ _ _
      (hm.enterConstructor ha.1) hbind
    exact (Engine.forms_arguments ht (hcalls _) _).formed hm₁ heval fun hvs =>
      ⟨ha.1.object, ha.2, hvs⟩
  | derivedBody hbody hrest hbind heval hbase =>
    obtain ⟨hm₁, -⟩ := Engine.forms_constructorParameters hobject ha.1 _ _ _ _
      (hm.enterConstructor ha.1) hbind
    obtain ⟨hm₂, hvs⟩ := Engine.forms_arguments ht (hcalls _) _ _ _ _ hm₁ heval
    exact (Engine.forms_runConstructors h (hcalls _) ha.1.object _ ha.2 hvs).formed hm₂ hbase
      fun _ => trivial
  | rootBody hbody hbind =>
    exact (Engine.forms_constructorParameters hobject ha.1 _).formed (hm.enterConstructor ha.1)
      hbind fun _ => trivial
  -- Native functions
  | hostWrite hwrite =>
    cases ha with
    | write _ hnext => exact (Engine.forms_write _).formed hm hwrite fun _ => hnext
  | hostClass hclass =>
    cases ha with
    | classOf name hnext => exact (Engine.forms_named _ _).formed hm hclass fun hc => hnext _ hc
  | hostAllocate hallocate =>
    cases ha with
    | allocate hc hnext =>
      exact (Engine.forms_allocate ht hc _).formed hm hallocate fun ho => hnext _ ho
  | hostConstruct =>
    cases ha with
    | construct hc hargs hnext => exact ⟨hm, hc, .declared hargs⟩
  | hostConstructed hconstruct =>
    cases ha with
    | construct hc hargs hnext =>
      exact ((hcalls _).construct _ hc (.declared hargs)).formed hm hconstruct fun ho => hnext _ ho
  | hostRead =>
    cases ha with
    | getState o hnext =>
      refine ⟨hm, hnext _ fun x hx => ?_⟩
      obtain ⟨i, hi, hx⟩ := Option.bind_eq_some_iff.mp hx
      exact (hm.heap _ i hi).host x hx
  | hostKeep =>
    cases ha with
    | setState o hs hnext => exact ⟨hm.modifyObject _ fun i hi => hi.setHost hs, hnext⟩
  | hostDepth =>
    cases ha with
    | depth hnext => exact ⟨hm, hnext _⟩
  | staticField howner hread hlower hclass =>
    have hty := ClassTable.formed_of_lower hlower
    have harg : eng.table.ArgumentType (Ty.resolved _) :=
      .inl ((Ty.resolved_of_isGround hty.isGround).symm ▸ hty)
    refine (Engine.forms_classOf harg _).formed hm hclass fun _ => StandardFn.formed_perform
      ⟨fun o ho => ?_, fun _ hv => absurd hv List.not_mem_nil⟩
    cases ho
  -- Expressions
  | first => exact ⟨hm, trivial⟩
  | right heval | thenValue heval | elseValue heval | callArguments heval | tailExpressions heval
  | steppedStatic heval | fieldStatic heval =>
    exact (Engine.forms_eval ht (hcalls _) _).formed hm heval fun _ => trivial
  | newArguments hty | castValue hty | instanceValue hty =>
    exact (Engine.forms_resolveType _).formed hm hty fun _ => trivial
  | newObject hty heval =>
    obtain ⟨hm₁, hc⟩ := Engine.forms_resolveType _ _ _ _ hm hty
    exact (Engine.forms_arguments ht (hcalls _) _).formed hm₁ heval fun hvs => ⟨hc, hvs⟩
  | callMethod heval hargs htarget =>
    obtain ⟨hm₁, hr⟩ := Engine.forms_eval ht (hcalls _) _ _ _ _ hm heval
    obtain ⟨hm₂, hvs⟩ := Engine.forms_arguments ht (hcalls _) _ _ _ _ hm₁ hargs
    exact (Engine.forms_callTarget hr _ _).formed hm₂ htarget fun htarget =>
      .ofTarget hr htarget hvs
  | headExpression | headStatement | test => exact ⟨hm, trivial⟩
  -- Statements and loops
  | firstValue _ htell | whileRounds htell =>
    exact (Engine.forms_tellStatement _).formed hm htell fun _ => trivial
  | initialValue htell hty =>
    obtain ⟨hm₁, -⟩ := Engine.forms_tellStatement _ _ _ _ hm htell
    exact (Engine.forms_resolveType _).formed hm₁ hty fun _ => trivial
  | fieldAssignValue htell heval =>
    obtain ⟨hm₁, -⟩ := Engine.forms_tellStatement _ _ _ _ hm htell
    exact (Engine.forms_eval ht (hcalls _) _).formed hm₁ heval fun _ => trivial
  | thenBranch htell htest | elseBranch htell htest =>
    obtain ⟨hm₁, -⟩ := Engine.forms_tellStatement _ _ _ _ hm htell
    obtain ⟨hm₂, -⟩ := Engine.forms_condition ht (hcalls _) _ _ _ _ hm₁ htest
    exact ⟨hm₂.inner, trivial⟩
  | forInit htell | block htell =>
    obtain ⟨hm₁, -⟩ := Engine.forms_tellStatement _ _ _ _ hm htell
    exact ⟨hm₁.inner, trivial⟩
  | forRounds htell hinit =>
    obtain ⟨hm₁, -⟩ := Engine.forms_tellStatement _ _ _ _ hm htell
    exact (Engine.forms_exec ht (hcalls _) _).formed hm₁.inner hinit fun _ => trivial
  | tailStatements hexec =>
    exact (Engine.forms_exec ht (hcalls _) _).formed hm hexec fun _ => trivial
  | round htest =>
    obtain ⟨hm₁, -⟩ := Engine.forms_condition ht (hcalls _) _ _ _ _ hm htest
    exact ⟨hm₁.inner, trivial⟩
  | update htest hbody =>
    obtain ⟨hm₁, -⟩ := Engine.forms_condition ht (hcalls _) _ _ _ _ hm htest
    exact (Engine.Forms.nested (Engine.forms_execBlock ht (hcalls _) _)).formed hm₁ hbody
      fun _ => trivial
  | again htest hbody hupdate =>
    obtain ⟨hm₁, -⟩ := Engine.forms_condition ht (hcalls _) _ _ _ _ hm htest
    obtain ⟨hm₂, -⟩ :=
      Engine.Forms.nested (Engine.forms_execBlock ht (hcalls _) _) _ _ _ hm₁ hbody
    exact (Engine.forms_execUpdate ht (hcalls _) _).formed hm₂ hupdate fun _ => trivial

/-- What a formed moment reaches is formed, if the parameters left to declare there get declared. -/
theorem Reaches.formed (h : ClassTable.build p .standard = .ok eng.table) {M N : Moment StandardFn}
    (hreach : Reaches eng M N) (hM : M.Formed eng.table) (hN : N.Declares eng) :
    N.Formed eng.table := by
  induction hreach with
  | refl => exact hM
  | tail _ hstep ih => exact hstep.formed h (ih (hstep.declares hN)) hN

/-! ## Types and names in a run -/

/-- A computation ends well in a machine, with this result. -/
def EvalM.EndsWith {α : Type} (x : EvalM F α) (m : Machine F) (a : α) : Prop := ∃ m', x m = .ok a m'

/-- A machine with the same parameters in scope as another one, whatever its valid memories are. -/
structure Machine.SeesAs (t : ClassTable F) (m₀ m : Machine F) : Prop where
  remembers : m.Remembers t
  typeParams : m.scope.typeParams = m₀.scope.typeParams

namespace Engine

variable {F : Type} {eng : Engine F} {m : Machine F}

theorem endsWith_resolveType_iff (hm : m.Remembers eng.table) {e : TypeExpr} {c : RuntimeClass F} :
    (eng.resolveType e).EndsWith m c ↔ eng.table.meaning m.scope.typeParams e = .ok c := by
  obtain ⟨r, k, -, -, heq⟩ := resolveType_eq e hm
  unfold EvalM.EndsWith
  rw [heq]
  cases eng.table.meaning m.scope.typeParams e with
  | error err => exact ⟨fun ⟨_, h⟩ => (nomatch h), fun h => nomatch h⟩
  | ok d =>
    refine ⟨fun ⟨_, h⟩ => ?_, fun h => ?_⟩
    · cases h
      rfl
    · cases h
      exact ⟨_, rfl⟩

theorem endsWith_classOf (hm : m.Remembers eng.table) {ty : Ty} {span : Span} {c : RuntimeClass F}
    (h : eng.table.classFor ty span = .ok c) : (eng.classOf ty span).EndsWith m c := by
  obtain ⟨r, -, heq⟩ := classOf_eq hm ty span
  rw [h] at heq
  exact ⟨_, heq⟩

theorem endsWith_staticView (hm : m.Remembers eng.table) {name : String} {c : RuntimeClass F}
    (h : eng.table.Views name c) (span : Span) : (eng.staticView name span).EndsWith m c := by
  obtain ⟨r, -, heq⟩ := staticView_eq hm name span
  rw [h.viewFor_eq] at heq
  exact ⟨_, heq⟩

theorem endsWith_staticClass (hm : m.Remembers eng.table) {name : String} {span : Span}
    {c : Option (RuntimeClass F)} (h : eng.table.namedView name span = .ok c) :
    (eng.staticClass name span).EndsWith m c := by
  obtain ⟨r, k, -, -, heq⟩ := staticClass_eq hm name span
  rw [h] at heq
  exact ⟨_, heq⟩

end Engine

/-- Every name that is imported stands for a class with a static view. -/
theorem ClassTable.exists_views_of_resolve? {t : ClassTable StandardFn}
    (h : ClassTable.build p .standard = .ok t) {name full : String}
    (hfull : t.imports.resolve? name = some full) : ∃ c, t.Views full c := by
  obtain ⟨n, hn⟩ := arity?_of_resolve? h hfull
  obtain ⟨tm, htm, -⟩ := get?_of_arity? hn
  obtain ⟨k, hclimbs⟩ := climbs_of_build h htm
  exact hclimbs.exists_views

/--
At every moment of a run all that is remembered is valid. A written type that lowers under the
parameters in scope resolves, whatever is cached, to the class of the type that it lowers to. A bare
name gives, whatever is cached, the static view of the class that it is imported as, or nothing if
it is not imported.

In the scope of a call, while its parameters are declared and one of them fails, a type that lowers
need not resolve, and no code runs there. If a type does resolve in such a scope, it has the class of
the lowered type there, too.
-/
theorem types_resolve_as_lowered (hserves : eng.Serves p) {M : Moment StandardFn}
    (hreach : Reaches eng (.first eng) M) :
    M.machine.Remembers eng.table ∧
    (∀ e ty, eng.table.lower M.machine.scope.typeParams e = .ok ty →
      (M.Declares eng → ∃ c, ∀ m, M.machine.SeesAs eng.table m → (eng.resolveType e).EndsWith m c) ∧
      ∀ m c, M.machine.SeesAs eng.table m → (eng.resolveType e).EndsWith m c →
        c.asTy = ty.resolved ∧
        ∀ m' span, m'.Remembers eng.table → (eng.classOf ty span).EndsWith m' c) ∧
    ∀ name span, match eng.table.imports.resolve? name with
      | none => ∀ m, m.Remembers eng.table → (eng.staticClass name span).EndsWith m none
      | some full => ∃ c, ∀ m, m.Remembers eng.table →
        (eng.staticClass name span).EndsWith m (some c) ∧ (eng.staticView full span).EndsWith m c := by
  have h := hserves.build
  obtain ⟨W, hvalid, -⟩ := hreach.valid h (Moment.sound_first hserves).1
  refine ⟨hvalid.remembers, fun e ty hlower => ⟨fun hM => ?_, fun m c hm hc => ?_⟩,
    fun name span => ?_⟩
  · have hfirst : (Moment.first eng).Formed eng.table := ⟨.fresh, trivial⟩
    have hformed := (hreach.formed h hfirst hM).machine.scope.typeParams
    obtain ⟨c, hc⟩ := (ClassTable.complete_of_build h).exists_meaning hformed hlower
    refine ⟨c, fun m hm => (Engine.endsWith_resolveType_iff hm.remembers).mpr ?_⟩
    rw [hm.typeParams]
    exact hc
  · rw [Engine.endsWith_resolveType_iff hm.remembers, hm.typeParams] at hc
    have hfor := ClassTable.classFor_of_meaning hlower hc
    exact ⟨(ClassTable.classFor_ok (hfor {})).2.symm,
      fun m' span hm' => Engine.endsWith_classOf hm' (hfor span)⟩
  · split
    · next hnone =>
      refine fun m hm => Engine.endsWith_staticClass hm ?_
      rw [ClassTable.namedView, hnone]
    · next full hfull =>
      obtain ⟨c, hview⟩ := ClassTable.exists_views_of_resolve? h hfull
      refine ⟨c, fun m hm =>
        ⟨Engine.endsWith_staticClass hm ?_, Engine.endsWith_staticView hm hview span⟩⟩
      rw [ClassTable.namedView, hfull]
      dsimp only
      rw [hview.viewFor_eq span]
      rfl

open Build in
/-- A generic method that puts what it is called with into a crate. -/
def packProgram : Program :=
  program
    [{ name := ident "Crate", generics := [ident "T"], fields := [field "T" "held"],
       constructors := [constructor [param "T" "x"] [assign "held" (var "x")]] },
     { name := ident "Main",
       methods :=
         [{ staticMethod "pack" (some "Crate<U>") [param "U" "x"]
              [localVariable "Crate<U>" "c" (some (new "Crate<U>" [var "x"])),
               returns (some (var "c"))] with
            generics := [ident "U"] },
          mainMethod [expr (call (var "Main") "pack" [string "a"])]] }]

/-- Whether a body goes on in a scope that has cached the class of crates of strings. -/
def Visit.goesOnPacked (eng : Engine StandardFn) (v : Visit StandardFn) : Bool :=
  match v.moment.activity with
  | .statements _ =>
    (v.moment.machine.scope.cached "Crate" (.args [.named Ty.stringName])).isSome &&
      (eng.table.lower v.moment.machine.scope.typeParams (Build.ty "Crate<U>")).toBool
  | _ => false

theorem types_resolve_as_lowered_pack : ∃ p' eng M ty c,
    packProgram.analyse .standard = .ok p' ∧ Engine.new p' .standard = .ok eng ∧
    Reaches eng (.first eng) M ∧ M.machine.Remembers eng.table ∧
    (M.machine.scope.cached "Crate" (.args [.named Ty.stringName])).isSome = true ∧
    eng.table.lower M.machine.scope.typeParams (Build.ty "Crate<U>") = .ok ty ∧
    (eng.resolveType (Build.ty "Crate<U>")).EndsWith M.machine c ∧
    (eng.classOf ty {}).EndsWith M.machine c ∧
    (eng.classOf ty {}).EndsWith {} c := by
  have hvisits : packProgram.visits [0, 0, 0, 0, 0, 0, 2, 0, 0, 1] Visit.goesOnPacked = true := by
    decide +kernel
  obtain ⟨p', t, eng, v, hanalyse, -, hnew, hv, htest⟩ := Program.visits_ok hvisits
  unfold Visit.goesOnPacked at htest
  split at htest
  · next ss hactivity =>
    rw [Bool.and_eq_true] at htest
    obtain ⟨hcached, hlowers⟩ := htest
    obtain ⟨ty, hlower⟩ := exists_ok_of_toBool hlowers
    obtain ⟨hmemory, htypes, -⟩ := types_resolve_as_lowered ⟨eng, hnew, rfl⟩ hv.reaches
    obtain ⟨hresolves, hagrees⟩ := htypes _ _ hlower
    have hdeclares : v.moment.Declares eng := fun _ _ _ _ heq => by cases hactivity.symm.trans heq
    obtain ⟨c, hc⟩ := hresolves hdeclares
    have hhere := hc v.moment.machine ⟨hmemory, rfl⟩
    have hclass := (hagrees _ c ⟨hmemory, rfl⟩ hhere).2
    exact ⟨p', eng, v.moment, ty, c, hanalyse, hnew, hv.reaches, hmemory, hcached, hlower, hhere,
      hclass _ {} hmemory, hclass {} {} Machine.Formed.fresh.remembers⟩
  · cases htest

open Build in
/-- A generic method that is called with a class for an argument, and not with an object of it. -/
def classArgumentProgram : Program :=
  program
    [{ name := ident "Box", generics := [ident "E"] },
     { name := ident "Main",
       methods :=
         [{ staticMethod "f" none [param "T" "x"] [] with generics := [ident "T"] },
          mainMethod [expr (call (var "Main") "f" [var "Box"])]] }]

/-- The type error that a computation stops with. -/
def EvalM.typeError? {α : Type} (x : EvalM F α) (m : Machine F) : Option TypeError :=
  match x m with
  | .error (.error ⟨.type e, _, _⟩) _ => some e
  | _ => none

theorem EvalM.typeError?_eq_some {α : Type} {x : EvalM F α} {m : Machine F} {te : TypeError}
    (h : x.typeError? m = some te) :
    ∃ e m', x m = .error (.error e) m' ∧ e.fault = .type te := by
  unfold typeError? at h
  split at h
  · next location stack m' hx =>
    cases h
    exact ⟨_, m', hx, rfl⟩
  · cases h

/-- Whether `T` lowers in the scope of a moment, and does not resolve, for want of an argument. -/
def Visit.leavesUnresolved (eng : Engine StandardFn) (v : Visit StandardFn) : Bool :=
  (eng.table.lower v.moment.machine.scope.typeParams (Build.ty "T")).toBool &&
    (eng.resolveType (Build.ty "T")).typeError? v.moment.machine ==
      some (.genericArity "Box" 1 0 {})

/--
The scope of a call in which `T` is bound to a class `Box` without its argument, before the parameter
of type `T` is declared: there `T` lowers, and it does not resolve.
-/
theorem class_argument_unresolved : ∃ eng M ty e m,
    Engine.new classArgumentProgram .standard = .ok eng ∧ Reaches eng (.first eng) M ∧
    eng.table.lower M.machine.scope.typeParams (Build.ty "T") = .ok ty ∧
    eng.resolveType (Build.ty "T") M.machine = .error (.error e) m ∧
    e.fault = .type (.genericArity "Box" 1 0 {}) := by
  have htest : (Engine.new classArgumentProgram .standard).toOption.any (fun eng =>
      (Visit.along eng eng.table ⟨.first eng, none⟩ [0, 0, 0, 0, 0, 0, 2, 0, 1]).any
        (Visit.leavesUnresolved eng)) = true := by
    decide +kernel
  obtain ⟨eng, hnew, htest⟩ := (Option.any_eq_true _ _).mp htest
  obtain ⟨v, hv, htest⟩ := (Option.any_eq_true _ _).mp htest
  obtain ⟨hlowers, hfails⟩ := Bool.and_eq_true_iff.mp htest
  obtain ⟨ty, hlower⟩ := exists_ok_of_toBool hlowers
  obtain ⟨e, m, hresolve, hfault⟩ := EvalM.typeError?_eq_some (beq_iff_eq.mp hfails)
  exact ⟨eng, v.moment, ty, e, m, ok_of_toOption hnew, Visit.reaches_of_along hv, hlower, hresolve,
    hfault⟩

end Middleweight
