import Middleweight.Engine.Basic
import Middleweight.Proofs.Engine.EvalAgreement
import Middleweight.Proofs.Members.Selection

/-!
# Runs agree

Statements of one shape whose types mean matching classes run alike, and therefore so do the bodies
of matching members. Calls agree at every depth, by induction on the depth: a body runs with the
calls of the depth below.

* `EnginePair.agree_exec` : statements
* `EnginePair.agree_dispatch`, `EnginePair.agree_construct` : calls and constructions
* `EnginePair.agree_runWithin` : whole runs
-/

namespace Middleweight

variable {F : Type}

/-! ## Runs with a budget -/

namespace Engine

variable [HostFunctions F] (eng : Engine F)

/-- Calls a static method of a class by their names, with some budget. -/
def callStaticWithin (n : Nat) (className method : String) (args : List (Variable F))
    (span : Span) : EvalM F (Option (Variable F)) :=
  match eng.table.imports.resolve? className with
  | none => eng.raise (.type (.unknownType className span)) span
  | some full => do
    let view ← eng.staticView full span
    (Calls.atDepth eng n).dispatch view .null method true args (declaredTypes args) span

/-- Runs the main method of the program with some budget. -/
def runWithin (n : Nat) : EvalM F Unit :=
  eng.withFrame ⟨"Global", eng.location {}⟩ do
    match eng.entry with
    | none => eng.raise (.noSuchMember ⟨eng.source, "main", []⟩) {}
    | some entry => do
      let _ ← eng.callStaticWithin n entry "main" [] {}
      eng.flush

theorem run_eq_runWithin : eng.run = eng.runWithin eng.budget := rfl

omit [HostFunctions F] in
/-- An engine is made with one budget, whatever the program is. -/
theorem budget_of_new {p : Program} {natives : NativeRegistry F} {eng : Engine F}
    (h : Engine.new p natives = .ok eng) : eng.budget = callBudget := by
  unfold Engine.new at h
  split at h
  · cases h
  · cases h
    rfl

end Engine

theorem Calls.rounds_atDepth [HostFunctions F] (eng : Engine F) (n : Nat) :
    (Calls.atDepth eng n).rounds = n := by
  cases n <;> rfl

namespace EnginePair

variable {P : EnginePair F} {W : Pairing} {g : List String}

/-- Ways to end a statement that correspond. -/
inductive Flows (P : EnginePair F) (W : Pairing) : Flow F → Flow F → Prop
  | normal : Flows P W .normal .normal
  | returned {v v' : Option (Variable F)} :
      Option.Rel (P.Variables W) v v' → Flows P W (.returned v) (.returned v')

/-! ## Scopes of invocations -/

theorem agree_bindParameters (bindings : Bindings) (span : Span) : ∀ (ps : List Param)
    {W : Pairing} {vs vs' : List (Variable F)}, List.Forall₂ (P.Variables W) vs vs' →
    P.Agree W g Same (P.left.bindParameters bindings span ps vs)
      (P.right.bindParameters bindings span ps vs')
  | [], W, _, _, _ => Agree.pure rfl
  | _ :: _, W, _, _, .nil => Agree.pure rfl
  | p :: ps, W, _, _, .cons hv hvs => by
    unfold Engine.bindParameters
    refine Agree.bind (agree_classOf _ span) fun V hV c c' hc => ?_
    have hparam : P.Variables V ⟨c, _⟩ ⟨c', _⟩ := ⟨hc, hv.value.mono hV⟩
    refine Agree.bind (agree_define p.name hparam) fun U hU _ _ _ => ?_
    exact agree_bindParameters bindings span ps (variables_mono (le_trans hV hU) hvs)

theorem contexts_bodyContext {c c' : RuntimeClass F} (hc : P.Classes c c') {v v' : Value F}
    (hv : P.Values W v v') :
    P.Contexts W (Engine.bodyContext c v) (Engine.bodyContext c' v') := by
  cases hv with
  | object ho => exact .instance ho hc
  | _ => exact .static hc

theorem scopes_invocation {c c' : Context F} (hc : P.Contexts W c c') (generics : TypeParams) :
    P.Scopes W (Scope.invocation c generics) (Scope.invocation c' generics) :=
  ⟨hc, .cons ⟨.nil, rfl, .empty, .empty⟩ .nil⟩

/-- The parameters bound for an invocation are those of the method. -/
theorem within_boundGenerics (s : Signature) (b : Bindings) :
    (s.boundGenerics b).Within s.generics := by
  rw [TypeParams.within_iff]
  intro e he
  obtain ⟨n, hn, rfl⟩ := List.mem_map.mp (List.mem_reverse.mp he)
  exact hn

/-- A body sees the parameters of its method, and on an instance those of its class. -/
theorem within_invocation {context : Context F} {generics : TypeParams} {g : List String}
    (hgenerics : generics.Within g) (hcontext : context.typeParams.Within g) :
    (Scope.invocation context generics).typeParams.Within g := by
  rw [TypeParams.within_iff] at hgenerics hcontext ⊢
  intro e he
  rcases List.mem_append.mp he with he | he
  · refine hgenerics e ?_
    simpa [Scope.invocation, Scope.levels] using he
  · exact hcontext e he

theorem allRetyped_getD {R : TypeExpr → TypeExpr → Prop} {s s' : Option (List Expr)}
    (h : Option.Rel (Expr.AllRetyped R) s s') : Expr.AllRetyped R (s.getD []) (s'.getD []) := by
  cases h with
  | none => exact .nil
  | some hes => exact hes

/-! ## Statements -/

/-- Loops whose tests, bodies and updates agree go round alike. -/
theorem agree_rounds {test test' : EvalM F Bool} {body body' : EvalM F (Flow F)}
    {update update' : EvalM F Unit} (htest : ∀ {W}, P.Agree W g Same test test')
    (hbody : ∀ {W}, P.Agree W g P.Flows body body')
    (hupdate : ∀ {W}, P.Agree W g Same update update') {n n' : Nat} (hn : P.Budgets n n') :
    ∀ {W : Pairing}, P.Agree W g P.Flows (Engine.rounds test body update n)
      (Engine.rounds test' body' update' n') := by
  induction hn using Budgets.induction with
  | left hearly n' _ => exact Agree.left hearly _
  | right hearly n _ => exact Agree.right hearly _
  | both _ => exact Agree.exhausted
  | step n n' _ _ ih =>
    intro W
    unfold Engine.rounds
    refine Agree.bind htest fun V _ b b' hb => ?_
    cases hb
    cases b with
    | false => exact Agree.pure .normal
    | true =>
      refine Agree.bind hbody fun U _ f f' hf => ?_
      cases hf with
      | returned hv => exact Agree.pure (.returned hv)
      | normal => exact Agree.bind hupdate fun _ _ _ _ _ => ih

variable [HostFunctions F] {calls calls' : Calls F}

section Parts

variable (hhost : P.HostRespects) (hcalls : P.CallsAgree calls calls')

include hhost hcalls

theorem agree_conditionValue {e e' : Expr} (he : e.Retyped (P.SameMeaning g) e') :
    P.Agree W g Same (P.left.condition calls e) (P.right.condition calls' e') := by
  refine Agree.bind (agree_eval hhost hcalls he) fun V _ x x' hx => ?_
  obtain ⟨c, v⟩ := x
  obtain ⟨c', v'⟩ := x'
  have hv : P.Values V v v' := hx.value
  have hother : P.Agree V g Same (P.left.invalid (.condition v) e.span : EvalM F Bool)
      (P.right.invalid (.condition v') e'.span) := by
    rw [he.span_eq]
    exact agree_condition hv e.span
  cases hv with
  | bool b => exact Agree.pure rfl
  | _ => exact hother

theorem agree_initialValue {c c' : RuntimeClass F} (hc : P.Classes c c') {e e' : Option Expr}
    (he : Option.Rel (Expr.Retyped (P.SameMeaning g)) e e') :
    P.Agree W g P.Values (P.left.initialValue calls c e) (P.right.initialValue calls' c' e') := by
  cases he with
  | none => exact Agree.pure (Values.defaultFor hc)
  | some he => exact Agree.bind (agree_eval hhost hcalls he) fun V _ v v' hv => Agree.pure hv.value

theorem agree_assignName (target : Identifier) (op : AssignOp) {e e' : Expr}
    (he : e.Retyped (P.SameMeaning g) e') (span : Span) :
    P.Agree W g Same (P.left.assignName calls target op e span)
      (P.right.assignName calls' target op e' span) := by
  refine Agree.bind (agree_eval hhost hcalls he) fun V _ v v' hv => ?_
  have hnow : P.Agree V g P.Values (do return (← P.left.lookup target).value)
      (do return (← P.right.lookup target).value) :=
    Agree.bind (agree_lookup target) fun _ _ x x' hx => Agree.pure hx.value
  exact Agree.bind (agree_combine op hnow hv.value span) fun _ _ x x' hx => agree_store target hx

theorem agree_assignField {r r' : Expr} (hr : r.Retyped (P.SameMeaning g) r')
    (field : Identifier) (op : AssignOp) {e e' : Expr} (he : e.Retyped (P.SameMeaning g) e')
    (span : Span) :
    P.Agree W g Same (P.left.assignField calls r field op e span)
      (P.right.assignField calls' r' field op e' span) := by
  refine Agree.bind (agree_eval hhost hcalls hr) fun V _ x x' hx => ?_
  refine Agree.bind (agree_eval hhost hcalls he) fun U hU v v' hv => ?_
  exact agree_storeField (hx.value.mono hU) field op hv.value span

theorem agree_returnValue {e e' : Option Expr}
    (he : Option.Rel (Expr.Retyped (P.SameMeaning g)) e e') :
    P.Agree W g (fun V => Option.Rel (P.Variables V)) (P.left.returnValue calls e)
      (P.right.returnValue calls' e') := by
  cases he with
  | none => exact Agree.pure .none
  | some he => exact Agree.bind (agree_eval hhost hcalls he) fun V _ v v' hv => Agree.pure (.some hv)

end Parts

mutual

/-- Statements whose types mean matching classes run alike. -/
theorem agree_exec (hhost : P.HostRespects) (hcalls : P.CallsAgree calls calls') :
    ∀ {s s' : Stmt} {W : Pairing}, s.Retyped (P.SameMeaning g) s' →
    P.Agree W g P.Flows (P.left.exec calls s) (P.right.exec calls' s')
  | _, _, W, .localVariable name span hty hv => by
    rw [Engine.exec, Engine.exec]
    refine Agree.bind (agree_tellStatement span) fun _ _ _ _ _ => ?_
    refine Agree.bind (agree_resolveType hty) fun V _ c c' hc => ?_
    refine Agree.bind (agree_initialValue hhost hcalls hc hv) fun U _ v v' hv => ?_
    exact Agree.bind (agree_define name.name ⟨hc, hv⟩) fun _ _ _ _ _ => Agree.pure .normal
  | _, _, W, .assign target op span he => by
    rw [Engine.exec, Engine.exec]
    refine Agree.bind (agree_tellStatement span) fun _ _ _ _ _ => ?_
    exact Agree.bind (agree_assignName hhost hcalls target op he span)
      fun _ _ _ _ _ => Agree.pure .normal
  | _, _, W, .fieldAssign field op span hr he => by
    rw [Engine.exec, Engine.exec]
    refine Agree.bind (agree_tellStatement span) fun _ _ _ _ _ => ?_
    exact Agree.bind (agree_assignField hhost hcalls hr field op he span)
      fun _ _ _ _ _ => Agree.pure .normal
  | _, _, W, .expression span he => by
    rw [Engine.exec, Engine.exec]
    refine Agree.bind (agree_tellStatement span) fun _ _ _ _ _ => ?_
    exact Agree.bind (agree_eval hhost hcalls he) fun _ _ _ _ _ => Agree.pure .normal
  | _, _, W, .ifThen span hc ha => by
    rw [Engine.exec, Engine.exec]
    refine Agree.bind (agree_tellStatement span) fun _ _ _ _ _ => ?_
    refine Agree.bind (agree_conditionValue hhost hcalls hc) fun V _ b b' hb => ?_
    cases hb
    cases b with
    | true => exact Agree.nested (agree_execBlock hhost hcalls ha)
    | false => exact Agree.pure .normal
  | _, _, W, .ifElse span hc ha hb => by
    rw [Engine.exec, Engine.exec]
    refine Agree.bind (agree_tellStatement span) fun _ _ _ _ _ => ?_
    refine Agree.bind (agree_conditionValue hhost hcalls hc) fun V _ b b' hbool => ?_
    cases hbool
    cases b with
    | true => exact Agree.nested (agree_execBlock hhost hcalls ha)
    | false => exact Agree.nested (agree_execBlock hhost hcalls hb)
  | _, _, W, .whileLoop span hc hb => by
    rw [Engine.exec, Engine.exec]
    refine Agree.bind (agree_tellStatement span) fun _ _ _ _ _ => ?_
    exact agree_rounds (agree_conditionValue hhost hcalls hc)
      (Agree.nested (agree_execBlock hhost hcalls hb)) (Agree.pure rfl) hcalls.rounds
  | _, _, W, .forLoop span hi hc hu hb => by
    rw [Engine.exec, Engine.exec]
    refine Agree.bind (agree_tellStatement span) fun _ _ _ _ _ => Agree.nested ?_
    refine Agree.bind (agree_exec hhost hcalls hi) fun _ _ _ _ _ => ?_
    exact agree_rounds (agree_conditionValue hhost hcalls hc)
      (Agree.nested (agree_execBlock hhost hcalls hb))
      (Agree.bind (agree_exec hhost hcalls hu) fun _ _ _ _ _ => Agree.pure rfl) hcalls.rounds
  | _, _, W, .returns span hv => by
    rw [Engine.exec, Engine.exec]
    refine Agree.bind (agree_tellStatement span) fun _ _ _ _ _ => ?_
    exact Agree.bind (agree_returnValue hhost hcalls hv) fun _ _ v v' hv => Agree.pure (.returned hv)
  | _, _, W, .block span hb => by
    rw [Engine.exec, Engine.exec]
    refine Agree.bind (agree_tellStatement span) fun _ _ _ _ _ => ?_
    exact Agree.nested (agree_execBlock hhost hcalls hb)

theorem agree_execBlock (hhost : P.HostRespects) (hcalls : P.CallsAgree calls calls') :
    ∀ {ss ss' : List Stmt} {W : Pairing}, Stmt.AllRetyped (P.SameMeaning g) ss ss' →
    P.Agree W g P.Flows (P.left.execBlock calls ss) (P.right.execBlock calls' ss')
  | _, _, W, .nil => by
    rw [Engine.execBlock, Engine.execBlock]
    exact Agree.pure .normal
  | _, _, W, .cons hs hrest => by
    rw [Engine.execBlock, Engine.execBlock]
    refine Agree.bind (agree_exec hhost hcalls hs) fun V _ f f' hf => ?_
    cases hf with
    | returned hv => exact Agree.pure (.returned hv)
    | normal => exact agree_execBlock hhost hcalls hrest

end

/-! ## Bodies of members -/

/-- Bodies that run alike under some parameters: one native function, or statements of one shape. -/
inductive BodiesRetyped (P : EnginePair F) (g : List String) : MemberBody F → MemberBody F → Prop
  | native (f : F) : BodiesRetyped P g (.native f) (.native f)
  | declared {b b' : List Stmt} {s s' : Option (List Expr)} :
      Stmt.AllRetyped (P.SameMeaning g) b b' →
      Option.Rel (Expr.AllRetyped (P.SameMeaning g)) s s' →
      BodiesRetyped P g (.declared b s) (.declared b' s')

/-- Matching members have bodies that run alike. -/
def BodiesRun (P : EnginePair F) : Prop :=
  ∀ g b b', P.bodies g b b' → P.BodiesRetyped g b b'

/-- Chosen members that match as members of their owners, with one signature. -/
structure Selections (P : EnginePair F) (s s' : Selected F (RuntimeClass F)) : Prop where
  owner : P.Classes s.owner s'.owner
  member : Member.Matches P.left.table.lowering P.bodies s.owner.own.template.generics s.member
    s'.member
  signature : s'.signature = s.signature
  bindings : s'.bindings = s.bindings

section Calls

variable (hhost : P.HostRespects) (hbodies : P.BodiesRun) (hcalls : P.CallsAgree calls calls')

include hhost hbodies hcalls

theorem agree_methodValue {s s' : Selected F (RuntimeClass F)} (hs : P.Selections s s')
    (hgenerics : s.signature.generics = s.member.generics) (bindings : Bindings)
    {this this' : Value F} (hthis : P.Values W this this')
    (hstatic : s.member.isStatic = true → this = .null) {args args' : List (Variable F)}
    (hargs : List.Forall₂ (P.Variables W) args args') (span : Span) :
    P.Agree W g (fun V => Option.Rel (P.Values V))
      (P.left.methodValue calls s bindings this args span)
      (P.right.methodValue calls' s' bindings this' args' span) := by
  have hbody := hbodies _ _ _ hs.member.body
  unfold Engine.methodValue
  rw [hs.signature]
  generalize s.member.body = b, s'.member.body = b' at hbody
  cases hbody with
  | native f =>
    have hcall : P.HostCalls W ⟨s.owner, this, args, span⟩ ⟨s'.owner, this', args', span⟩ :=
      ⟨hs.owner, hthis, hargs, rfl⟩
    exact Agree.bind (agree_callHost hhost hcalls f hcall) fun _ _ v v' hv => Agree.pure (.some hv)
  | declared hb _ =>
    have hscopes := scopes_invocation (contexts_bodyContext hs.owner hthis)
      (s.signature.boundGenerics bindings)
    refine Agree.withScope hscopes
      (show TypeParams.Within _ (s.member.visible s.owner.own.template.generics) from
        within_invocation ?_ ?_) ?_
    · refine (within_boundGenerics s.signature bindings).mono fun n hn => ?_
      rw [hgenerics] at hn
      exact List.mem_append_right _ hn
    · cases hthis with
      | object ho =>
        have hinstance : s.member.isStatic = false :=
          Bool.eq_false_iff.mpr fun h => nomatch hstatic h
        refine hs.owner.own.within.mono fun n hn => List.mem_append_left _ ?_
        rw [hinstance]
        exact hn
      | _ => exact TypeParams.Within.nil
    · refine Agree.bind (agree_bindParameters bindings span _ hargs) fun V hV _ _ _ => ?_
      refine Agree.bind (agree_execBlock hhost hcalls hb) fun U _ f f' hf => ?_
      cases hf with
      | normal => exact Agree.pure .none
      | returned hv =>
        refine Agree.pure ?_
        cases hv with
        | none => exact .none
        | some hv => exact .some hv.value

theorem agree_invoke {s s' : Selected F (RuntimeClass F)} (hs : P.Selections s s')
    (hgenerics : s.signature.generics = s.member.generics) {this this' : Value F}
    (hthis : P.Values W this this') (hstatic : s.member.isStatic = true → this = .null)
    {args args' : List (Variable F)} (hargs : List.Forall₂ (P.Variables W) args args')
    (span : Span) :
    P.Agree W g (fun V => Option.Rel (P.Variables V)) (P.left.invoke calls s this args span)
      (P.right.invoke calls' s' this' args' span) := by
  have hframe : (⟨s'.signature.methodFrame s'.owner, P.right.location span⟩ : Frame) =
      ⟨s.signature.methodFrame s.owner, P.left.location span⟩ := by
    simp only [Signature.methodFrame, hs.owner.text_eq, hs.signature, Engine.location, P.source_eq]
  unfold Engine.invoke
  dsimp only
  rw [hframe, hs.signature, hs.bindings]
  refine Agree.withFrame ?_ _
  refine Agree.bind (agree_methodValue hhost hbodies hcalls hs hgenerics _ hthis hstatic hargs span)
    fun V _ x x' hx => ?_
  cases s.signature.returnType with
  | none => exact Agree.pure .none
  | some ty =>
    cases hx with
    | none => exact Agree.pure .none
    | some hv =>
      exact Agree.bind (agree_classOf _ span) fun U hU c c' hc =>
        Agree.pure (.some ⟨hc, hv.mono hU⟩)

/-- A call over matching classes with corresponding arguments runs alike. -/
theorem agree_dispatch {c c' : RuntimeClass F} (hc : P.Classes c c') {this this' : Value F}
    (hthis : P.Values W this this') (name : String) (isStatic : Bool)
    (hstatic : isStatic = true → this = .null) {args args' : List (Variable F)}
    (hargs : List.Forall₂ (P.Variables W) args args') (argTypes : List Ty) (span : Span) :
    P.Agree W g (fun V => Option.Rel (P.Variables V))
      (P.left.dispatch calls c this name isStatic args argTypes span)
      (P.right.dispatch calls' c' this' name isStatic args' argTypes span) := by
  unfold Engine.dispatch
  rcases (P.tables.resolveMethod_runtime hc name isStatic argTypes).elim with
    ⟨e, h1, h2⟩ | ⟨r, r', h1, h2, hr⟩
  · rw [h1, h2]
    exact Agree.raise rfl _
  · rw [h1, h2]
    rw [Engine.types_ok_bind, Engine.types_ok_bind]
    cases hr with
    | @found o o' k k' sig b ho hk =>
      obtain ⟨hmem, hsig, -⟩ := ClassTable.method_of_found h1
      have hs : P.Selections ⟨o, k, sig, b⟩ ⟨o', k', sig, b⟩ := ⟨ho, hk, rfl, rfl⟩
      refine agree_invoke hhost hbodies hcalls hs (ClassTable.signature_ok hsig).2.2 hthis ?_ hargs
        span
      intro hk
      have hkind : k.isStatic = isStatic := by
        simp only [Template.methodsNamed, List.mem_filter, Bool.and_eq_true, beq_iff_eq] at hmem
        exact hmem.2.2
      exact hstatic (hkind.symm.trans hk)
    | ambiguous a => exact Agree.raise rfl _
    | missing k => exact Agree.raise rfl _
    | defaultConstructor => exact Agree.pure .none

/-! ## Constructions -/

theorem agree_runConstructor {s s' : Selected F (RuntimeClass F)} (hs : P.Selections s s')
    (hinstance : ∀ b a, s.member.body = .declared b a → s.member.isStatic = false)
    {o o' : ObjectRef F} (ho : P.Objects W o o') {args args' : List (Variable F)}
    (hargs : List.Forall₂ (P.Variables W) args args') (span : Span)
    {base base' : Option (List (Variable F) → List Ty → Span → EvalM F Unit)}
    (hbase : Option.Rel (fun f f' => ∀ {V h} {vs vs' : List (Variable F)} (tys : List Ty)
      (place : Span), W ≤ V → List.Forall₂ (P.Variables V) vs vs' →
      P.Agree V h Same (f vs tys place) (f' vs' tys place)) base base') :
    P.Agree W g Same (P.left.runConstructor calls s o args span base)
      (P.right.runConstructor calls' s' o' args' span base') := by
  have hframe : (⟨s'.signature.constructorFrame s'.owner, P.right.location span⟩ : Frame) =
      ⟨s.signature.constructorFrame s.owner, P.left.location span⟩ := by
    simp only [Signature.constructorFrame, hs.owner.text_eq, hs.signature, Engine.location,
      P.source_eq]
  have hbody := hbodies _ _ _ hs.member.body
  unfold Engine.runConstructor
  rw [hframe, hs.signature, hs.member.span]
  refine Agree.withFrame ?_ _
  generalize hb : s.member.body = b, s'.member.body = b' at hbody
  cases hbody with
  | native f =>
    have hcall : P.HostCalls W ⟨s.owner, .object o, args, span⟩ ⟨s'.owner, .object o', args', span⟩ :=
      ⟨hs.owner, .object ho, hargs, rfl⟩
    exact Agree.bind (agree_callHost hhost hcalls f hcall) fun _ _ _ _ _ => Agree.pure rfl
  | declared hstmts hsuper =>
    refine Agree.withScope (scopes_invocation (.instance ho hs.owner) [])
      (show TypeParams.Within _ (s.member.visible s.owner.own.template.generics) from
        within_invocation TypeParams.Within.nil ?_) ?_
    · refine hs.owner.own.within.mono fun n hn => List.mem_append_left _ ?_
      rw [hinstance _ _ hb]
      exact hn
    · refine Agree.bind (agree_bindParameters _ span _ hargs) fun V hV _ _ _ => ?_
      have hrest : ∀ {U : Pairing}, P.Agree U (s.member.visible s.owner.own.template.generics) Same
          (do let _ ← P.left.execBlock calls _) (do let _ ← P.right.execBlock calls' _) :=
        Agree.bind (agree_execBlock hhost hcalls hstmts) fun _ _ _ _ _ => Agree.pure rfl
      cases hbase with
      | none => exact hrest
      | some hf =>
        have harguments : Expr.AllRetyped _ (Option.getD _ []) (Option.getD _ []) :=
          allRetyped_getD hsuper
        refine Agree.bind (agree_evalAll hhost hcalls harguments) fun U hU vs vs' hvs => ?_
        rw [argumentTypes_eq harguments hvs]
        exact Agree.bind (hf _ _ (le_trans hV hU) hvs) fun _ _ _ _ _ => hrest

/-- The constructors of matching chains of classes run alike. -/
theorem agree_runConstructors {isStaticView isStaticView' : Bool}
    (hview : isStaticView' = isStaticView) {ls ls' : List (Layer F)}
    (hls : List.Forall₂ (Layer.Matches P.left.table.lowering P.bodies) ls ls') :
    ∀ {W : Pairing} {g : List String} {o o' : ObjectRef F} {args args' : List (Variable F)}
    (argTypes : List Ty) (span : Span), P.Objects W o o' →
    List.Forall₂ (P.Variables W) args args' →
    P.Agree W g Same (P.left.runConstructors calls o isStaticView ls args argTypes span)
      (P.right.runConstructors calls' o' isStaticView' ls' args' argTypes span) := by
  induction hls with
  | nil => exact fun _ _ _ _ => Agree.pure rfl
  | @cons l l' rest rest' hl hrest ih =>
    intro W g o o' args args' argTypes span ho hargs
    have hc : P.Classes ⟨isStaticView, l, rest⟩ ⟨isStaticView', l', rest'⟩ := ⟨hview, hl, hrest⟩
    unfold Engine.runConstructors
    rcases (P.tables.resolveConstructor_runtime hc argTypes).elim with
      ⟨e, h1, h2⟩ | ⟨r, r', h1, h2, hr⟩
    · dsimp only
      rw [h1, h2]
      exact Agree.raise rfl _
    · dsimp only
      rw [h1, h2, Engine.types_ok_bind, Engine.types_ok_bind]
      cases hr with
      | @found k k' m m' sig b hk hm =>
        obtain ⟨rfl, hmem, -⟩ := ClassTable.constructor_of_found h1
        have hs : P.Selections ⟨_, m, sig, b⟩ ⟨k', m', sig, b⟩ := ⟨hk, hm, rfl, rfl⟩
        have hinstance : ∀ body a, m.body = .declared body a → m.isStatic = false := by
          have hown : m ∈ l.template.constructors := by
            unfold RuntimeClass.constructors at hmem
            split at hmem
            · cases hmem
            · exact hmem
          exact hl.template.instanceConstructors m hown
        refine agree_runConstructor hhost hbodies hcalls hs hinstance ho hargs span ?_
        cases hrest with
        | nil => exact .none
        | cons _ _ => exact .some fun tys place hV hvs => ih tys place (ho.mono hV) hvs
      | ambiguous a => exact Agree.raise rfl _
      | missing k => exact Agree.raise rfl _
      | defaultConstructor => exact ih [] span ho .nil

theorem agree_construct {c c' : RuntimeClass F} (hc : P.Classes c c')
    {args args' : List (Variable F)} (hargs : List.Forall₂ (P.Variables W) args args')
    (argTypes : List Ty) (span : Span) :
    P.Agree W g P.Objects (P.left.construct calls c args argTypes span)
      (P.right.construct calls' c' args' argTypes span) := by
  refine Agree.bind (agree_allocate hc span) fun V hV o o' ho => ?_
  refine Agree.bind (agree_runConstructors hhost hbodies hcalls hc.isStaticView hc.layers argTypes
    span ho (variables_mono hV hargs)) fun U hU _ _ _ => ?_
  exact Agree.pure (ho.mono hU)

end Calls

/-! ## Whole runs -/

/--
A static field that only the right engine has read can be read by the left one at every depth.
-/
def SparesMade (P : EnginePair F) : Prop :=
  ∀ {n n' : Nat} {c c' owner : RuntimeClass F} {name : String} {field : NativeField F}
    {m : Machine F} (span : Span), P.Budgets n n' → P.left.table.Shows c →
    Engine.staticFieldOwner? c name c.layers = some (owner, field) →
    P.spare = some ((owner.name, field.name), c') → m.Remembers P.left.table →
    P.MakesSpare (Calls.atDepth P.left n) owner field span c' m

theorem sparesMade_of_none (h : P.spare = none) : P.SparesMade := by
  intro _ _ _ _ _ _ _ _ _ _ _ _ hspare
  rw [h] at hspare
  cases hspare

/-- Calls agree at every depth. -/
theorem callsAgree_atDepth (hhost : P.HostRespects) (hbodies : P.BodiesRun)
    (hspares : P.SparesMade) {n n' : Nat} (hn : P.Budgets n n') :
    P.CallsAgree (Calls.atDepth P.left n) (Calls.atDepth P.right n') := by
  have hrounds : ∀ {n n'}, P.Budgets n n' →
      P.Budgets (Calls.atDepth P.left n).rounds (Calls.atDepth P.right n').rounds := by
    intro n n' hn
    rw [Calls.rounds_atDepth, Calls.rounds_atDepth]
    exact hn
  induction hn using Budgets.induction with
  | left hearly n' hn =>
    exact ⟨hrounds hn, fun _ _ _ _ _ _ _ _ => Agree.left hearly _,
      fun _ _ _ _ => Agree.left hearly _, fun span => hspares span hn⟩
  | right hearly n hn =>
    exact ⟨hrounds hn, fun _ _ _ _ _ _ _ _ => Agree.right hearly _,
      fun _ _ _ _ => Agree.right hearly _, fun span => hspares span hn⟩
  | both hn =>
    exact ⟨hrounds hn, fun _ _ _ _ _ _ _ _ => Agree.exhausted, fun _ _ _ _ => Agree.exhausted,
      fun span => hspares span hn⟩
  | step n n' _ hn ih =>
    refine ⟨hrounds hn, ?_, ?_, fun span => hspares span hn⟩
    · intro W g c c' this this' args args' name isStatic argTypes span hc hthis hstatic hargs
      exact agree_dispatch hhost hbodies ih hc hthis name isStatic hstatic hargs argTypes span
    · intro W g c c' args args' argTypes span hc hargs
      exact agree_construct hhost hbodies ih hc hargs argTypes span

theorem agree_callStaticWithin (hhost : P.HostRespects) (hbodies : P.BodiesRun)
    (hspares : P.SparesMade) {n n' : Nat} (hn : P.Budgets n n') (className method : String)
    {args args' : List (Variable F)} (hargs : List.Forall₂ (P.Variables W) args args')
    (span : Span) :
    P.Agree W g (fun V => Option.Rel (P.Variables V))
      (P.left.callStaticWithin n className method args span)
      (P.right.callStaticWithin n' className method args' span) := by
  unfold Engine.callStaticWithin
  rw [P.tables.resolve?_eq, declaredTypes_eq hargs]
  cases P.left.table.imports.resolve? className with
  | none => exact Agree.raise rfl _
  | some full =>
    refine Agree.bind (agree_staticView full span) fun V hV c c' hc => ?_
    exact (callsAgree_atDepth hhost hbodies hspares hn).dispatch method true _ span hc.cls .null
      (fun _ => rfl) (variables_mono hV hargs)

/-- Two engines over matching tables run alike. -/
theorem agree_runWithin (hhost : P.HostRespects) (hbodies : P.BodiesRun) (hspares : P.SparesMade)
    {n n' : Nat} (hn : P.Budgets n n') :
    P.Agree W g Same (P.left.runWithin n) (P.right.runWithin n') := by
  have hframe : (⟨"Global", P.right.location {}⟩ : Frame) = ⟨"Global", P.left.location {}⟩ := by
    simp only [Engine.location, P.source_eq]
  unfold Engine.runWithin
  rw [hframe, P.entry_eq, P.source_eq]
  refine Agree.withFrame ?_ _
  cases P.left.entry with
  | none => exact Agree.raise rfl _
  | some entry =>
    refine Agree.bind (agree_callStaticWithin hhost hbodies hspares hn entry "main" .nil {})
      fun _ _ _ _ _ => ?_
    unfold Engine.flush
    rw [P.sink_eq]
    cases P.left.sink.flushError with
    | none => exact Agree.pure rfl
    | some e => exact Agree.invalid rfl _

end EnginePair

end Middleweight
