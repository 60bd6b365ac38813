import Middleweight.Proofs.Analysis.Entry
import Middleweight.Proofs.Analysis.ExpandedRun
import Middleweight.Proofs.Engine.Returns
import Middleweight.Proofs.Soundness.Statements

/-!
# Runs of procedural programs

A method of a checked procedural program, called with arguments that fit its parameters, runs its
body with the locals that the checker started from, and gives a value that fits its return type: a
body with a `return` among its statements does not end without one. So calls to every depth stop
only where they may, and a run does no more than to call the one method with which the program can
start.

Asking for `this` in a static method is an error even where a class is named `this`, and the checker
takes the name for that class; a program without such a class stops only at `null` or at an
operation that its operands do not allow.

* `Engine.keeps_invoke` : methods
* `Calls.checked_atDepth` : calls to every depth
* `procedural_runs_safely` : runs
-/

namespace Middleweight

open NativeRegistry (standard)

/-! ## Methods that the checker accepts -/

/-- The parts of the check of a static method without generic parameters. -/
theorem MethodDecl.IsProcedural.check_ok {F : Type} {m : MethodDecl} (hm : m.IsProcedural)
    {t : ClassTable F} {cls : Template F} (h : MethodDecl.check t cls m = .ok ()) :
    ∃ rt L L', m.loweredReturn t [] = .ok rt ∧
      (BodyContext.ofStatic t cls rt).defineParameters [[]] m.parameters = .ok L ∧
      (BodyContext.ofStatic t cls rt).statements L m.body = .ok L' ∧
      (rt.isSome = true → m.body.any Stmt.isReturn = true) := by
  have hparams : m.typeParams cls = [] := by
    rw [MethodDecl.typeParams, hm.isStatic, hm.generics]
    rfl
  have hctx : ∀ rt, m.context t cls rt = BodyContext.ofStatic t cls rt := by
    intro rt
    rw [MethodDecl.context, BodyContext.ofStatic, hparams, hm.isStatic]
    rfl
  obtain ⟨rt, L, L', hrt, hL, hL', hreturns⟩ := MethodDecl.check_ok h
  rw [hparams] at hrt
  rw [hctx] at hL hL'
  exact ⟨rt, L, L', hrt, hL, hL', hreturns⟩

theorem Program.Accepted.check_method {p : Program} {t : ClassTable StandardFn}
    (h : p.Accepted t) {d : ClassDecl} (hd : d ∈ p.classes) {m : MethodDecl}
    (hm : m ∈ d.methods) : ∃ cls, MethodDecl.check t cls m = .ok () := by
  obtain ⟨cls, -, -, -, hmethods⟩ := ClassDecl.check_ok (forM_ok_iff.mp h.check d hd)
  exact ⟨cls, hmethods m hm⟩

/-- The bodies of its methods neither construct nor cast. -/
theorem Program.Accepted.makesNothing {p : Program} {t : ClassTable StandardFn}
    (h : p.Accepted t) {d : ClassDecl} (hd : d ∈ p.classes) {m : MethodDecl}
    (hm : m ∈ d.methods) : Stmt.EachTypeIn TypeUse.MakesNothing m.body :=
  ((h.procedural.makesNothing d hd).methods m hm).body

/-! ## Methods -/

namespace Engine

/-- What holds of all results of a safe computation holds where it ends. -/
theorem Safe.and_of_ok {F α : Type} {eng : Engine F} {L : Locals} {x : EvalM F α}
    {Q : α → Locals → Prop} {P : α → Prop} (hx : eng.Safe L x Q)
    (hP : ∀ m a m', x m = .ok a m' → P a) : eng.Safe L x fun a L' => Q a L' ∧ P a := by
  intro m hm
  have h := hx m hm
  cases hr : x m with
  | ok a m' =>
    rw [hr] at h
    cases h with
    | ok hq hm' => exact .ok ⟨hq, hP m a m' hr⟩ hm'
  | error e m' =>
    rw [hr] at h
    cases h with
    | stop he => exact .stop he

variable {p : Program} {eng : Engine StandardFn} {calls : Calls StandardFn} {L : Locals}

/-- Parameters with arguments that fit them are the locals that the checker starts from. -/
theorem safe_bindParameters (ht : eng.table.Rooted) {cls : Template StandardFn} {rt : Option Ty}
    (span : Span) : ∀ {ps : List Parameter} {qs : List Param} {args : List (Variable StandardFn)}
    {L L' : Locals},
    (BodyContext.ofStatic eng.table cls rt).defineParameters L ps = .ok L' →
    List.Forall₂ (fun e q => q.name = e.1 ∧ eng.table.lower [] e.2 = .ok q.ty)
      (Member.writtenParams ps) qs →
    List.Forall₂ (fun v q => v.value.Fits eng.table q.ty) args qs →
    (∀ q ∈ ps, q.name.name ≠ "this") →
    eng.Safe L (eng.bindParameters [] span qs args) fun _ L₁ => L₁ = L'
  | [], _, _, L, _, hdefine, .nil, .nil, _ => by
    cases hdefine
    exact Safe.pure rfl
  | q :: ps, _, _, L, L', hdefine, .cons (b := r) hq hqs, .cons hv hargs, hthis => by
    obtain ⟨ty, hty, hfirst⟩ := ok_of_bind hdefine
    obtain ⟨L₁, hL₁, hrest⟩ := ok_of_bind hfirst
    obtain ⟨hhead, htail⟩ := List.forall_mem_cons.mp hthis
    obtain ⟨name, ty'⟩ := r
    obtain ⟨rfl, hlower⟩ := hq
    cases (typed_ok hty).symm.trans hlower
    have hknows := ClassTable.knows_of_lower hlower
    rw [bindParameters]
    dsimp only
    rw [Ty.substitute_of_isGround _ hknows.isGround]
    refine Keeps.bind (keeps_classOf ht hknows span) fun c hc => ?_
    refine Safe.bind (safe_define hhead (hc.hasType hknows hv) (BodyContext.define_ok hL₁))
      fun _ L₂ hL₂ => ?_
    cases hL₂
    exact safe_bindParameters ht span hrest hqs hargs htail

/-- What a method gives by its declared return type. -/
def ValueFits {F : Type} (t : ClassTable F) : Option Ty → Option (Value F) → Prop
  | none, _ => True
  | some ty, v? => ∃ v, v? = some v ∧ v.Fits t ty

section Methods

variable (h : p.Accepted eng.table) (hcalls : calls.Checked eng p)
  {s : Selected StandardFn (RuntimeClass StandardFn)} {this : Value StandardFn}
  {args : List (Variable StandardFn)}

include h

/-- A native method gives what it declares, whatever it is called with. -/
theorem keeps_nativeValue {n : NativeClass StandardFn} (hn : n ∈ standard.classes)
    {m : NativeMember StandardFn} (hm : m ∈ n.methods) (hg : n.generics = [])
    (hmember : s.member = .ofNative n.fullName m) (hs : s.IsCallable p eng.table this)
    (span : Span) :
    eng.Keeps L (eng.methodValue calls s [] this args span)
      (ValueFits eng.table s.signature.returnType) := by
  obtain ⟨hplain, hkind, hgenerics⟩ := (NativeRegistry.methods_standard n hn m hm).2 hg
  obtain ⟨-, hreturn⟩ := ClassTable.signature_lowers hs.signature
  rw [hs.params, hmember] at hreturn
  unfold methodValue
  rw [hmember]
  have hperform := StandardFn.plain_perform (t := eng.table) hplain ⟨s.owner, this, args, span⟩
  refine Keeps.bind (keeps_runHost span hperform) fun v hv => Keeps.pure ?_
  rcases rel_elim hreturn with ⟨-, hnone⟩ | ⟨e, ty, he, hty, hlower⟩
  · rw [hnone]
    trivial
  · have he : m.returnType = some e := he
    rw [he] at hkind hgenerics
    obtain ⟨k, hk, hname⟩ := Option.map_eq_some_iff.mp hkind
    have hnil : e.generics = [] := List.isEmpty_iff.mp hgenerics
    cases hlower.symm.trans (ClassTable.lower_kind h.build hname.symm hnil)
    rw [hty]
    exact ⟨v, rfl, (hv k hk).fits⟩

include hcalls

/-- The body of a declared method gives what the method declares. -/
theorem keeps_declaredValue {d : ClassDecl} (hd : d ∈ p.classes) {m : MethodDecl}
    (hm : m ∈ d.methods) (hmember : s.member = .ofMethod d.name.name m)
    (hs : s.IsCallable p eng.table .null)
    (hargs : List.Forall₂ (fun v q => v.value.Fits eng.table q.ty) args s.signature.params)
    (span : Span) :
    eng.Keeps L (eng.methodValue calls s [] .null args span)
      (ValueFits eng.table s.signature.returnType) := by
  have hprocedural := (h.procedural.classes d hd).methods m hm
  obtain ⟨cls, hcheck⟩ := h.check_method hd hm
  obtain ⟨rt, L₁, L₂, hrt, hdefine, hbody, hreturns⟩ := hprocedural.check_ok hcheck
  obtain ⟨hparams, hreturn⟩ := ClassTable.signature_lowers hs.signature
  obtain ⟨-, -, hgenerics⟩ := ClassTable.signature_ok hs.signature
  have hground : ∀ ty ∈ s.signature.returnType, ty.IsGround := fun ty hty =>
    ((ClassTable.knows_signature hs.signature hs.params).2 ty hty).isGround
  rw [hs.params, hmember] at hparams hreturn
  cases hrt.symm.trans (MethodDecl.loweredReturn_ok_iff.mpr hreturn)
  have hbound : s.signature.boundGenerics [] = [] := by
    rw [Signature.boundGenerics, hgenerics, hmember]
    simp [Member.ofMethod, hprocedural.generics]
  unfold methodValue
  rw [hmember, hbound]
  refine Safe.withScope ⟨rfl, .cons .empty .nil⟩ (fun l hl => ?_) ?_
  · obtain rfl := List.mem_singleton.mp hl
    exact .empty
  · refine Safe.bind (safe_bindParameters h.rooted span hdefine hparams hargs
      hprocedural.parameters) fun _ L' hL' => ?_
    cases hL'
    have hsafe := safe_execBlock h hcalls hground hbody (h.makesNothing hd hm) hprocedural.locals
    -- A checked block may end without a value; not so the body of a method that promises one.
    have hends := Safe.and_of_ok (P := fun flow =>
      s.signature.returnType.isSome = true → ∃ v, flow = .returned v) hsafe
        fun m a m' hok hsome => execBlock_returns (hreturns hsome) hok
    refine Safe.bind hends fun flow L' hflow => ?_
    obtain ⟨⟨-, hfits⟩, hreturned⟩ := hflow
    cases hty : s.signature.returnType with
    | none => cases flow <;> exact Safe.pure trivial
    | some ty =>
      rw [hty] at hfits hreturned
      obtain ⟨v?, rfl⟩ := hreturned rfl
      obtain ⟨v, rfl, hv⟩ := hfits
      exact Safe.pure ⟨_, rfl, hv⟩

/-- A chosen method gives what it declares. -/
theorem keeps_invoke (hs : s.IsCallable p eng.table this)
    (hargs : List.Forall₂ (fun v q => v.value.Fits eng.table q.ty) args s.signature.params)
    (span : Span) :
    eng.Keeps L (eng.invoke calls s this args span)
      (ResultFits eng.table s.signature.returnType) := by
  have hgenerics : s.member.generics = [] := by
    generalize hm : s.member = member
    cases hm ▸ hs.callee with
    | native _ _ _ => rfl
    | @declared d m hd hm' _ =>
      show m.generics.map Identifier.name = []
      rw [((h.procedural.classes d hd).methods m hm').generics]
      rfl
  -- Nothing is generic, so a call binds no types and every declared type stands for itself.
  have hcomplete : s.bindings.complete s.signature = [] := by
    rw [Bindings.complete, hs.bindings, (ClassTable.signature_ok hs.signature).2.2, hgenerics]
    rfl
  have hvalue : eng.Keeps L (eng.methodValue calls s [] this args span)
      (ValueFits eng.table s.signature.returnType) := by
    generalize hm : s.member = member
    cases hm ▸ hs.callee with
    | native hn hm' hg => exact keeps_nativeValue h hn hm' hg hm hs span
    | declared hd hm' hnull =>
      subst hnull
      exact keeps_declaredValue h hcalls hd hm' hm hs hargs span
  unfold invoke
  rw [hcomplete]
  refine Safe.withFrame (Keeps.bind hvalue fun v? hv? => ?_) _
  have hknows := (ClassTable.knows_signature hs.signature hs.params).2
  cases hty : s.signature.returnType with
  | none => exact Keeps.pure trivial
  | some ty =>
    rw [hty] at hv?
    obtain ⟨v, rfl, hv⟩ := hv?
    have hty' : eng.table.Knows ty := hknows ty hty
    dsimp only
    rw [Ty.substitute_of_isGround _ hty'.isGround]
    exact Keeps.bind (keeps_classOf h.rooted hty' span) fun c hc =>
      Keeps.pure ⟨_, rfl, hc.hasType hty' hv⟩

end Methods

end Engine

/-- Calls to every depth stop only where they may. -/
theorem Calls.checked_atDepth {p : Program} {eng : Engine StandardFn} (h : p.Accepted eng.table)
    (n : Nat) : (Calls.atDepth eng n).Checked eng p := by
  induction n with
  | zero =>
    constructor
    · intros
      exact Engine.Safe.exhausted
    · intros
      exact Engine.Safe.exhausted
  | succ n ih =>
    constructor
    · intro L c this name isStatic args argTypes span s hfound hs hargs
      show eng.Keeps L (eng.dispatch (Calls.atDepth eng n) c this name isStatic args argTypes span) _
      unfold Engine.dispatch
      rw [hfound, Engine.types_ok_bind]
      exact Engine.keeps_invoke h ih hs hargs span
    · intro L d span hd m hm
      -- The only object ever made is the standard output, which has no constructors to run.
      have heq := Engine.construct_output h.build hd (m := m) (Calls.atDepth eng n) span
      show Engine.Ends _ _ (eng.construct (Calls.atDepth eng n) d [] [] span m)
      rw [heq]
      exact .ok ⟨rfl, rfl⟩ (hm.of_eq rfl rfl rfl)

/-! ## The start of a program -/

namespace Program.Accepted

variable {p : Program} {t : ClassTable StandardFn} (h : p.Accepted t)

include h

/-- The one method with which the program can start is found by its name. -/
theorem resolveMethod_main {d : ClassDecl} (hd : d ∈ p.classes) {m : MethodDecl}
    (hone : d.methods.filter MethodDecl.isEntry = [m]) :
    ∃ s, t.staticMembers.resolveMethod t ⟨d.name.name, []⟩ "main" true [] = .ok (.found s) := by
  obtain ⟨c, hmade, hc⟩ := ClassTable.get?_declared h.build hd
  obtain ⟨base, fields, -, -, heq⟩ := ClassTable.declaredTemplate_ok hmade
  obtain ⟨cls, -, -, -, hchecks⟩ := ClassDecl.check_ok (forM_ok_iff.mp h.check d hd)
  obtain ⟨cs, hcs, happ⟩ :=
    ClassTable.applicables_main d.name.name (ClassTable.paramsFor c []) hchecks
  have hmethods : t.staticMembers.methods ⟨d.name.name, []⟩ "main" true = .ok cs := by
    unfold ClassTable.staticMembers
    dsimp only
    rw [ClassTable.template_ok_iff.mpr hc]
    dsimp only
    rw [Template.methodsNamed, show c.methods = d.methods.map (Member.ofMethod d.name.name) by
      rw [heq]]
    exact hcs
  have hm : m ∈ d.methods.filter MethodDecl.isEntry := hone ▸ List.mem_singleton_self m
  have hany := List.any_eq_true.mpr ⟨m, List.mem_filter.mp hm⟩
  obtain ⟨s, hs, -⟩ := (MemberSource.resolveMethod_main_iff (Nat.succ_pos _) hmethods happ
    hany).mpr ⟨m, hone, rfl⟩
  exact ⟨s, hs⟩

end Program.Accepted

/-- A program with one main method starts in the class that has it. -/
theorem Program.entryOf_of_checkMain {p : Program} (hentries : p.entries.length ≤ 1)
    (hmain : p.checkMain = .ok ()) :
    ∃ d ∈ p.classes, Engine.entryOf p = some d.name.name ∧
      ∃ m, d.methods.filter MethodDecl.isEntry = [m] := by
  have hexists : ∃ d ∈ p.classes, d.methods.any MethodDecl.isEntry = true := by
    obtain ⟨m, hmains⟩ := List.length_eq_one_iff.mp (checkMain_ok_iff.mp hmain)
    have hm : m ∈ p.mains := by rw [hmains]; exact List.mem_singleton_self m
    obtain ⟨d, hd, hm⟩ := List.mem_flatMap.mp hm
    obtain ⟨hmem, hmain⟩ := List.mem_filter.mp hm
    rw [MethodDecl.isMain, Bool.and_eq_true] at hmain
    exact ⟨d, hd, List.any_eq_true.mpr ⟨m, hmem, hmain.1⟩⟩
  obtain ⟨d₀, hd₀, hany₀⟩ := hexists
  cases hfind : p.classes.find? fun c => c.methods.any MethodDecl.isEntry with
  | none => exact absurd hany₀ (List.find?_eq_none.mp hfind d₀ hd₀)
  | some d =>
    have hd := List.mem_of_find?_eq_some hfind
    have hany := List.find?_some (p := fun c : ClassDecl => c.methods.any MethodDecl.isEntry) hfind
    refine ⟨d, hd, by rw [Engine.entryOf, hfind]; rfl, ?_⟩
    have hle := Nat.le_trans (Program.sublist_entries hd).length_le hentries
    obtain ⟨m, hm, hentry⟩ := List.any_eq_true.mp hany
    have hpos := List.length_pos_of_mem (List.mem_filter.mpr ⟨hm, hentry⟩)
    exact List.length_eq_one_iff.mp (Nat.le_antisymm hle hpos)

/-! ## Runs -/

/-- A run of a checked procedural program stops only where it may. -/
theorem Engine.keeps_runWithin {p : Program} {eng : Engine StandardFn} (h : p.Accepted eng.table)
    (hentry : eng.entry = entryOf p) (hmain : p.checkMain = .ok ()) (n : Nat) {L : Locals} :
    eng.Keeps L (eng.runWithin n) fun _ => True := by
  obtain ⟨d, hd, heq, m, hone⟩ := Program.entryOf_of_checkMain h.procedural.entries hmain
  obtain ⟨s₀, hs₀⟩ := h.resolveMethod_main hd hone
  obtain ⟨c, -, hc⟩ := ClassTable.get?_declared h.build hd
  have hresolve := ImportTable.resolve?_declared (ClassTable.imports_of_build h.build) hd
  have hcall : eng.Keeps L (eng.callStaticWithin n d.name.name "main" [] {}) fun _ => True := by
    unfold callStaticWithin
    rw [hresolve]
    refine Keeps.bind (keeps_staticView h.rooted hc {}) fun view hview => ?_
    obtain ⟨s, hfound, -, -, hs⟩ := h.resolveMethod_view hview .nil hs₀
    have hargs := hs.fits_params h hfound .nil .nil
    exact Keeps.mono ((Calls.checked_atDepth h n).dispatch hfound hs hargs) fun _ _ => trivial
  unfold runWithin
  rw [hentry, heq]
  refine Safe.withFrame (Keeps.bind hcall fun _ _ => ?_) _
  unfold flush
  split
  · exact Safe.invalid _ _
  · exact Keeps.pure trivial

/-- A fresh machine has no locals. -/
theorem Machine.Sound.fresh {F : Type} (t : ClassTable F) : Machine.Sound t {} [[]] where
  remembers := ⟨.empty, fun l hl => by
    obtain rfl := List.mem_singleton.mp hl
    exact .empty⟩
  scope := ⟨rfl, .cons .empty .nil⟩
  statics := fun e he => nomatch he

/-- Only a declared class can have the name `this`. -/
theorem ImportTable.resolve?_this {p : Program} {t : ImportTable} (h : build p standard = .ok t)
    {full : String} (hf : t.resolve? "this" = some full) : ∃ d ∈ p.classes, d.name.name = "this" := by
  have hnatives : ∀ n ∈ standard.classes, n.name ≠ "this" ∧ n.fullName ≠ "this" := by
    decide +kernel
  have haliases : ∀ e ∈ primitiveAliases, e.1 ≠ "this" := by decide
  obtain ⟨simple, hnames, hsimple, -⟩ := build_ok h
  have hm : ("this", full) ∈ t.names := mem_of_lookup hf
  rw [hnames] at hm
  rcases List.mem_append.mp hm with hm | hm
  · obtain ⟨-, ⟨n, hn, heq⟩ | ⟨d, hd, heq⟩⟩ := mem_fullNames hm
    · exact absurd heq.symm (hnatives n hn).2
    · exact ⟨d, hd, heq.symm⟩
  · rcases hsimple _ hm with ha | ⟨n, hn, heq⟩
    · exact absurd rfl (haliases _ ha)
    · exact absurd (congrArg Prod.fst heq).symm (hnatives n hn).1

/-- Analysis keeps the names of classes. -/
theorem Program.name_of_analysed {F : Type} {natives : NativeRegistry F} {p p' : Program}
    (h : p.analyseFindings natives = .ok p') {d : ClassDecl} (hd : d ∈ p'.classes) :
    ∃ c ∈ p.classes, d.name = c.name := by
  obtain ⟨t, p₁, -, hexpand, rfl, -⟩ := analyseFindings_ok h
  obtain ⟨d₁, hd₁, rfl⟩ := List.mem_map.mp hd
  obtain ⟨classes, hclasses, rfl⟩ := Program.expand_ok hexpand
  obtain ⟨c, hc, hexp⟩ := exists_of_forall₂_mem hclasses hd₁
  obtain ⟨base, fields, constructors, methods, -, -, -, -, rfl⟩ := ClassDecl.expand_ok hexp
  exact ⟨c, hc, rfl⟩

/--
A procedural program that analysis accepts, and in which no class is named `this`, has an engine.
Its runs, whatever is observed and wherever output goes, end well if they end, or stop at `null` or
at an operation that its operands do not allow.
-/
theorem procedural_runs_safely {p p' : Program} (hp : p.IsProcedural)
    (hthis : ∀ c ∈ p.classes, c.name.name ≠ "this") (h : p.analyse standard = .ok p') :
    ∃ eng, Engine.new p' standard = .ok eng ∧ ∀ observed sink n e m,
      { eng with observed, sink : Engine StandardFn }.runWithin n {} = .error (.error e) m →
      (∃ member, e.fault = .nullDereference member) ∨ ∃ op, e.fault = .invalid op := by
  have hfindings := Program.analyse_ok_iff.mp h
  -- The engine is made of the analysed program, so the checks that count are those of analysing
  -- it once more: they are made with the table that the engine has.
  have hagain := Program.analyseFindings_analysed NativeRegistry.standard_wellNamed
    hp.plainGenerics hfindings
  obtain ⟨t, -, hbuild, -, -, hmain, -, hcheck⟩ := Program.analyseFindings_ok hagain
  have haccepted : p'.Accepted t := ⟨hbuild, hp.analysed hfindings, hcheck⟩
  refine ⟨{ table := t, source := p'.source, entry := Engine.entryOf p' }, ?_, ?_⟩
  · rw [Engine.new, hbuild]
  · intro observed sink n e m hrun
    let eng : Engine StandardFn := ⟨t, p'.source, Engine.entryOf p', observed, sink, callBudget⟩
    have haccepted : p'.Accepted eng.table := haccepted
    have hends := Engine.keeps_runWithin haccepted rfl hmain n {} (.fresh t)
    rw [hrun] at hends
    cases hends with
    | stop he =>
      have he : e.fault.Permitted t := he
      generalize e.fault = fault at he
      cases he with
      | nullDereference member => exact .inl ⟨member, rfl⟩
      | invalid op => exact .inr ⟨op, rfl⟩
      | this hresolve =>
        obtain ⟨d, hd, hname⟩ :=
          ImportTable.resolve?_this (ClassTable.imports_of_build hbuild) hresolve
        obtain ⟨c, hc, heq⟩ := Program.name_of_analysed hfindings hd
        exact absurd (heq ▸ hname) (hthis c hc)

open Build in
/-- Overloaded methods, a loop that steps its counter in an argument, and an addition to `null`. -/
def doublesProgram : Program :=
  program
    [{ name := ident "Twice",
       methods :=
         [staticMethod "of" (some "int") [param "int" "n"]
            [returns (some (binary (var "n") .add (var "n")))],
          staticMethod "of" (some "String") [param "String" "s"]
            [returns (some (binary (var "s") .add (var "s")))]] },
     { name := ident "Main",
       methods := [mainMethod
         [localVariable "Integer" "total" (some (int 0)),
          forLoop (localVariable "int" "i" (some (int 0))) (binary (var "i") .lt (int 3))
            (expr (postIncrement (var "i")))
            [compoundAssign "total" .add (call (var "Twice") "of" [postIncrement (var "i")])],
          expr (println (call (var "Integer") "toString" [var "total"])),
          localVariable "String" "s" (some null),
          expr (call (var "Twice") "of" [var "s"])]] }]

theorem procedural_runs_safely_doubles : ∃ p' eng e m, doublesProgram.IsProcedural ∧
    doublesProgram.analyse standard = .ok p' ∧ Engine.new p' standard = .ok eng ∧
    eng.run {} = .error (.error e) m ∧ m.output = "4\n" ∧
    ((∃ member, e.fault = .nullDereference member) ∨ ∃ op, e.fault = .invalid op) := by
  have hp : doublesProgram.IsProcedural := by decide +kernel
  have hthis : ∀ c ∈ doublesProgram.classes, c.name.name ≠ "this" := by decide +kernel
  have hlaunches : doublesProgram.launches (fun _ => false) (fun eng =>
      match eng.run {} with
      | .error (.error _) m => m.output == "4\n"
      | _ => false) = true := by
    decide +kernel
  obtain ⟨p', hanalyse, hnew⟩ := Program.launches_iff.mp hlaunches
  obtain ⟨eng, hnew, hpasses⟩ := hnew.resolve_left (by simp)
  split at hpasses
  · next e m hrun =>
    obtain ⟨eng', hnew', hsafe⟩ := procedural_runs_safely hp hthis hanalyse
    cases hnew.symm.trans hnew'
    exact ⟨p', eng, e, m, hp, hanalyse, hnew, hrun, beq_iff_eq.mp hpasses,
      hsafe eng.observed eng.sink eng.budget e m hrun⟩
  · cases hpasses

open Build in
/-- A class named `this`, a method of which is called from a static one. -/
def thisProgram : Program :=
  program
    [{ name := ident "this", methods := [staticMethod "f" none [] []] },
     { name := ident "Main", methods := [mainMethod [expr (call (var "this") "f" [])]] }]

/-- The checker takes `this` for the class, and the engine for the instance that there is not. -/
theorem this_undefined : ∃ p' eng e m, thisProgram.IsProcedural ∧
    thisProgram.analyse standard = .ok p' ∧ Engine.new p' standard = .ok eng ∧
    eng.run {} = .error (.error e) m ∧ e.fault = .undefinedVariable "this" := by
  have hp : thisProgram.IsProcedural := by decide +kernel
  have hlaunches : thisProgram.launches (fun _ => false) (fun eng =>
      match eng.run {} with
      | .error (.error ⟨.undefinedVariable name, _, _⟩) _ => name == "this"
      | _ => false) = true := by
    decide +kernel
  obtain ⟨p', hanalyse, hnew⟩ := Program.launches_iff.mp hlaunches
  obtain ⟨eng, hnew, hpasses⟩ := hnew.resolve_left (by simp)
  split at hpasses
  · next name location stack m hrun =>
    cases beq_iff_eq.mp hpasses
    exact ⟨p', eng, _, m, hp, hanalyse, hnew, hrun, rfl⟩
  · cases hpasses

end Middleweight
