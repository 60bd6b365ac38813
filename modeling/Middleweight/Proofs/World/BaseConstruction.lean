import Middleweight.Proofs.World.Occurrences

/-!
# Implicit construction of base classes

A class without constructors leaves it to its base class to be made without arguments, and so does a
constructor that says nothing of its base, or passes nothing on to it. Whether no arguments choose a
constructor is a matter of how many parameters each of them has, and of nothing else: neither of
what stands for the parameters of the class, nor of the table that is asked. So the checker, which
looks at each class once and with its parameters unbound, has decided it for all instantiations,
wherever they stand in a chain of base classes.

* `MemberSource.selects_iff` : what no arguments choose
* `ClassTable.heading_of_analysed` : the checker and the engine see the same numbers of parameters
* `ClassTable.makesBases_of_analysed` : the base classes of an analysed program can be made
* `base_construction_resolves` : implicit construction of a base class at all moments of a run
-/

namespace Middleweight

open NativeRegistry (standard)

variable {F : Type}

/-! ## Choosing without arguments -/

/-- Resolution has come to a member, or to a class that needs none. -/
def Resolution.Selects {O : Type} : Resolution F O → Prop
  | found _ | defaultConstructor => True
  | ambiguous _ | missing _ => False

/-- The numbers of parameters of some members. -/
def Member.arities (ms : List (Member F)) : List Nat := ms.map fun m => m.params.length

/--
No arguments choose among constructors with these numbers of parameters: there is no constructor at
all, or there is one without parameters and no other such one.
-/
def ChosenBare (arities : List Nat) : Prop := arities = [] ∨ arities.count 0 = 1

namespace ClassTable

variable {t : ClassTable F}

/-- No arguments fit a signature without parameters, and no other one. -/
theorem isSome_applicable_nil (s : Signature) :
    (t.applicable s []).isSome = decide (s.params.length = 0) := by
  unfold applicable Signature.paramTypes
  cases s.params with
  | nil => simp [Bindings.infer, Bindings.fillAll, Ty.substituteAll]
  | cons q qs => simp

theorem length_applicables_nil (cs : List (Member F × Signature)) :
    (t.applicables cs []).length = (cs.map fun c => c.2.params.length).count 0 := by
  induction cs with
  | nil => rfl
  | cons c cs ih =>
    have happ := isSome_applicable_nil (t := t) c.2
    unfold applicables at ih ⊢
    rw [List.filterMap_cons, List.map_cons, List.count_cons, ← ih]
    cases hb : t.applicable c.2 [] with
    | none =>
      rw [hb] at happ
      simp_all
    | some b =>
      rw [hb] at happ
      simp_all

/-- A signature has as many parameters as its member. -/
theorem arities_signatures {params : TypeParams} {ms : List (Member F)}
    {cs : List (Member F × Signature)} (h : t.signatures params ms = .ok cs) :
    (cs.map fun c => c.2.params.length) = Member.arities ms := by
  have hall := signatures_ok_iff.mp h
  unfold Member.arities
  clear h
  induction hall with
  | nil => rfl
  | cons hc _ ih => rw [List.map_cons, List.map_cons, ih, (signature_lowers hc.2).1.length_eq]

end ClassTable

/-- Which constructor no arguments choose is a matter of the numbers of parameters. -/
theorem MemberSource.selects_iff {O : Type} {src : MemberSource F O} {t : ClassTable F}
    {params : TypeParams} {ms : List (Member F)} {o : O} {cs : List (Member F × Signature)}
    (hsrc : src.constructors o = t.signatures params ms) (hcs : t.signatures params ms = .ok cs) :
    ∃ r, src.resolveConstructor t o [] = .ok r ∧ (r.Selects ↔ ChosenBare (Member.arities ms)) := by
  rw [resolveConstructor, hsrc, hcs, ← ClassTable.arities_signatures hcs]
  dsimp only
  cases cs with
  | nil => exact ⟨_, rfl, fun _ => .inl rfl, fun _ => trivial⟩
  | cons c cs =>
    have hlength := ClassTable.length_applicables_nil (t := t) (c :: cs)
    have hbare : ChosenBare ((c :: cs).map fun c => c.2.params.length) ↔
        (t.applicables (c :: cs) []).length = 1 := by
      rw [hlength, ChosenBare]
      simp
    rw [hbare]
    simp only [List.isEmpty_cons, Bool.false_and, Bool.false_eq_true, if_false]
    split
    · next hone => exact ⟨_, rfl, fun _ => by rw [hone]; rfl, fun _ => trivial⟩
    · next hnone => exact ⟨_, rfl, fun h => h.elim, fun h => by rw [hnone] at h; cases h⟩
    · next several hnone _ =>
      refine ⟨_, rfl, fun h => h.elim, fun h => ?_⟩
      obtain ⟨⟨m, s, b⟩, hs⟩ := List.length_eq_one_iff.mp h
      exact hnone m s b hs

/-! ## What the checker has made sure of -/

/-- A class that leaves it to its base class to be made without arguments. -/
def ClassDecl.LeavesBase (d : ClassDecl) : Prop :=
  d.constructors = [] ∨ ∃ k ∈ d.constructors, k.superArguments.getD [] = []

section Checked

variable {t : ClassTable F} {cls : Template F} {base : ClassTy}

/-- Where the checker lets a class be made without arguments, these choose a constructor. -/
theorem BodyContext.chosenBare_of_construction {ctx : BodyContext F} {span : Span}
    (h : ctx.construction base [] span = .ok ()) :
    ∃ c, ctx.table.get? base.name = some c ∧ ChosenBare (Member.arities c.constructors) := by
  obtain ⟨r, hr, h⟩ := ok_of_bind h
  have hselects : r.Selects := by
    cases r with
    | found s => trivial
    | defaultConstructor => trivial
    | ambiguous a => cases h
    | missing m => cases h
  have hr := typed_ok hr
  cases hcs : ctx.table.staticMembers.constructors base with
  | error e =>
    rw [MemberSource.resolveConstructor, hcs] at hr
    cases hr
  | ok cs =>
    cases hget : ctx.table.get? base.name with
    | none =>
      simp only [ClassTable.staticMembers, ClassTable.template, hget] at hcs
      cases hcs
    | some c =>
      have hsrc := ClassTable.staticMembers_constructors hget
      obtain ⟨r', hr', hiff⟩ := MemberSource.selects_iff hsrc (hsrc.symm.trans hcs)
      cases hr.symm.trans hr'
      exact ⟨c, rfl, hiff.mp hselects⟩

theorem BodyContext.chosenBare_of_superCall {ctx : BodyContext F} {L : Locals}
    {arguments : Option (List Expr)} {span : Span} (h : ctx.superCall L arguments span = .ok ())
    (harguments : arguments.getD [] = []) (hbase : ctx.cls.base = some base) :
    ∃ c, ctx.table.get? base.name = some c ∧ ChosenBare (Member.arities c.constructors) := by
  unfold superCall at h
  rw [hbase, harguments] at h
  obtain ⟨tys, htys, h⟩ := ok_of_bind h
  rw [values] at htys
  cases htys
  exact chosenBare_of_construction h

/-- The base class that an accepted class leaves it to can be made without arguments. -/
theorem ClassDecl.chosenBare_of_check {d : ClassDecl} (h : d.check t = .ok ())
    (hleaves : d.LeavesBase) (hcls : t.get? d.name.name = some cls) (hbase : cls.base = some base) :
    ∃ c, t.get? base.name = some c ∧ ChosenBare (Member.arities c.constructors) := by
  obtain ⟨cls', hcls', hdefault, hconstructors, -⟩ := ClassDecl.check_ok h
  cases hcls.symm.trans (ClassTable.template_ok_iff.mp hcls')
  rcases hleaves with hnone | ⟨k, hk, harguments⟩
  · exact BodyContext.chosenBare_of_superCall (hdefault hnone) rfl hbase
  · obtain ⟨L, L', -, hsuper, -⟩ := ConstructorDecl.check_ok (hconstructors k hk)
    exact BodyContext.chosenBare_of_superCall hsuper harguments hbase

end Checked

/-! ## Two tables -/

/-- The parameters of a class, and the numbers of parameters of its constructors. -/
def Template.heading (c : Template F) : List String × List Nat :=
  (c.generics, Member.arities c.constructors)

/-- The heading of the class that a declaration makes. -/
def ClassDecl.heading (d : ClassDecl) : List String × List Nat :=
  (d.generics.map Identifier.name, d.constructors.map fun k => k.parameters.length)

theorem ClassDecl.heading_expand {t : ClassTable F} {d d' : ClassDecl} (h : d.expand t = .ok d') :
    d'.regroup.name = d.name ∧ d'.regroup.heading = d.heading := by
  obtain ⟨base, fields, constructors, methods, -, -, hconstructors, -, rfl⟩ :=
    ClassDecl.expand_ok h
  refine ⟨rfl, Prod.ext rfl ?_⟩
  show (constructors.map ConstructorDecl.regroup).map (fun k => k.parameters.length) = _
  rw [List.map_map]
  show _ = d.constructors.map fun k => k.parameters.length
  clear h
  generalize d.constructors = ks at hconstructors
  induction hconstructors with
  | nil => rfl
  | cons hk _ ih =>
    obtain ⟨parameters, superArguments, body, hparameters, -, -, rfl⟩ :=
      ConstructorDecl.expand_ok hk
    rw [List.map_cons, List.map_cons, ih, hparameters.length_eq]
    rfl

namespace ClassTable

theorem heading_declaredTemplate {ctx : LoweringContext} (d : ClassDecl) (c : Template F)
    (h : declaredTemplate ctx d = .ok c) : c.heading = d.heading := by
  obtain ⟨base, fields, -, -, rfl⟩ := declaredTemplate_ok h
  refine Prod.ext rfl ?_
  show ((d.constructors.map _).map _ : List Nat) = _
  rw [List.map_map]
  refine List.map_congr_left fun k _ => ?_
  exact List.length_map _

theorem heading_nativeTemplate {ctx : LoweringContext} (n : NativeClass F) (c : Template F)
    (h : nativeTemplate ctx n = .ok c) : c.heading = n.template.heading := by
  obtain ⟨base, -, rfl⟩ := nativeTemplate_ok h
  rfl

/-- Programs with the same headings have tables with the same headings. -/
theorem heading_congr {natives : NativeRegistry F} {p p' : Program} {t t' : ClassTable F}
    (h : build p natives = .ok t) (h' : build p' natives = .ok t')
    (hsame : List.Forall₂ (fun d d' : ClassDecl => d'.name = d.name ∧ d'.heading = d.heading)
      p.classes p'.classes) (name : String) :
    (t'.get? name).map Template.heading = (t.get? name).map Template.heading := by
  have hdeclared : p'.classes.map (fun d => (d.name.name, d.heading)) =
      p.classes.map fun d => (d.name.name, d.heading) := by
    clear h h'
    generalize p.classes = ds, p'.classes = ds' at hsame
    induction hsame with
    | nil => rfl
    | cons hd _ ih => rw [List.map_cons, List.map_cons, ih, hd.1, hd.2]
  obtain ⟨-, -, -, ⟨ws, hws, hcs⟩, -⟩ := build_ok_iff.mp h
  obtain ⟨-, -, -, ⟨ws', hws', hcs'⟩, -⟩ := build_ok_iff.mp h'
  rw [get?_eq_findIn, get?_eq_findIn,
    map_findIn_putAll name_declaredTemplate heading_declaredTemplate name hcs,
    map_findIn_putAll name_declaredTemplate heading_declaredTemplate name hcs', hdeclared,
    map_findIn_putAll name_nativeTemplate heading_nativeTemplate name hws,
    map_findIn_putAll name_nativeTemplate heading_nativeTemplate name hws']

/-- The checker and the engine see classes of the same headings. -/
theorem heading_of_analysed {p p₁ : Program} {t t' : ClassTable StandardFn}
    (h : build p standard = .ok t) (hexpand : p.expand t = .ok p₁)
    (h' : build p₁.regroup standard = .ok t') (name : String) :
    (t'.get? name).map Template.heading = (t.get? name).map Template.heading := by
  obtain ⟨classes, hclasses, rfl⟩ := Program.expand_ok hexpand
  have hsame : List.Forall₂ (fun d d' : ClassDecl => d'.name = d.name ∧ d'.heading = d.heading)
      p.classes (classes.map ClassDecl.regroup) :=
    List.forall₂_map_right_iff.mpr (hclasses.imp fun _ _ hd => ClassDecl.heading_expand hd)
  exact heading_congr h h' hsame name

/-- Tables of the same imports and headings lower types alike. -/
theorem lower_of_heading {t t' : ClassTable F} (himports : t'.imports = t.imports)
    (hheading : ∀ name, (t'.get? name).map Template.heading = (t.get? name).map Template.heading)
    (params : TypeParams) (e : TypeExpr) : t'.lower params e = t.lower params e := by
  have harity : ∀ name, t'.arity? name = t.arity? name := by
    intro name
    have hlength := congrArg (Option.map fun g : List String × List Nat => g.1.length)
      (hheading name)
    rwa [Option.map_map, Option.map_map] at hlength
  have hresolve : ∀ name, t'.imports.resolve? name = t.imports.resolve? name := by
    intro name
    rw [himports]
  have hnames : t.lowering.SameNames t'.lowering := ⟨hresolve, harity⟩
  exact hnames.lower_eq params e

end ClassTable

/-! ## Signatures of constructors -/

/-- Parameters of the same names in scope. -/
def TypeParams.SameScope (params params' : TypeParams) : Prop :=
  ∀ name, (params'.get? name).isSome = (params.get? name).isSome

theorem TypeParams.sameScope_bound {names : List String} {types : List Ty}
    (hlength : names.length = types.length) :
    (TypeParams.unbound names).SameScope (TypeParams.bound names types) := by
  intro name
  have hunbound : ∀ (ps : TypeParams), (ps.pushUnbound names).map Prod.fst =
      names.reverse ++ ps.map Prod.fst := by
    unfold pushUnbound
    clear hlength
    induction names with
    | nil => exact fun _ => rfl
    | cons n rest ih => intro ps; rw [List.foldl_cons, ih]; simp
  have hbound : (bound names types).map Prod.fst = names.reverse := by
    unfold bound
    rw [List.map_reverse, List.map_map]
    exact congrArg List.reverse (List.map_fst_zip (Nat.le_of_eq hlength))
  have hiff : ((bound names types).get? name).isSome ↔ ((unbound names).get? name).isSome := by
    rw [get?, get?, isSome_lookup_iff, isSome_lookup_iff, hbound, unbound, hunbound]
    simp
  exact Bool.eq_iff_iff.mpr hiff

namespace LoweringContext

variable {ctx : LoweringContext} {params params' : TypeParams}

mutual

/-- Whether a written type lowers is a matter of the names in scope. -/
theorem exists_lower (hp : params.SameScope params') : ∀ {e : TypeExpr} {ty : Ty},
    ctx.lower params e = .ok ty → ∃ ty', ctx.lower params' e = .ok ty'
  | ⟨written, generics, span⟩, ty, h => by
    have hscope := hp written
    rw [lower] at h ⊢
    split at h
    · next hget =>
      rw [hget] at hscope
      obtain ⟨u, hu⟩ := Option.isSome_iff_exists.mp hscope
      split at h
      · next hempty => exact ⟨u, by rw [hu]; exact if_pos hempty⟩
      · cases h
    · next hget =>
      rw [hget] at hscope
      have hnone := Option.not_isSome_iff_eq_none.mp (by rw [hscope]; simp)
      rw [hnone]
      dsimp only
      split at h
      · cases h
      · split at h
        · cases h
        · next hargs =>
          obtain ⟨args', hargs'⟩ := exists_lowerAll hp hargs
          exact ⟨_, by rw [hargs']⟩

theorem exists_lowerAll (hp : params.SameScope params') : ∀ {es : List TypeExpr}
    {tys : List Ty}, ctx.lowerAll params es = .ok tys → ∃ tys', ctx.lowerAll params' es = .ok tys'
  | [], _, _ => ⟨[], by rw [lowerAll]⟩
  | e :: rest, tys, h => by
    rw [lowerAll] at h ⊢
    split at h
    · cases h
    · next he =>
      split at h
      · cases h
      · next hrest =>
        obtain ⟨u, hu⟩ := exists_lower hp he
        obtain ⟨us, hus⟩ := exists_lowerAll hp hrest
        exact ⟨u :: us, by rw [hu, hus]⟩

end

end LoweringContext

theorem ClassTable.sameScope_paramsFor (c : Template F) (args : List Ty) :
    (TypeParams.unbound c.generics).SameScope (paramsFor c args) := by
  unfold paramsFor
  split
  · next hlength => exact TypeParams.sameScope_bound hlength
  · exact fun _ => rfl

/-- A constructor that the checker has accepted has a signature in every instantiation. -/
theorem ConstructorDecl.exists_signature {t t' : ClassTable F} {cls : Template F}
    {k : ConstructorDecl} (h : k.check t cls = .ok ())
    (hlower : ∀ params e, t'.lower params e = t.lower params e) {params : TypeParams}
    (hp : (TypeParams.unbound cls.generics).SameScope params) (owner : String) :
    ∃ s, t'.signature (.ofConstructor owner k) params = .ok s := by
  obtain ⟨L, L', hL, -, -⟩ := ConstructorDecl.check_ok h
  rw [BodyContext.initialLocals_eq] at hL
  obtain ⟨qs, hqs⟩ := BodyContext.params_of_defineParameters hL
  have hparams : ∃ qs' : List Param, List.Forall₂ (fun e q => q.name = e.1 ∧
      t'.lower params e.2 = .ok q.ty) (Member.writtenParams k.parameters) qs' := by
    clear hL
    generalize Member.writtenParams k.parameters = es at hqs
    induction hqs with
    | nil => exact ⟨[], .nil⟩
    | @cons e q _ _ hq _ ih =>
      obtain ⟨qs', hqs'⟩ := ih
      obtain ⟨ty, hty⟩ := LoweringContext.exists_lower hp hq.2
      exact ⟨⟨e.1, ty⟩ :: qs', .cons ⟨rfl, (hlower params e.2).trans hty⟩ hqs'⟩
  obtain ⟨qs', hqs'⟩ := hparams
  exact ⟨_, ClassTable.signature_of_lowers (m := .ofConstructor owner k) hqs' .none⟩

/-! ## The classes of an analysed program -/

/-- The constructors of the standard library have no parameters, and the root class has none. -/
theorem NativeRegistry.constructors_standard : ∀ n ∈ standard.classes,
    (∀ m ∈ n.constructors, m.params.isEmpty = true ∧ m.returnType.isNone = true) ∧
      (n.fullName = Ty.objectName → n.constructors.isEmpty = true) := by
  decide +kernel

/-- A constructor that says nothing of the base of its class, or passes nothing on to it. -/
def Member.LeavesBase (m : Member F) : Prop :=
  ∃ body superArguments, m.body = .declared body superArguments ∧ superArguments.getD [] = []

/-- A class that leaves it to its base to be made without arguments. -/
def RuntimeClass.LeavesBase (c : RuntimeClass F) : Prop :=
  c.constructors = [] ∨ ∃ m ∈ c.constructors, m.LeavesBase

namespace ClassTable

/--
The constructors of all classes can be typed; and wherever a class leaves it to its base to be made
without arguments, these choose a constructor of the base.
-/
structure MakesBases (t : ClassTable F) : Prop where
  typed : ∀ {c : RuntimeClass F}, t.Offers c →
    ∃ cs, t.signatures c.params c.constructors = .ok cs
  bare : ∀ {c d : RuntimeClass F}, t.Offers c → c.base? = some d → c.LeavesBase →
    ChosenBare (Member.arities d.constructors)

theorem Offers.constructors_eq {t : ClassTable F} {c : RuntimeClass F} (h : t.Offers c) :
    c.constructors = [] ∨ t.Makes c ∧ c.constructors = c.own.template.constructors := by
  rcases h with hc | hc
  · exact .inr ⟨hc, by rw [RuntimeClass.constructors, hc.isStaticView_eq]; rfl⟩
  · exact .inl (by rw [RuntimeClass.constructors, hc.isStaticView_eq]; rfl)

/-- A class that leaves it to its base is declared so. -/
theorem leavesBase_of_declared {ctx : LoweringContext} {d : ClassDecl} {c : RuntimeClass F}
    (hmade : declaredTemplate ctx d = .ok c.own.template) (hstatic : c.isStaticView = false)
    (h : c.LeavesBase) : d.LeavesBase := by
  obtain ⟨_, _, -, -, htemplate⟩ := declaredTemplate_ok hmade
  unfold RuntimeClass.LeavesBase RuntimeClass.constructors at h
  rw [hstatic, htemplate] at h
  rcases h with hnone | ⟨m, hm, hleaves⟩
  · exact .inl (List.map_eq_nil_iff.mp hnone)
  · obtain ⟨k, hk, rfl⟩ := List.mem_map.mp hm
    obtain ⟨_, _, hbody, harguments⟩ := hleaves
    cases hbody
    exact .inr ⟨k, hk, harguments⟩

/-- The root class can be made without arguments. -/
theorem chosenBare_object {p : Program} {t : ClassTable StandardFn} (h : build p standard = .ok t)
    {c : Template StandardFn} (hc : t.get? Ty.objectName = some c) :
    ChosenBare (Member.arities c.constructors) := by
  obtain ⟨n, hn, ho⟩ := NativeRegistry.exists_of_outline
    (show (Ty.objectName, [], true, true) ∈ NativeRegistry.outlines by decide)
  have hfull : n.fullName = Ty.objectName := congrArg Prod.fst ho
  rw [← hfull, get?_standard h hn] at hc
  rw [← Option.some.inj hc]
  have hempty := (NativeRegistry.constructors_standard n hn).2 hfull
  exact .inl (by simp [NativeClass.template, Member.arities, List.isEmpty_iff.mp hempty])

section Analysed

variable {p : Program} {t t' : ClassTable StandardFn} (hcheck : p.check t = .ok ())
  (hheading : ∀ name, (t'.get? name).map Template.heading = (t.get? name).map Template.heading)

include hcheck hheading

/-- What the checker knows of a declared class. -/
theorem exists_checked {d : ClassDecl} (hd : d ∈ p.classes) {c : Template StandardFn}
    (hc : t'.get? d.name.name = some c) :
    ∃ cls, t.get? d.name.name = some cls ∧ cls.generics = c.generics ∧ d.check t = .ok () ∧
      ∀ k ∈ d.constructors, k.check t cls = .ok () := by
  have hd := forM_ok_iff.mp hcheck d hd
  obtain ⟨cls, hcls, -, hconstructors, -⟩ := ClassDecl.check_ok hd
  have hcls := template_ok_iff.mp hcls
  have hsame := hheading d.name.name
  rw [hc, hcls] at hsame
  exact ⟨cls, hcls, congrArg Prod.fst (Option.some.inj hsame).symm, hd, hconstructors⟩

variable (h : build p standard = .ok t')

include h

/-- Constructors have signatures in every instantiation of their class. -/
theorem exists_signature_constructor (himports : t'.imports = t.imports)
    {c : RuntimeClass StandardFn} (hc : t'.Makes c) {m : Member StandardFn}
    (hm : m ∈ c.own.template.constructors) : ∃ s, t'.signature m c.params = .ok s := by
  have hget := hc.get?
  obtain ⟨-, hparams⟩ := own_instantiation hc.instantiates
  rcases mem_classes_cases h (get?_mem hget) with ⟨q, hq⟩ | ⟨n, hn, hmade⟩ | ⟨d, hd, hmade⟩
  · rw [hq] at hm
    cases hm
  · rw [nativeTemplate_standard hn hmade] at hm
    obtain ⟨k, hk, rfl⟩ := List.mem_map.mp hm
    obtain ⟨hempty, hnone⟩ := (NativeRegistry.constructors_standard n hn).1 k hk
    have hparams : (Member.ofNative n.fullName k).params = [] := by
      show k.params.map _ = []
      rw [List.isEmpty_iff.mp hempty]
      rfl
    have hreturn : (Member.ofNative n.fullName k).returnType = none :=
      Option.isNone_iff_eq_none.mp hnone
    exact ⟨_, signature_of_lowers (by rw [hparams]; exact .nil) (by rw [hreturn]; exact .none)⟩
  · have hname : c.name = d.name.name :=
      (get?_name hget).symm.trans (name_declaredTemplate d _ hmade)
    obtain ⟨cls, -, hgenerics, -, hconstructors⟩ :=
      exists_checked hcheck hheading hd (hname ▸ hget)
    obtain ⟨base, fields, -, -, htemplate⟩ := declaredTemplate_ok hmade
    rw [htemplate] at hm
    obtain ⟨k, hk, rfl⟩ := List.mem_map.mp hm
    have hscope : (TypeParams.unbound cls.generics).SameScope c.params := by
      rw [hparams, hgenerics]
      exact sameScope_paramsFor _ _
    exact ConstructorDecl.exists_signature (hconstructors k hk)
      (lower_of_heading himports hheading) hscope _

/-- What a class leaves it to as its base can be made without arguments. -/
theorem chosenBare_of_leavesBase (hbases : t'.baseName? = t.baseName?)
    {c d : RuntimeClass StandardFn} (hc : t'.Offers c) (hd : c.base? = some d)
    (hleaves : c.LeavesBase) : ChosenBare (Member.arities d.constructors) := by
  have hoffers : t'.Offers d := hc.extends (.base hd (.refl _))
  rcases hoffers.constructors_eq with hnone | ⟨hmakes, hconstructors⟩
  · rw [hnone]
    exact .inl rfl
  rw [hconstructors]
  have hget := hc.get?
  have hgetBase := hoffers.get?
  have hname := hc.baseName?
  rw [hd, Option.map_some] at hname
  have hbase := hname
  rw [baseName?, hget, Option.bind_some] at hbase
  obtain ⟨base, hbase, hsame⟩ := Option.map_eq_some_iff.mp hbase
  rcases mem_classes_cases h (get?_mem hget) with ⟨q, hq⟩ | ⟨n, hn, hmade⟩ | ⟨k, hk, hmade⟩
  · rw [hq] at hbase
    cases hbase
    rw [← hsame] at hgetBase
    exact chosenBare_object h hgetBase
  · rw [nativeTemplate_standard hn hmade] at hbase
    rw [← hsame, NativeClass.base_template hbase] at hgetBase
    exact chosenBare_object h hgetBase
  · -- The checker has looked at the class, with a base of the same name and heading.
    have hclass : c.name = k.name.name :=
      (get?_name hget).symm.trans (name_declaredTemplate k _ hmade)
    obtain ⟨cls, hcls, -, hchecked, -⟩ := exists_checked hcheck hheading hk (hclass ▸ hget)
    have hstatic : c.isStaticView = false :=
      (RuntimeClass.base?_eq_some hd).1.symm.trans hmakes.isStaticView_eq
    have hdeclares := leavesBase_of_declared hmade hstatic hleaves
    rw [hbases, baseName?, hclass, hcls, Option.bind_some] at hname
    obtain ⟨base', hbase', hsame'⟩ := Option.map_eq_some_iff.mp hname
    obtain ⟨b, hb, hchosen⟩ := ClassDecl.chosenBare_of_check hchecked hdeclares hcls hbase'
    have hheadings := hheading d.name
    rw [hgetBase, ← hsame', hb] at hheadings
    have harities : Member.arities d.own.template.constructors = Member.arities b.constructors :=
      congrArg Prod.snd (Option.some.inj hheadings)
    rwa [harities]

end Analysed

/-- The base classes of an analysed program can be made as they are left to be. -/
theorem makesBases_of_analysed {p p' : Program} (hp : p.analyse standard = .ok p')
    {eng : Engine StandardFn} (hserves : eng.Serves p') : eng.table.MakesBases := by
  obtain ⟨t, p₁, hbuild, hexpand, rfl, -, -, hcheck⟩ :=
    Program.analyseFindings_ok (Program.analyse_ok_iff.mp hp)
  have h := hserves.build
  have hheading := heading_of_analysed hbuild hexpand h
  have halike := namesAlike_of_analysed hbuild hexpand h
  constructor
  case typed =>
    intro c hc
    rcases hc.constructors_eq with hnone | ⟨hmade, hconstructors⟩
    · exact ⟨[], by rw [hnone]; rfl⟩
    · rw [hconstructors]
      exact signatures_ok fun m hm =>
        exists_signature_constructor hcheck hheading h halike.imports hmade hm
  case bare =>
    intro c d hc hd hleaves
    exact chosenBare_of_leavesBase hcheck hheading h halike.bases hc hd hleaves

/-- A base class that is left to be made without arguments is made by one of its constructors. -/
theorem MakesBases.exists_resolution {t : ClassTable F} (ht : t.MakesBases) {c d : RuntimeClass F}
    (hc : t.Offers c) (hd : c.base? = some d) (hleaves : c.LeavesBase) :
    ∃ r, t.runtimeMembers.resolveConstructor t d [] = .ok r ∧ r.Selects := by
  obtain ⟨cs, hcs⟩ := ht.typed (hc.extends (.base hd (.refl _)))
  have hsrc : t.runtimeMembers.constructors d = t.signatures d.params d.constructors := rfl
  obtain ⟨r, hr, hiff⟩ := MemberSource.selects_iff hsrc hcs
  exact ⟨r, hr, hiff.mpr (ht.bare hc hd hleaves)⟩

end ClassTable

/-- A class that is made by a default constructor has none of its own. -/
theorem ClassTable.constructors_of_default {t : ClassTable F} {c : RuntimeClass F} {args : List Ty}
    (h : t.runtimeMembers.resolveConstructor t c args = .ok .defaultConstructor) :
    c.constructors = [] := by
  rw [MemberSource.resolveConstructor] at h
  split at h
  · cases h
  · next cs hcs =>
    split at h
    · next hempty =>
      rw [Bool.and_eq_true, List.isEmpty_iff] at hempty
      have hlength := (signatures_ok_iff.mp hcs).length_eq
      rw [hempty.1] at hlength
      exact List.length_eq_zero_iff.mp hlength
    · dsimp only at h
      split at h <;> cases h

/-! ## Runs -/

/-- An activity in which a class leaves it to its base to be made without arguments. -/
def Activity.LeavesBase : Activity F → Prop
  | constructors _ _ _ _ _ _ => True
  | constructor s _ _ _ _ _ => s.member.LeavesBase
  | _ => False

/-- An activity that leaves it to a base class leads to that class, and passes nothing on. -/
theorem Leads.base_of_leavesBase {eng : Engine StandardFn} {strict : Prop}
    {M N : Moment StandardFn} (hstep : Leads eng M N) (hM : M.Sound eng.table strict)
    (hleaves : M.activity.LeavesBase) {o : ObjectRef StandardFn} {isStaticView : Bool}
    {layer : Layer StandardFn} {rest : List (Layer StandardFn)}
    {args : List (Variable StandardFn)} {argTypes : List Ty} {span : Span}
    (hN : N.activity = .constructors o isStaticView (layer :: rest) args argTypes span) :
    args = [] ∧ argTypes = [] ∧ ∃ c, eng.table.Offers c ∧
      c.base? = some ⟨isStaticView, layer, rest⟩ ∧ c.LeavesBase := by
  obtain ⟨⟨W, hm, hvalid⟩, hfit⟩ := hM
  cases hstep with
  | defaultConstructor hresolve =>
    cases hN
    have hinit := hvalid.2.2 _ _ rfl
    exact ⟨rfl, rfl, _, ((hm.creates hinit.object).extends hinit.chain).offers, rfl,
      .inl (ClassTable.constructors_of_default hresolve)⟩
  | baseConstructors hbody hrest hbind heval =>
    obtain ⟨body, superArguments, hbody', hnil⟩ := hleaves
    cases hbody.symm.trans hbody'
    rw [hnil] at heval hN
    cases heval
    cases hN
    obtain ⟨-, ⟨layer', howner⟩, hmember⟩ := hfit
    refine ⟨rfl, rfl, _, hvalid.1.selected.owner, ?_, .inr ⟨_, hmember, _, _, hbody', hnil⟩⟩
    rw [howner]
    rfl
  | _ => first | (cases hN; done) | exact hleaves.elim

/--
Implicit construction of a base class always resolves. Whenever, in whatever a host does with an
engine of an analysed program, a class without constructors, or a constructor that says nothing of
the base of its class or passes nothing on to it, leaves it to a base class to be made, that class
is asked for a constructor without arguments; and there is one to be found, or it needs none. So
there is no missing member and no ambiguous one, and no type in a signature stands in the way.
-/
theorem base_construction_resolves {p p' : Program} (hp : p.analyse standard = .ok p')
    {eng : Engine StandardFn} (hserves : eng.Serves p') {given : List (ObjectRef StandardFn)}
    {m : Machine StandardFn} (hist : History eng False given m) {op : HostOperation StandardFn}
    (hop : op.Allowed eng.table False given) {M N : Moment StandardFn}
    (hreach : Reaches eng ⟨eng.budget, .operation op, m⟩ M) (hstep : Leads eng M N)
    (hleaves : M.activity.LeavesBase) {o : ObjectRef StandardFn} {isStaticView : Bool}
    {layer : Layer StandardFn} {rest : List (Layer StandardFn)}
    {args : List (Variable StandardFn)} {argTypes : List Ty} {span : Span}
    (hN : N.activity = .constructors o isStaticView (layer :: rest) args argTypes span) :
    args = [] ∧ argTypes = [] ∧ ∃ r, eng.table.runtimeMembers.resolveConstructor eng.table
      ⟨isStaticView, layer, rest⟩ argTypes = .ok r ∧ r.Selects := by
  obtain ⟨W, -, hm, hgiven⟩ := hist.valid hserves.build
  have hstart : Moment.Sound ⟨eng.budget, .operation op, m⟩ eng.table False :=
    ⟨⟨W, hm, ⟨given, hgiven, hop⟩, fun hf => hf.elim⟩, trivial⟩
  have hM := hreach.sound hserves.build hstart
  obtain ⟨rfl, rfl, c, hc, hd, hclass⟩ := hstep.base_of_leavesBase hM hleaves hN
  have hbases := ClassTable.makesBases_of_analysed hp hserves
  exact ⟨rfl, rfl, hbases.exists_resolution hc hd hclass⟩

/-! ## A chain of base classes -/

/-- The moment at which the making of an object comes to its next constructor. -/
def Moment.nextConstructor? [HostFunctions F] (eng : Engine F) : Moment F → Option (Moment F)
  | ⟨_, .operation (.construct c args span), m⟩ =>
    some ⟨eng.budget, .construction c args (declaredTypes args) span, m⟩
  | ⟨n + 1, .construction c args argTypes span, m⟩ =>
    match eng.allocate c span m with
    | .ok o m₁ => some ⟨n, .constructors o c.isStaticView c.layers args argTypes span, m₁⟩
    | .error _ _ => none
  | ⟨n, .constructors o isStaticView (layer :: rest) args argTypes span, m⟩ =>
    match eng.table.runtimeMembers.resolveConstructor eng.table ⟨isStaticView, layer, rest⟩
      argTypes with
    | .ok (.found s) => some ⟨n, .constructor s o isStaticView rest args span, m⟩
    | .ok .defaultConstructor => some ⟨n, .constructors o isStaticView rest [] [] span, m⟩
    | _ => none
  | ⟨n, .constructor s o isStaticView (layer :: rest) args span, m⟩ =>
    match s.member.body, eng.bindParameters (Bindings.complete [] s.signature) span
      s.signature.params args (eng.enterConstructor s o span m) with
    | .declared _ superArguments, .ok _ m₁ =>
      match eng.evalAll (.atDepth eng n) (superArguments.getD []) m₁ with
      | .ok superArgs m₂ => some ⟨n, .constructors o isStaticView (layer :: rest) superArgs
          (argumentTypes (superArguments.getD []) superArgs) s.member.span, m₂⟩
      | .error _ _ => none
    | _, _ => none
  | _ => none

theorem Moment.leads_of_nextConstructor? [HostFunctions F] {eng : Engine F} {M N : Moment F}
    (h : M.nextConstructor? eng = some N) : Leads eng M N := by
  unfold nextConstructor? at h
  split at h
  · cases h
    exact .construct
  · split at h
    · next hallocate =>
      cases h
      exact .construction hallocate
    · cases h
  · split at h
    · next hfound =>
      cases h
      exact .constructor hfound
    · next hdefault =>
      cases h
      exact .defaultConstructor hdefault
    · cases h
  · split at h
    · next hbody hbind =>
      split at h
      · next heval =>
        cases h
        exact .baseConstructors hbody (List.cons_ne_nil _ _) hbind heval
      · cases h
    · cases h
  · cases h

/-- The moment at which the making of an object comes to one of its constructors. -/
def Moment.laterConstructor? [HostFunctions F] (eng : Engine F) : Nat → Moment F → Option (Moment F)
  | 0, M => some M
  | k + 1, M => (M.nextConstructor? eng).bind (laterConstructor? eng k)

theorem Moment.reaches_of_laterConstructor? [HostFunctions F] {eng : Engine F} {N : Moment F} :
    ∀ {k : Nat} {M : Moment F}, M.laterConstructor? eng k = some N → Reaches eng M N
  | 0, M, h => by
    cases h
    exact .refl
  | k + 1, M, h => by
    obtain ⟨M', hM, h⟩ := Option.bind_eq_some_iff.mp h
    exact (Relation.ReflTransGen.single (leads_of_nextConstructor? hM)).trans
      (reaches_of_laterConstructor? h)

open Build in
/--
A leaf has no constructor, and of the constructors of a branch the one without parameters says
nothing of the list that a branch is.
-/
def leafProgram : Program :=
  program
    [{ name := ident "Leaf", base := some (ty "Branch<String>") },
     { name := ident "Branch", generics := [ident "T"], base := some (ty "List<T>"),
       fields := [field "T" "bud"],
       constructors := [constructor [param "T" "x"] [assign "bud" (var "x")], constructor [] []] },
     { name := ident "Main", methods := [mainMethod []] }] [importPath "java.util.*"]

/-- The start of a leaf, with nothing in the machine. -/
def Engine.leafStart (eng : Engine StandardFn) (c : RuntimeClass StandardFn) : Moment StandardFn :=
  ⟨eng.budget, .operation (.construct c [] {}), {}⟩

/-- Whether a leaf comes to the constructor of a branch, and from there to those of a list. -/
def Engine.branches (eng : Engine StandardFn) : Bool :=
  match eng.table.classFor (.named "Leaf") {} with
  | .error _ => false
  | .ok c =>
    match (eng.leafStart c).laterConstructor? eng 4 with
    | some M =>
      match M.activity, M.nextConstructor? eng with
      | .constructor s _ _ _ _ _, some ⟨_, .constructors _ false (layer :: _) _ _ _, _⟩ =>
        layer.ty.name == Ty.listName && match s.member.body with
          | .declared _ superArguments => (superArguments.getD []).isEmpty
          | .native _ => false
      | _, _ => false
    | none => false

theorem base_construction_resolves_leaf : ∃ p' eng c M N o layer rest args argTypes span,
    leafProgram.analyse standard = .ok p' ∧ Engine.new p' standard = .ok eng ∧
    Reaches eng (eng.leafStart c) M ∧ Leads eng M N ∧ M.activity.LeavesBase ∧
    N.activity = .constructors o false (layer :: rest) args argTypes span ∧
    layer.ty.name = Ty.listName ∧ args = [] ∧ argTypes = [] ∧
    ∃ r, eng.table.runtimeMembers.resolveConstructor eng.table ⟨false, layer, rest⟩ argTypes =
      .ok r ∧ r.Selects := by
  have hlaunches : leafProgram.launches (fun _ => false) Engine.branches = true := by
    decide +kernel
  obtain ⟨p', eng, hanalyse, hnew, hbranches⟩ := Program.passes_of_launches hlaunches
  unfold Engine.branches at hbranches
  split at hbranches
  · cases hbranches
  · next c hclass =>
    have hcreates : eng.table.Creates False c := .inl ⟨_, (ClassTable.classFor_ok hclass).1⟩
    have hop : (HostOperation.construct c [] {}).Allowed eng.table False [] :=
      ⟨hcreates, fun _ hv => absurd hv List.not_mem_nil⟩
    split at hbranches
    · next M hM =>
      split at hbranches
      · next s o v rest args span n o' layer rest' args' argTypes span' m hactivity hN =>
        rw [Bool.and_eq_true] at hbranches
        obtain ⟨hname, hbody⟩ := hbranches
        have hleaves : M.activity.LeavesBase := by
          rw [hactivity]
          split at hbody
          · next body superArguments hdeclared =>
            exact ⟨_, _, hdeclared, List.isEmpty_iff.mp hbody⟩
          · cases hbody
        have hreach := Moment.reaches_of_laterConstructor? hM
        have hstep := Moment.leads_of_nextConstructor? hN
        obtain ⟨hargs, htypes, hresolves⟩ := base_construction_resolves hanalyse ⟨eng, hnew, rfl⟩
          (.fresh : History eng False [] {}) hop hreach hstep hleaves rfl
        exact ⟨p', eng, c, M, _, o', layer, rest', args', argTypes, span', hanalyse, hnew, hreach,
          hstep, hleaves, rfl, beq_iff_eq.mp hname, hargs, htypes, hresolves⟩
      · cases hbranches
    · cases hbranches

end Middleweight
