import Middleweight.Proofs.Objects.Regular
import Middleweight.Proofs.Soundness.Runs

/-!
# Signatures of members

In a well-typed program every member has a signature, whichever class it is called on: those of
declared members have been lowered by the checker, those of the library name classes that every
table has, and in a list also the parameter of the list. Nothing in such a signature is unbound, so
a call binds no types, and whether arguments fit is a matter of the parameters one by one.

* `Signature.Settled.applicable_iff` : arguments that a signature is applicable to
* `Program.WellTyped.exists_signature` : every member has a signature
* `Program.WellTyped.exists_listType` : the types of members of lists
-/

namespace Middleweight

open NativeRegistry (standard)

variable {F : Type}

/-! ## Types in which nothing is unbound -/

mutual

/-- Where nothing is unbound, putting bindings in resolves a type. -/
theorem Ty.substitute_of_concrete (b : Bindings) : ∀ {ty : Ty}, ty.firstUnbound? = none →
    ty.substitute b = ty.resolved
  | .cls n args, h => by
    rw [Ty.firstUnbound?] at h
    rw [Ty.substitute, Ty.resolved, Ty.substituteAll_of_concrete b h]
  | .unbound n, h => by
    rw [Ty.firstUnbound?] at h
    cases h
  | .bound n ty, h => by
    rw [Ty.firstUnbound?] at h
    rw [Ty.substitute, Ty.resolved, Ty.substitute_of_concrete b h]

theorem Ty.substituteAll_of_concrete (b : Bindings) : ∀ {tys : List Ty},
    Ty.firstUnboundIn? tys = none → Ty.substituteAll b tys = Ty.resolvedAll tys
  | [], _ => by rw [Ty.substituteAll, Ty.resolvedAll]
  | ty :: rest, h => by
    rw [Ty.firstUnboundIn?, Option.orElse_eq_orElse, Option.orElse_eq_or,
      Option.or_eq_none_iff] at h
    rw [Ty.substituteAll, Ty.resolvedAll, Ty.substitute_of_concrete b h.1,
      Ty.substituteAll_of_concrete b h.2]

end

mutual

theorem Bindings.fill_of_concrete : ∀ {formal : Ty} (actual : Ty), formal.firstUnbound? = none →
    Bindings.fill formal actual = []
  | .cls n formals, actual, h => by
    rw [Ty.firstUnbound?] at h
    rw [Bindings.fill]
    split
    · exact Bindings.fillAll_of_concrete _ h
    · rfl
  | .unbound n, _, h => by
    rw [Ty.firstUnbound?] at h
    cases h
  | .bound _ _, _, _ => by rw [Bindings.fill]

theorem Bindings.fillAll_of_concrete : ∀ {formals : List Ty} (actuals : List Ty),
    Ty.firstUnboundIn? formals = none → Bindings.fillAll formals actuals = []
  | [], actuals, _ => by rw [Bindings.fillAll]; simp
  | _ :: _, [], _ => by rw [Bindings.fillAll]; simp
  | formal :: formals, actual :: actuals, h => by
    rw [Ty.firstUnboundIn?, Option.orElse_eq_orElse, Option.orElse_eq_or,
      Option.or_eq_none_iff] at h
    rw [Bindings.fillAll, Bindings.fill_of_concrete actual h.1,
      Bindings.fillAll_of_concrete actuals h.2]
    rfl

end

namespace ClassTable

variable {t : ClassTable F}

mutual

/-- The parameters in a target may be resolved. -/
theorem check_target : ∀ (candidate target : Ty),
    t.check candidate target.resolved = t.check candidate target
  | _, .unbound _ => by rw [Ty.resolved]
  | candidate, .bound _ ty => by
    rw [Ty.resolved, check]
    exact check_target candidate ty
  | candidate, .cls name args => by
    rw [Ty.resolved, check, check]
    split
    · rw [checkAll_targets _ args]
    · rfl

theorem checkAll_targets : ∀ (candidates targets : List Ty),
    t.checkAll candidates (Ty.resolvedAll targets) = t.checkAll candidates targets
  | [], us => by rw [checkAll_nil_left, checkAll_nil_left]
  | c :: cs, [] => by rw [Ty.resolvedAll]
  | c :: cs, u :: us => by
    rw [Ty.resolvedAll, checkAll, checkAll, check_target c u, checkAll_targets cs us]

end

end ClassTable

theorem Ty.concrete_of_formed {arity : String → Option Nat} {ty : Ty}
    (h : ty.resolved.Formed arity []) : ty.firstUnbound? = none := by
  rw [← Ty.firstUnbound?_resolved]
  exact Ty.firstUnbound?_of_isGround h.isGround

/-! ## Signatures -/

/-- A signature without generic parameters, whose types resolve to formed ones. -/
structure Signature.Settled (t : ClassTable F) (s : Signature) : Prop where
  generics : s.generics = []
  params : ∀ q ∈ s.params, q.ty.resolved.Formed t.arity? []
  returnType : ∀ ty ∈ s.returnType, ty.resolved.Formed t.arity? []

namespace Signature.Settled

variable {t : ClassTable F} {s : Signature} (h : s.Settled t)

include h

theorem concrete_params : Ty.firstUnboundIn? s.paramTypes = none := by
  have hall := h.params
  unfold Signature.paramTypes
  generalize s.params = qs at hall
  induction qs with
  | nil => rfl
  | cons q qs ih =>
    obtain ⟨hq, hqs⟩ := List.forall_mem_cons.mp hall
    rw [List.map_cons, Ty.firstUnboundIn?, Ty.concrete_of_formed hq, ih hqs]
    rfl

/-- A signature is applicable to arguments that fit its parameters, and then binds nothing. -/
theorem applicable_iff {args : List Ty} {b : Bindings} : t.applicable s args = some b ↔
    b = [] ∧ List.Forall₂ (fun a q => t.check a q.ty.resolved = true) args s.params := by
  have hinfer : Bindings.infer s.paramTypes args = [] := by
    rw [Bindings.infer, Bindings.fillAll_of_concrete args h.concrete_params]
    rfl
  have hall : ∀ {args : List Ty} {qs : List Param},
      ((qs.map Param.ty).length = args.length ∧ t.checkAll args (qs.map Param.ty) = true) ↔
        List.Forall₂ (fun a q => t.check a q.ty.resolved = true) args qs := by
    intro args
    induction args with
    | nil => intro qs; cases qs <;> simp
    | cons a as ih =>
      intro qs
      cases qs with
      | nil => simp
      | cons q qs =>
        rw [List.forall₂_cons, ← ih, List.map_cons, ClassTable.checkAll, ClassTable.check_target]
        simp only [List.length_cons, Nat.add_right_cancel_iff, Bool.and_eq_true]
        exact and_left_comm
  unfold ClassTable.applicable
  dsimp only
  rw [hinfer, Ty.substituteAll_of_concrete [] h.concrete_params, ClassTable.checkAll_targets,
    ← hall]
  unfold Signature.paramTypes
  by_cases hfits : (s.params.map Param.ty).length = args.length ∧
      t.checkAll args (s.params.map Param.ty) = true
  · simp [hfits, eq_comm]
  · rw [if_neg (by simpa using hfits)]
    exact ⟨fun hb => (by cases hb), fun hb => absurd hb.2 hfits⟩

theorem forall₂_of_applicable {args : List Ty} {b : Bindings}
    (happ : t.applicable s args = some b) :
    List.Forall₂ (fun a q => t.check a q.ty.resolved = true) args s.params :=
  (h.applicable_iff.mp happ).2

end Signature.Settled

/-- Where no parameter is in scope, a written type lowers to a formed one. -/
theorem ClassTable.formed_of_lower {t : ClassTable F} {e : TypeExpr} {ty : Ty}
    (h : t.lower [] e = .ok ty) : ty.Formed t.arity? [] := by
  have hunbound : t.lowering.lower (TypeParams.unbound []) e = .ok ty := h
  exact LoweringContext.formed_lower hunbound

/-- Where no parameter is in scope, the types in a signature are formed. -/
theorem ClassTable.formed_signature {t : ClassTable F} {m : Member F} {params : TypeParams}
    {s : Signature} (h : t.signature m params = .ok s) (hp : memberParams m params = []) :
    (∀ q ∈ s.params, q.ty.Formed t.arity? []) ∧ ∀ ty ∈ s.returnType, ty.Formed t.arity? [] := by
  obtain ⟨hparams, hreturn⟩ := signature_lowers h
  have hformed : ∀ {e : TypeExpr} {ty : Ty}, t.lower (memberParams m params) e = .ok ty →
      ty.Formed t.arity? [] := by
    intro e ty hlower
    rw [hp] at hlower
    exact formed_of_lower hlower
  refine ⟨fun q hq => ?_, fun ty hty => ?_⟩
  · obtain ⟨e, -, he⟩ := exists_of_forall₂_mem hparams hq
    exact hformed he.2
  · rcases rel_elim hreturn with ⟨-, hnone⟩ | ⟨e, ty', -, hsome, hlower⟩
    · cases hnone.symm.trans hty
    · cases hsome.symm.trans hty
      exact hformed hlower

/-- A member without generic parameters has a settled signature where none is in scope. -/
theorem ClassTable.settled_signature {t : ClassTable F} {m : Member F} {params : TypeParams}
    {s : Signature} (h : t.signature m params = .ok s) (hg : m.generics = [])
    (hp : memberParams m params = []) : s.Settled t := by
  obtain ⟨hparams, hreturn⟩ := formed_signature h hp
  have hresolved : ∀ {ty : Ty}, ty.Formed t.arity? [] → ty.resolved.Formed t.arity? [] := by
    intro ty hty
    rwa [Ty.resolved_of_isGround hty.isGround]
  exact ⟨(signature_ok h).2.2.trans hg, fun q hq => hresolved (hparams q hq),
    fun ty hty => hresolved (hreturn ty hty)⟩

/-! ## What the checker has made sure of -/

/-- What a body is checked against where no parameter is in scope. -/
def BodyContext.ofClass (t : ClassTable F) (cls : Template F) (this? : Option ClassTy)
    (returnType : Option Ty) : BodyContext F :=
  { table := t, cls, params := [], this?, returnType }

theorem MethodDecl.IsMonomorphic.typeParams_eq {m : MethodDecl} (hm : m.IsMonomorphic)
    {cls : Template F} (hcls : cls.generics = []) : m.typeParams cls = [] := by
  rw [MethodDecl.typeParams, hcls, hm.generics]
  cases m.isStatic <;> rfl

/-- The context of a method without generic parameters. -/
theorem MethodDecl.IsMonomorphic.context_eq {m : MethodDecl} (hm : m.IsMonomorphic)
    {t : ClassTable F} {cls : Template F} (hcls : cls.generics = []) (rt : Option Ty) :
    m.context t cls rt =
      BodyContext.ofClass t cls (if m.isStatic then none else some cls.selfType) rt := by
  rw [MethodDecl.context, BodyContext.ofClass, hm.typeParams_eq hcls]

/-- The parts of the check of a method without generic parameters. -/
theorem MethodDecl.IsMonomorphic.check_ok {m : MethodDecl} (hm : m.IsMonomorphic)
    {t : ClassTable F} {cls : Template F} (hcls : cls.generics = [])
    (h : MethodDecl.check t cls m = .ok ()) :
    ∃ rt L L', m.loweredReturn t [] = .ok rt ∧
      (BodyContext.ofClass t cls (if m.isStatic then none else some cls.selfType) rt).initialLocals
        m.parameters = .ok L ∧
      (BodyContext.ofClass t cls (if m.isStatic then none else some cls.selfType) rt).statements L
        m.body = .ok L' ∧
      (rt.isSome = true → m.body.any Stmt.isReturn = true) := by
  obtain ⟨rt, L, L', hrt, hL, hL', hreturns⟩ := MethodDecl.check_ok h
  rw [hm.typeParams_eq hcls] at hrt
  rw [hm.context_eq hcls] at hL hL'
  exact ⟨rt, L, L', hrt, hL, hL', hreturns⟩

/-- The context of a constructor of a class without generic parameters. -/
theorem Template.constructorContext_eq {t : ClassTable F} {cls : Template F}
    (hcls : cls.generics = []) :
    cls.constructorContext t = BodyContext.ofClass t cls (some cls.selfType) none := by
  unfold Template.constructorContext BodyContext.ofClass
  rw [hcls]
  rfl

namespace Program.WellTyped

variable {p : Program} {t : ClassTable StandardFn} (h : p.WellTyped t)

include h

theorem get?_of_declared {d : ClassDecl} (hd : d ∈ p.classes) :
    ∃ c, t.get? d.name.name = some c ∧ c.name = d.name.name ∧ c.generics = [] ∧
      c.isDeclared = true ∧ c.methods = d.methods.map (Member.ofMethod d.name.name) ∧
      c.constructors = d.constructors.map (Member.ofConstructor d.name.name) := by
  obtain ⟨c, hmade, hc⟩ := ClassTable.get?_declared h.build hd
  obtain ⟨base, fields, -, -, rfl⟩ := ClassTable.declaredTemplate_ok hmade
  refine ⟨_, hc, rfl, ?_, rfl, rfl, rfl⟩
  show d.generics.map Identifier.name = []
  rw [(h.monomorphic.classes d hd).generics]
  rfl

theorem check_members {d : ClassDecl} (hd : d ∈ p.classes) {cls : Template StandardFn}
    (hcls : t.get? d.name.name = some cls) :
    (∀ k ∈ d.constructors, ConstructorDecl.check t cls k = .ok ()) ∧
      ∀ m ∈ d.methods, MethodDecl.check t cls m = .ok () := by
  obtain ⟨cls', hcls', -, hmembers⟩ := ClassDecl.check_ok (forM_ok_iff.mp h.check d hd)
  cases hcls.symm.trans (ClassTable.template_ok_iff.mp hcls')
  exact hmembers

/-- A member of a class is one of the library or one that the program declares. -/
theorem member_cases {name : String} {c : Template StandardFn} (hc : t.get? name = some c)
    {m : Member StandardFn} (hm : m ∈ c.methods ∨ m ∈ c.constructors) :
    (∃ n ∈ standard.classes, c = n.template ∧ n.fullName = name ∧
      ∃ m', (m' ∈ n.methods ∨ m' ∈ n.constructors) ∧ m = .ofNative n.fullName m') ∨
    ∃ d ∈ p.classes, d.name.name = name ∧
      ((∃ m' ∈ d.methods, m = .ofMethod name m') ∨
        ∃ k ∈ d.constructors, m = .ofConstructor name k) := by
  have hname := ClassTable.get?_name hc
  rcases ClassTable.mem_classes_cases h.build (ClassTable.get?_mem hc) with
    ⟨q, rfl⟩ | ⟨n, hn, hmade⟩ | ⟨d, hd, hmade⟩
  · rcases hm with hm | hm <;> cases hm
  · obtain rfl := ClassTable.nativeTemplate_standard hn hmade
    refine .inl ⟨n, hn, rfl, hname, ?_⟩
    rcases hm with hm | hm
    · obtain ⟨m', hm', rfl⟩ := List.mem_map.mp hm
      exact ⟨m', .inl hm', rfl⟩
    · obtain ⟨m', hm', rfl⟩ := List.mem_map.mp hm
      exact ⟨m', .inr hm', rfl⟩
  · obtain ⟨base, fields, -, -, rfl⟩ := ClassTable.declaredTemplate_ok hmade
    refine .inr ⟨d, hd, hname, ?_⟩
    have hname : d.name.name = name := hname
    rcases hm with hm | hm
    · obtain ⟨m', hm', rfl⟩ := List.mem_map.mp hm
      exact .inl ⟨m', hm', by rw [hname]⟩
    · obtain ⟨k, hk, rfl⟩ := List.mem_map.mp hm
      exact .inr ⟨k, hk, by rw [hname]⟩

end Program.WellTyped

/-! ## Signatures of the library -/

/-- The names of the classes without parameters that signatures of the library mention. -/
def Ty.basicNames : List String :=
  [intName, floatName, booleanName, stringName, objectName, printStreamName]

/-- Whether a written type is a class without parameters that signatures of the library mention. -/
def TypeExpr.isBasic (e : TypeExpr) : Bool := e.generics.isEmpty && Ty.basicNames.contains e.name

/-- Whether a written type is the parameter of lists. -/
def TypeExpr.isItem (e : TypeExpr) : Bool := e.generics.isEmpty && e.name == "E"

/-- Whether a written type is the type of lists of the same items. -/
def TypeExpr.isSelf (e : TypeExpr) : Bool :=
  e.name == Ty.listName &&
    match e.generics with
    | [item] => item.isItem
    | _ => false

theorem NativeRegistry.types_standard : ∀ n ∈ standard.classes, ∀ m ∈ n.methods ++ n.constructors,
    (m.isStatic = true → n.generics = []) ∧
      ∀ e ∈ m.params.map Prod.fst ++ m.returnType.toList,
        e.isBasic = true ∨ n.generics ≠ [] ∧ (e.isItem = true ∨ e.isSelf = true) := by
  decide +kernel

namespace Program.WellTyped

variable {p : Program} {t : ClassTable StandardFn} (h : p.WellTyped t)

include h

/-- A class that the library mentions is known by its full name. -/
theorem lower_basic {e : TypeExpr} (he : e.isBasic = true) {params : TypeParams}
    (hparams : params.get? e.name = none) :
    t.lower params e = .ok (.named e.name) ∧ (Ty.named e.name).Formed t.arity? [] := by
  obtain ⟨name, generics, span⟩ := e
  rw [TypeExpr.isBasic, Bool.and_eq_true, List.isEmpty_iff, List.contains_iff_mem] at he
  obtain ⟨rfl, hname⟩ := he
  have hcases : ∀ a ∈ Ty.basicNames, (∃ q ∈ Primitive.all, a = q.name) ∨
      ∃ n ∈ standard.classes, n.fullName = a ∧ n.generics = [] := by decide +kernel
  obtain ⟨c, hresolve, hc, hg⟩ : ∃ c, t.imports.resolve? name = some name ∧
      t.get? name = some c ∧ c.generics = [] := by
    rcases hcases name hname with ⟨q, -, rfl⟩ | ⟨n, hn, rfl, hg⟩
    · exact ⟨_, ImportTable.resolve?_primitive (ClassTable.imports_of_build h.build)
        NativeRegistry.standard_wellNamed.leavesPrimitives q,
        ClassTable.get?_primitive_standard h.build q, rfl⟩
    · exact ⟨_, ImportTable.resolve?_native (ClassTable.imports_of_build h.build) hn,
        ClassTable.get?_standard h.build hn, hg⟩
  refine ⟨?_, formed_named hc hg⟩
  have hclass : t.lowering.className ⟨name, [], span⟩ = .ok name := by
    simp [LoweringContext.className, ClassTable.lowering, hresolve, ClassTable.arity?, hc, hg]
  rw [ClassTable.lower, LoweringContext.lower_eq_lowerClass _ hparams, LoweringContext.lowerClass,
    hclass]
  rfl

/-- Lists have one parameter. -/
theorem arity?_list : t.arity? Ty.listName = some 1 := by
  obtain ⟨n, hn, hname, hg⟩ := NativeRegistry.exists_list
  rw [ClassTable.arity?, ← hname, ClassTable.get?_standard h.build hn]
  exact congrArg (fun generics : List String => some generics.length) hg

theorem formed_list {e : Ty} (he : e.Formed t.arity? []) :
    (Ty.cls Ty.listName [e]).Formed t.arity? [] :=
  Ty.formed_cls.mpr ⟨h.arity?_list, Ty.allFormed_cons.mpr ⟨he, Ty.allFormed_nil⟩⟩

theorem check_list {a b : Ty} (ha : a.Formed t.arity? []) (hab : t.check a b = true) :
    t.check (.cls Ty.listName [a]) (.cls Ty.listName [b]) = true := by
  refine (h.check_iff (h.formed_list ha)).mpr ⟨t.related_self _, ?_⟩
  rw [ClassTable.checkAll, hab, Bool.true_and, t.checkAll_nil]

omit h in
/-- In the signatures of lists only `E` is a parameter. -/
theorem get?_listParams (item : Ty) {name : String} (hne : name ≠ "E") :
    (TypeParams.bound ["E"] [item]).get? name = none := by
  show List.lookup name [("E", Ty.bound "E" item)] = none
  rw [List.lookup_cons, beq_false_of_ne hne]
  rfl

omit h in
theorem resolved_item {item : Ty} (hitem : item.Formed t.arity? []) :
    (Ty.bound "E" item).resolved = item := by
  rw [Ty.resolved, Ty.resolved_of_isGround hitem.isGround]

theorem lower_basic_list {e : TypeExpr} (he : e.isBasic = true) (item : Ty) :
    t.lower (TypeParams.bound ["E"] [item]) e = .ok (.named e.name) ∧
      (Ty.named e.name).Formed t.arity? [] := by
  have hne : e.name ≠ "E" := by
    intro heq
    rw [TypeExpr.isBasic, heq, show Ty.basicNames.contains "E" = false by decide,
      Bool.and_false] at he
    cases he
  exact h.lower_basic he (get?_listParams item hne)

omit h in
/-- The type of items, as a signature of lists writes it. -/
theorem lower_item {e : TypeExpr} (he : e.isItem = true) (item : Ty) :
    t.lower (TypeParams.bound ["E"] [item]) e = .ok (.bound "E" item) := by
  obtain ⟨name, generics, span⟩ := e
  rw [TypeExpr.isItem, Bool.and_eq_true, List.isEmpty_iff, beq_iff_eq] at he
  obtain ⟨rfl, rfl⟩ := he
  have hget : (TypeParams.bound ["E"] [item]).get? "E" = some (.bound "E" item) := rfl
  rw [ClassTable.lower, LoweringContext.lower, hget]
  rfl

/-- The type of lists of the same items, as a signature of lists writes it. -/
theorem lower_self {e : TypeExpr} (he : e.isSelf = true) (item : Ty) :
    t.lower (TypeParams.bound ["E"] [item]) e = .ok (.cls Ty.listName [.bound "E" item]) := by
  obtain ⟨name, generics, span⟩ := e
  rw [TypeExpr.isSelf, Bool.and_eq_true, beq_iff_eq] at he
  obtain ⟨rfl, he⟩ := he
  obtain ⟨e, rfl, hi⟩ : ∃ e, generics = [e] ∧ e.isItem = true := by
    dsimp only at he
    split at he
    · exact ⟨_, rfl, he⟩
    · cases he
  have hclass : t.lowering.className ⟨Ty.listName, [e], span⟩ = .ok Ty.listName := by
    obtain ⟨n, hn, hname, -⟩ := NativeRegistry.exists_list
    have hresolve := ImportTable.resolve?_native (ClassTable.imports_of_build h.build) hn
    rw [hname] at hresolve
    simp [LoweringContext.className, ClassTable.lowering, hresolve, h.arity?_list]
  have hitem : t.lower (TypeParams.bound ["E"] [item]) e = .ok (.bound "E" item) :=
    lower_item hi item
  have hne : Ty.listName ≠ "E" := by decide
  rw [ClassTable.lower] at hitem ⊢
  rw [LoweringContext.lower_eq_lowerClass _ (get?_listParams item hne), LoweringContext.lowerClass,
    hclass]
  simp only [LoweringContext.lowerAll, hitem]
  rfl

/--
What a written type in a signature of lists means for items of some type: it is formed if their type
is, and passes as what it means for items as which those may pass.
-/
theorem exists_listType {e : TypeExpr}
    (he : e.isBasic = true ∨ e.isItem = true ∨ e.isSelf = true) :
    ∃ f : Ty → Ty, (∀ item, t.lower (TypeParams.bound ["E"] [item]) e = .ok (f item)) ∧
      (∀ item, item.Formed t.arity? [] → (f item).resolved.Formed t.arity? []) ∧
      ∀ a b, a.Formed t.arity? [] → b.Formed t.arity? [] → t.check a b = true →
        t.check (f a).resolved (f b).resolved = true := by
  rcases he with hbasic | hi | hself
  · obtain ⟨-, hformed⟩ := h.lower_basic_list hbasic .object
    have hground := Ty.resolved_of_isGround hformed.isGround
    exact ⟨fun _ => .named e.name, fun item => (h.lower_basic_list hbasic item).1,
      fun _ _ => by rwa [hground], fun _ _ _ _ _ => t.check_self _⟩
  · refine ⟨.bound "E", lower_item hi, fun item hitem => ?_, fun a b ha hb hab => ?_⟩
    · rwa [resolved_item hitem]
    · rwa [resolved_item ha, resolved_item hb]
  · refine ⟨fun x => .cls Ty.listName [.bound "E" x], h.lower_self hself, fun x hx => ?_,
      fun a b ha hb hab => ?_⟩
    · simp only [Ty.resolved, Ty.resolvedAll, Ty.resolved_of_isGround hx.isGround]
      exact h.formed_list hx
    · simp only [Ty.resolved, Ty.resolvedAll, Ty.resolved_of_isGround ha.isGround,
        Ty.resolved_of_isGround hb.isGround]
      exact h.check_list ha hab

end Program.WellTyped

/-! ## Classes whose members can be called -/

/--
A class whose members can be called: one that is made for a formed type, or for static members a
static view.
-/
inductive ClassTable.Serves (t : ClassTable F) (isStatic : Bool) (c : RuntimeClass F) : Prop
  | made : t.Makes c → c.asTy.Formed t.arity? [] → Serves t isStatic c
  | shown : t.Shows c → isStatic = true → Serves t isStatic c

namespace ClassTable

variable {t : ClassTable F} {isStatic : Bool} {c d : RuntimeClass F}

/-- The base class of a class of a formed type has a formed type. -/
theorem Complete.formed_base (ht : t.Complete) (hc : t.Makes c)
    (hformed : c.asTy.Formed t.arity? []) (hb : c.base? = some d) : d.asTy.Formed t.arity? [] := by
  have hi := hc.instantiates
  rw [RuntimeClass.asTy] at hformed
  generalize c.ty = key at hi hformed
  cases hi with
  | root _ _ _ _ => cases hb
  | @derived _ tm base b hground hg hlen hbase hb' =>
    rw [RuntimeClass.base?_ofTemplate tm key hb'.isStaticView_eq] at hb
    cases hb
    have hkey := ht.formed_baseKey hg hbase (Ty.formed_cls.mp hformed).2 hlen
    rwa [← hb'.ty_eq] at hkey

theorem Complete.formed_extends (ht : t.Complete) (hc : t.Makes c)
    (hformed : c.asTy.Formed t.arity? []) (hd : c.Extends d) : d.asTy.Formed t.arity? [] := by
  induction hd with
  | refl _ => exact hformed
  | base hb _ ih => exact ih (hc.base hb) (ht.formed_base hc hformed hb)

theorem Serves.offers (h : t.Serves isStatic c) : t.Offers c := by
  cases h with
  | made hc _ => exact .inl hc
  | shown hc _ => exact .inr hc

theorem Serves.«extends» (ht : t.Complete) (h : t.Serves isStatic c) (hd : c.Extends d) :
    t.Serves isStatic d := by
  cases h with
  | made hc hformed => exact .made (hc.extends hd) (ht.formed_extends hc hformed hd)
  | shown hc hs => exact .shown (hc.extends hd) hs

/-- A class without parameters has none to bind. -/
theorem Offers.params_eq_nil (h : t.Offers c) (hg : c.own.template.generics = []) :
    c.params = [] := by
  rcases h with hc | ⟨name, hc⟩
  · rw [(own_instantiation hc.instantiates).2, paramsFor, hg]
    split <;> rfl
  · cases hc with
    | root _ _ =>
      unfold RuntimeClass.params RuntimeClass.staticOfTemplate at *
      dsimp only at hg ⊢
      rw [hg]
      rfl
    | derived _ _ _ =>
      unfold RuntimeClass.params RuntimeClass.staticOfTemplate at *
      dsimp only at hg ⊢
      rw [hg]
      rfl

end ClassTable

namespace Program.WellTyped

variable {p : Program} {t : ClassTable StandardFn} (h : p.WellTyped t)

include h

/-- A list has one argument, to which its parameter is bound. -/
theorem list_params {c : RuntimeClass StandardFn} (hc : t.Makes c)
    (hformed : c.asTy.Formed t.arity? []) (hname : c.name = Ty.listName) :
    ∃ item, c.ty = ⟨Ty.listName, [item]⟩ ∧ item.Formed t.arity? [] ∧
      c.params = TypeParams.bound ["E"] [item] := by
  have hget := hc.get?
  have hparams := (ClassTable.own_instantiation hc.instantiates).2
  obtain ⟨name, args, hty⟩ : ∃ name args, c.ty = ⟨name, args⟩ := ⟨_, _, rfl⟩
  rw [RuntimeClass.name, hty] at hname hget
  rw [RuntimeClass.asTy, hty] at hformed
  rw [hty] at hparams
  dsimp only at hname hget hparams
  subst hname
  rcases h.formed_cases hformed with ⟨a, tm, heq, htm, hg⟩ | ⟨item, heq, hitem⟩
  · cases heq
    have harity := h.arity?_list
    rw [ClassTable.arity?, htm, Option.map_some, hg] at harity
    cases harity
  · cases heq
    refine ⟨item, hty, hitem, ?_⟩
    rw [hparams, ClassTable.paramsFor]
    rcases h.generics_cases hget with hg | ⟨-, hg⟩
    · have harity := h.arity?_list
      rw [ClassTable.arity?, hget, Option.map_some, hg] at harity
      cases harity
    · rw [hg]
      rfl

omit h in
theorem memberParams_native {F : Type} (owner : String) (m : NativeMember F)
    (params : TypeParams) : ClassTable.memberParams (.ofNative owner m) params =
      if m.isStatic then [] else params := rfl

/-- A member of the library has a signature in every class that has it. -/
theorem exists_native_signature {n : NativeClass StandardFn} (hn : n ∈ standard.classes)
    {m : NativeMember StandardFn} (hm : m ∈ n.methods ∨ m ∈ n.constructors)
    {c : RuntimeClass StandardFn} (hc : t.Serves m.isStatic c) (hname : c.name = n.fullName) :
    ∃ s, t.signature (.ofNative n.fullName m) c.params = .ok s ∧ s.Settled t := by
  have hget : c.own.template = n.template := by
    have hget := hc.offers.get?
    rw [hname, ClassTable.get?_standard h.build hn] at hget
    exact (Option.some.inj hget).symm
  obtain ⟨hstatic, htypes⟩ := NativeRegistry.types_standard n hn m (List.mem_append.mpr hm)
  -- It is enough that each type lowers to one that is formed.
  have hlowers : ∀ e ∈ m.params.map Prod.fst ++ m.returnType.toList,
      ∃ ty, t.lower (if m.isStatic then [] else c.params) e = .ok ty ∧
        ty.resolved.Formed t.arity? [] := by
    intro e he
    rcases NativeRegistry.generics_standard n hn with hg | ⟨hlist, hg⟩
    · have hparams : (if m.isStatic then [] else c.params) = [] := by
        rw [hc.offers.params_eq_nil (by rw [hget]; exact hg), ite_self]
      have hbasic := (htypes e he).resolve_right fun hitem => hitem.1 hg
      have hempty : TypeParams.get? [] e.name = none := rfl
      obtain ⟨hlower, hformed⟩ := h.lower_basic hbasic hempty
      rw [hparams]
      exact ⟨_, hlower, by rwa [Ty.resolved_of_isGround hformed.isGround]⟩
    · have hinstance : m.isStatic = false := by
        cases hs : m.isStatic with
        | false => rfl
        | true =>
          have := hstatic hs
          rw [hg] at this
          cases this
      rw [hinstance] at hc ⊢
      cases hc with
      | shown _ hs => cases hs
      | made hmakes hformed =>
        obtain ⟨item, -, hitem, hparams⟩ := h.list_params hmakes hformed (hname.trans hlist)
        obtain ⟨g, hlower, hg, -⟩ := h.exists_listType ((htypes e he).imp_right And.right)
        rw [hparams]
        exact ⟨g item, hlower item, hg item hitem⟩
  choose! f hf using hlowers
  have hparams : List.Forall₂ (fun (e : String × TypeExpr) (q : Param) => q.name = e.1 ∧
      t.lower (if m.isStatic then [] else c.params) e.2 = .ok q.ty)
      (m.params.map fun e => (e.2, e.1)) (m.params.map fun e => ⟨e.2, f e.1⟩) := by
    rw [List.forall₂_map_left_iff, List.forall₂_map_right_iff, List.forall₂_same]
    exact fun e he => ⟨rfl, (hf e.1 (List.mem_append_left _ (List.mem_map_of_mem he))).1⟩
  have hreturn : Option.Rel (fun e ty => t.lower (if m.isStatic then [] else c.params) e = .ok ty)
      m.returnType (m.returnType.map f) := by
    cases hret : m.returnType with
    | none => exact .none
    | some e =>
      exact .some (hf e (List.mem_append_right _ (Option.mem_toList.mpr hret))).1
  refine ⟨_, ClassTable.signature_of_lowers hparams hreturn, rfl, fun q hq => ?_, fun ty hty => ?_⟩
  · obtain ⟨e, he, rfl⟩ := List.mem_map.mp hq
    exact (hf e.1 (List.mem_append_left _ (List.mem_map_of_mem he))).2
  · obtain ⟨e, he, rfl⟩ := Option.map_eq_some_iff.mp hty
    exact (hf e (List.mem_append_right _ (Option.mem_toList.mpr he))).2

/-- Every member has a signature in every class that has it. -/
theorem exists_signature {c : RuntimeClass StandardFn} {m : Member StandardFn}
    (hm : m ∈ c.own.template.methods ∨ m ∈ c.own.template.constructors)
    (hc : t.Serves m.isStatic c) : ∃ s, t.signature m c.params = .ok s ∧ s.Settled t := by
  rcases h.member_cases hc.offers.get? hm with
    ⟨n, hn, -, hname, m', hm', rfl⟩ | ⟨d, hd, hname, hdeclared⟩
  · exact h.exists_native_signature hn hm' hc hname.symm
  · obtain ⟨cls, hcls, -, hg, -, -, -⟩ := h.get?_of_declared hd
    obtain ⟨hconstructors, hmethods⟩ := h.check_members hd hcls
    have hown : c.own.template = cls := by
      have hget := hc.offers.get?
      rw [← hname, hcls] at hget
      exact (Option.some.inj hget).symm
    rw [hc.offers.params_eq_nil (by rw [hown]; exact hg)]
    rcases hdeclared with ⟨m', hm', rfl⟩ | ⟨k, hk, rfl⟩
    · have hmono := (h.monomorphic.classes d hd).methods m' hm'
      have hgenerics : (Member.ofMethod (F := StandardFn) c.name m').generics = [] := by
        show m'.generics.map Identifier.name = []
        rw [hmono.generics]
        rfl
      have hparams : ClassTable.memberParams (F := StandardFn) (.ofMethod c.name m') [] = [] :=
        ClassTable.memberParams_eq_nil hgenerics (.inr rfl)
      obtain ⟨rt, L, L', hrt, hlocals, -, -⟩ := hmono.check_ok hg (hmethods m' hm')
      rw [BodyContext.initialLocals_eq] at hlocals
      obtain ⟨qs, hqs⟩ := BodyContext.params_of_defineParameters hlocals
      have hqs : List.Forall₂ (fun e q => q.name = e.1 ∧ t.lower [] e.2 = .ok q.ty)
        (Member.writtenParams m'.parameters) qs := hqs
      have hreturn := MethodDecl.loweredReturn_ok_iff.mp hrt
      rw [← hparams] at hqs hreturn
      have hsig := ClassTable.signature_of_lowers hqs hreturn
      exact ⟨_, hsig, ClassTable.settled_signature hsig hgenerics hparams⟩
    · have hparams : ClassTable.memberParams (F := StandardFn) (.ofConstructor c.name k) [] = [] :=
        rfl
      obtain ⟨L, L', hlocals, -, -⟩ := ConstructorDecl.check_ok (hconstructors k hk)
      rw [Template.constructorContext_eq hg, BodyContext.initialLocals_eq] at hlocals
      obtain ⟨qs, hqs⟩ := BodyContext.params_of_defineParameters hlocals
      have hqs : List.Forall₂ (fun e q => q.name = e.1 ∧ t.lower [] e.2 = .ok q.ty)
        (Member.writtenParams k.parameters) qs := hqs
      rw [← hparams] at hqs
      have hsig := ClassTable.signature_of_lowers (m := .ofConstructor c.name k) hqs .none
      exact ⟨_, hsig, ClassTable.settled_signature hsig rfl hparams⟩

end Program.WellTyped

end Middleweight
