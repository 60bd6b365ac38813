import Middleweight.Proofs.Engine.ResultKinds
import Middleweight.Proofs.Members.Views

/-!
# What a procedural program can call

A call of a checked procedural program is resolved over class types with the types that the checker
gives to arguments, and again over runtime classes with those that the engine gives to them. Both
times the same member is chosen: all signatures in question are ground, and the types fit alike. The
member is a declared method, or a native one that does nothing but write and give a value.

* `Program.Accepted.resolveMethod_view` : calls of static methods
* `Program.Accepted.resolveMethod_kind` : calls of methods of strings and of the standard output
-/

namespace Middleweight

open NativeRegistry (standard)

/-- A procedural program over the standard library whose bodies check, and its table. -/
structure Program.Accepted (p : Program) (t : ClassTable StandardFn) : Prop where
  build : ClassTable.build p standard = .ok t
  procedural : p.IsProcedural
  check : p.check t = .ok ()

/-- A method that is static or belongs to no generic class gives what it declares, and no more. -/
theorem NativeRegistry.methods_standard : ∀ n ∈ standard.classes, ∀ m ∈ n.methods,
    (m.isStatic = true → n.generics = []) ∧
    (n.generics = [] → m.function.isPlain = true ∧
      m.function.resultKind?.map Kind.typeName = m.returnType.map TypeExpr.name ∧
      m.returnType.all (·.generics.isEmpty) = true) := by
  decide +kernel

/-- A member that a procedural program calls, on a receiver. -/
inductive Callee (p : Program) (this : Value StandardFn) : Member StandardFn → Prop
  | native {n : NativeClass StandardFn} {m : NativeMember StandardFn} :
      n ∈ standard.classes → m ∈ n.methods → n.generics = [] →
      Callee p this (.ofNative n.fullName m)
  | declared {d : ClassDecl} {m : MethodDecl} : d ∈ p.classes → m ∈ d.methods → this = .null →
      Callee p this (.ofMethod d.name.name m)

/-- A choice of such a member, in whose signature no parameter is in scope. -/
structure Selected.IsCallable (p : Program) (t : ClassTable StandardFn) (this : Value StandardFn)
    (s : Selected StandardFn (RuntimeClass StandardFn)) : Prop where
  callee : Callee p this s.member
  signature : t.signature s.member s.owner.params = .ok s.signature
  params : ClassTable.memberParams s.member s.owner.params = []
  bindings : s.bindings = []

/-- The methods of a class type are those of its template. -/
theorem ClassTable.methods_ok {F : Type} {t : ClassTable F} {o : ClassTy} {name : String}
    {isStatic : Bool} {cs : List (Member F × Signature)}
    (h : t.staticMembers.methods o name isStatic = .ok cs) :
    ∃ c, t.get? o.name = some c ∧
      t.signatures (paramsFor c o.args) (c.methodsNamed name isStatic) = .ok cs := by
  simp only [staticMembers] at h
  split at h
  · cases h
  · next c hc => exact ⟨c, template_ok_iff.mp hc, h⟩

namespace Program.Accepted

variable {p : Program} {t : ClassTable StandardFn} (h : p.Accepted t)

include h

theorem rooted : t.Rooted := ClassTable.rooted_of_build h.build h.procedural.classes

theorem natives : t.natives = standard := ClassTable.natives_of_build h.build

theorem get?_of_resolve? {name full : String} (hf : t.imports.resolve? name = some full) :
    ∃ c, t.get? full = some c := by
  obtain ⟨n, hn⟩ := ClassTable.arity?_of_resolve? h.build hf
  obtain ⟨c, hc, -⟩ := ClassTable.get?_of_arity? hn
  exact ⟨c, hc⟩

/-! ## Members -/

/-- A method of a class of the table is native or declared. -/
theorem method_cases {c : Template StandardFn} (hc : c ∈ t.classes) {m : Member StandardFn}
    (hm : m ∈ c.methods) :
    (∃ n ∈ standard.classes, c = n.template ∧ ∃ m' ∈ n.methods, m = .ofNative n.fullName m') ∨
    ∃ d ∈ p.classes, ∃ m' ∈ d.methods, m = .ofMethod d.name.name m' := by
  rcases ClassTable.mem_classes_cases h.build hc with ⟨q, rfl⟩ | ⟨n, hn, hmade⟩ | ⟨d, hd, hmade⟩
  · cases hm
  · obtain rfl := ClassTable.nativeTemplate_standard hn hmade
    obtain ⟨m', hm', rfl⟩ := List.mem_map.mp hm
    exact .inl ⟨n, hn, rfl, m', hm', rfl⟩
  · obtain ⟨base, fields, -, -, rfl⟩ := ClassTable.declaredTemplate_ok hmade
    obtain ⟨m', hm', rfl⟩ := List.mem_map.mp hm
    exact .inr ⟨d, hd, m', hm', rfl⟩

theorem generics_eq_nil {c : Template StandardFn} (hc : c ∈ t.classes) {m : Member StandardFn}
    (hm : m ∈ c.methods) : m.generics = [] := by
  rcases h.method_cases hc hm with ⟨n, -, -, m', -, rfl⟩ | ⟨d, hd, m', hm', rfl⟩
  · rfl
  · show m'.generics.map Identifier.name = []
    rw [((h.procedural.classes d hd).methods m' hm').generics]
    rfl

/-- A static method of a class of the table can be called. -/
theorem callee_static {c : Template StandardFn} (hc : c ∈ t.classes) {m : Member StandardFn}
    (hm : m ∈ c.methods) (hs : m.isStatic = true) : Callee p .null m := by
  rcases h.method_cases hc hm with ⟨n, hn, -, m', hm', rfl⟩ | ⟨d, hd, m', hm', rfl⟩
  · exact .native hn hm' ((NativeRegistry.methods_standard n hn m' hm').1 hs)
  · exact .declared hd hm' rfl

/-- An instance method of a class that is not generic can be called. -/
theorem callee_instance {c : Template StandardFn} (hc : c ∈ t.classes) (hg : c.generics = [])
    {m : Member StandardFn} (hm : m ∈ c.methods) (hs : m.isStatic = false)
    (this : Value StandardFn) : Callee p this m := by
  rcases h.method_cases hc hm with ⟨n, hn, rfl, m', hm', rfl⟩ | ⟨d, hd, m', hm', rfl⟩
  · exact .native hn hm' hg
  · have hstatic : m'.isStatic = true := ((h.procedural.classes d hd).methods m' hm').isStatic
    cases hs.symm.trans hstatic

/-! ## Static methods -/

theorem ground_static {o : ClassTy} {name : String} {cs : List (Member StandardFn × Signature)}
    (hcs : t.staticMembers.methods o name true = .ok cs) : ClassTable.GroundSignatures cs := by
  rintro ⟨m, s⟩ hm
  obtain ⟨c, hc, hsigs⟩ := ClassTable.methods_ok hcs
  obtain ⟨hmem, hs⟩ := ClassTable.mem_signatures hsigs hm
  obtain ⟨hmethod, hstatic⟩ := Template.mem_methodsNamed hmem
  have hgenerics := h.generics_eq_nil (ClassTable.get?_mem hc) hmethod
  exact ClassTable.allGround_signature hs (ClassTable.memberParams_eq_nil hgenerics (.inl hstatic))

/-- A static call is resolved over the static view as the checker resolves it. -/
theorem resolveMethod_view {name : String} {c : RuntimeClass StandardFn} (hv : t.Views name c)
    {method : String} {args tys : List Ty} (hargs : List.Forall₂ t.SameFit args tys)
    {s₀ : Selected StandardFn ClassTy}
    (hs : t.staticMembers.resolveMethod t ⟨name, []⟩ method true tys = .ok (.found s₀)) :
    ∃ s, t.runtimeMembers.resolveMethod t c method true args = .ok (.found s) ∧
      s.signature = s₀.signature ∧ s.bindings = s₀.bindings ∧ s.IsCallable p t .null := by
  have hs' := (MemberSource.methodFrom_of_sameFit (I := fun _ => True) (fun _ _ _ _ => trivial)
    (fun o cs _ hcs => h.ground_static hcs) hargs trivial hs).2
  rcases (ClassTable.resolveMethod_view (o := ⟨name, []⟩) hv method args).elim with
    ⟨e, h1, -⟩ | ⟨r, r', h1, h2, hr⟩
  · cases hs'.symm.trans h1
  · cases hs'.symm.trans h1
    cases hr with
    | @found o c' m m' sig b hview hm =>
      cases hm
      refine ⟨_, h2, rfl, rfl, ?_⟩
      obtain ⟨hmem, hsig, happ⟩ := ClassTable.method_of_found h2
      obtain ⟨hmethod, hstatic⟩ := Template.mem_methodsNamed hmem
      have hc : c'.own.template ∈ t.classes := ClassTable.get?_mem (ClassTable.own_view hview)
      have hparams : ClassTable.memberParams m c'.params = [] :=
        ClassTable.memberParams_eq_nil (h.generics_eq_nil hc hmethod) (.inl hstatic)
      exact ⟨h.callee_static hc hmethod hstatic, hsig, hparams,
        (ClassTable.forall₂_of_applicable (ClassTable.allGround_signature hsig hparams) happ).1⟩

/-! ## Methods of values -/

/-- A class as which values may pass has no parameters. -/
theorem paramsFor_kind {k : Kind} {a : String} (ha : a ∈ k.names) {c : Template StandardFn}
    (hc : t.get? a = some c) : c.generics = [] ∧ ClassTable.paramsFor c [] = [] := by
  obtain ⟨c', hc', hg⟩ := ClassTable.get?_kind h.build ha
  cases hc.symm.trans hc'
  refine ⟨hg, ?_⟩
  unfold ClassTable.paramsFor
  rw [hg]
  rfl

/-- A class as which values may pass extends the root class or nothing. -/
theorem base_kind {k : Kind} {a : String} (ha : a ∈ k.names) {c : Template StandardFn}
    (hc : t.get? a = some c) {base : ClassTy} (hb : c.base = some base) :
    base = ⟨Ty.objectName, []⟩ := by
  rcases Kind.primitive_or_native ha with ⟨q, rfl⟩ | ⟨n, hn, rfl, -⟩
  · cases hc.symm.trans (ClassTable.get?_primitive_standard h.build q)
    cases hb
    rfl
  · cases hc.symm.trans (ClassTable.get?_standard h.build hn)
    exact NativeClass.base_template hb

/-- An instance method of a class as which values may pass: the values are strings or the output. -/
theorem typeName_of_instance {k : Kind} {a : String} (ha : a ∈ k.names) {c : Template StandardFn}
    (hc : t.get? a = some c) {m : Member StandardFn} (hm : m ∈ c.methods)
    (hs : m.isStatic = false) :
    a = k.typeName ∧ a ≠ Ty.objectName ∧ (k = .string ∨ k = .printStream) := by
  rcases Kind.primitive_or_native ha with ⟨q, rfl⟩ | ⟨n, hn, rfl, -⟩
  · cases hc.symm.trans (ClassTable.get?_primitive_standard h.build q)
    cases hm
  · cases hc.symm.trans (ClassTable.get?_standard h.build hn)
    obtain ⟨m', hm', rfl⟩ := List.mem_map.mp hm
    have hall : ∀ n ∈ standard.classes, n.fullName ∈ k.names → ∀ m ∈ n.methods,
        m.isStatic = false → n.fullName = k.typeName ∧ n.fullName ≠ Ty.objectName ∧
          (k = .string ∨ k = .printStream) := by
      cases k <;> decide +kernel
    exact hall n hn ha m' hm' hs

/--
A call on a value that passes as a class is resolved over the class of the value as the checker
resolves it over that class: there is nothing to call on a value that passes as another class.
-/
theorem resolveMethod_kind {k : Kind} {a : String} (ha : a ∈ k.names) {method : String}
    {args tys : List Ty} (hargs : List.Forall₂ t.SameFit args tys)
    {s₀ : Selected StandardFn ClassTy}
    (hs : t.staticMembers.resolveMethod t ⟨a, []⟩ method false tys = .ok (.found s₀))
    (this : Value StandardFn) :
    a = k.typeName ∧ (k = .string ∨ k = .printStream) ∧ ∀ c, t.Instantiates ⟨k.typeName, []⟩ c →
      ∃ s, t.runtimeMembers.resolveMethod t c method false args = .ok (.found s) ∧
        s.signature = s₀.signature ∧ s.bindings = s₀.bindings ∧ s.IsCallable p t this := by
  -- The classes on the way: `a` and the root class, without arguments.
  let onWay (o : ClassTy) : Prop := o.args = [] ∧ (o.name = a ∨ o.name = Ty.objectName)
  have hnames : ∀ o, onWay o → o.name ∈ k.names := by
    rintro o ⟨-, heq | heq⟩
    · exact heq ▸ ha
    · exact heq ▸ k.objectName_mem_names
  have hbase : ∀ o b, onWay o → t.baseOf o = .ok (some b) → onWay b := by
    intro o b ho hb
    obtain ⟨c, hc, hmap⟩ := ok_of_map hb
    obtain ⟨base, hbase, rfl⟩ := Option.map_eq_some_iff.mp hmap
    obtain rfl := h.base_kind (hnames o ho) (ClassTable.template_ok_iff.mp hc) hbase
    exact ⟨rfl, .inr rfl⟩
  have hground : ∀ o cs, onWay o → t.staticMembers.methods o method false = .ok cs →
      ClassTable.GroundSignatures cs := by
    rintro o cs ho hcs ⟨m, s⟩ hm
    obtain ⟨c, hc, hsigs⟩ := ClassTable.methods_ok hcs
    rw [ho.1, (h.paramsFor_kind (hnames o ho) hc).2] at hsigs
    obtain ⟨hmem, hsig⟩ := ClassTable.mem_signatures hsigs hm
    have hgenerics :=
      h.generics_eq_nil (ClassTable.get?_mem hc) (Template.mem_methodsNamed hmem).1
    exact ClassTable.allGround_signature hsig (ClassTable.memberParams_eq_nil hgenerics (.inr rfl))
  obtain ⟨howner, hs'⟩ :=
    MemberSource.methodFrom_of_sameFit hbase hground hargs ⟨rfl, .inl rfl⟩ hs
  obtain ⟨cs, hcs, hmem, -⟩ := MemberSource.methodFrom_found hs
  obtain ⟨tm, htm, hsigs⟩ := ClassTable.methods_ok hcs
  obtain ⟨hmethod, hstatic⟩ := Template.mem_methodsNamed (ClassTable.mem_signatures hsigs hmem).1
  obtain ⟨hkind, hne, hk⟩ := h.typeName_of_instance (hnames _ howner) htm hmethod hstatic
  have heq : a = k.typeName := (howner.2.resolve_right hne).symm.trans hkind
  refine ⟨heq, hk, fun c hc => ?_⟩
  subst heq
  rcases (ClassTable.resolveMethod_instantiation hc method false args).elim with
    ⟨e, h1, -⟩ | ⟨r, r', h1, h2, hr⟩
  · cases hs'.symm.trans h1
  · cases hs'.symm.trans h1
    cases hr with
    | @found o c' m m' sig b hinst hm =>
      cases hm
      refine ⟨_, h2, rfl, rfl, ?_⟩
      obtain ⟨hmem, hsig, happ⟩ := ClassTable.method_of_found h2
      obtain ⟨hmethod, hstatic⟩ := Template.mem_methodsNamed hmem
      obtain ⟨hget, hown⟩ := ClassTable.own_instantiation hinst
      obtain ⟨hg, hp⟩ := h.paramsFor_kind (hnames o howner) hget
      rw [howner.1, hp] at hown
      have hc' := ClassTable.get?_mem hget
      have hparams : ClassTable.memberParams m c'.params = [] :=
        ClassTable.memberParams_eq_nil (h.generics_eq_nil hc' hmethod) (.inr hown)
      exact ⟨h.callee_instance hc' hg hmethod hstatic this, hsig, hparams,
        (ClassTable.forall₂_of_applicable (ClassTable.allGround_signature hsig hparams) happ).1⟩

end Program.Accepted

end Middleweight
