import Middleweight.Proofs.Objects.Outcomes
import Middleweight.Proofs.Soundness.Runs

/-!
# Names and fields in bodies of objects

A body that the checker accepts finds what it names. A local has a variable of its type. A field of
the running object may be declared again further down, but then its types pass as each other. A
class has its static view, and a path through namespaces leads where the checker says.

* `Engine.gives_lookup`, `Engine.gives_store` : bare names
* `Engine.gives_fieldValue`, `Engine.gives_storeField` : names behind dots
-/

namespace Middleweight

open NativeRegistry (standard)

/-! ## Bodies and calls -/

section Calls

variable {F : Type}

/-- What a body sees of the object it runs on: a class that the program declares, or nothing. -/
inductive Context.Sees : Context F → Option ClassTy → Prop
  | nothing {κ : Context F} : κ.instance? = none → Sees κ none
  | this (o : ObjectRef F) {c : RuntimeClass F} :
      c.own.template.isDeclared = true → Sees (.instance o c) (some c.ty)

/-- An argument and the type it is given as: its own, or that of the literal `null`. -/
structure Variable.GivenAs (t : ClassTable F) (W : World F) (v : Variable F) (a : Ty) : Prop where
  stored : v.Stored t W
  formed : v.ty.Formed t.arity? []
  suits : v.value.Suits t v.ty
  ty : a = v.ty ∨ a = .null ∧ v.value = .null

/-- The receiver of a call of a method of a class, and whether the method is static. -/
inductive RuntimeClass.Receives (W : World F) : RuntimeClass F → Value F → Bool → Prop
  | static (c : RuntimeClass F) : Receives W c .null true
  | object {o : ObjectRef F} : o.In W → Receives W o.cls (.object o) false
  | string {c : RuntimeClass F} (s : String) : c.asTy = .string → Receives W c (.str s) false

/-- Calls that stop only where they may, and give what the members that are called declare. -/
structure Calls.Typed (eng : Engine F) (calls : Calls F) : Prop where
  dispatch : ∀ {κ : Context F} {W : World F} {L : Locals} {c : RuntimeClass F} {this : Value F}
    {isStatic : Bool} {args : List (Variable F)} {argTypes : List Ty} (name : String) (span : Span),
    eng.table.Serves isStatic c → c.Receives W this isStatic →
    List.Forall₂ (Variable.GivenAs eng.table W) args argTypes →
    eng.Gives κ W L (calls.dispatch c this name isStatic args argTypes span) fun V r? =>
      ∃ s, eng.table.runtimeMembers.resolveMethod eng.table c name isStatic argTypes =
        .ok (.found s) ∧
      ∀ ty ∈ s.signature.returnType, ∃ v, r? = some v ∧ v.OfType eng.table V ty.resolved
  construct : ∀ {κ : Context F} {W : World F} {L : Locals} {c : RuntimeClass F}
    {args : List (Variable F)} {argTypes : List Ty} (span : Span), eng.table.Makes c →
    c.asTy.Formed eng.table.arity? [] → List.Forall₂ (Variable.GivenAs eng.table W) args argTypes →
    eng.Gives κ W L (calls.construct c args argTypes span) fun V o => o.In V ∧ o.cls = c

end Calls

/-! ## What the checker has made sure of -/

/-- The class whose members a formed type has is the type. -/
theorem Ty.toTy_memberClass {arity : String → Option Nat} {ty : Ty}
    (h : ty.resolved.Formed arity []) : ty.memberClass.toTy = ty.resolved := by
  obtain ⟨n, args, hres⟩ := Ty.exists_cls h
  rw [memberClass, hres]
  rfl

namespace Program.WellTyped

variable {p : Program} {t : ClassTable StandardFn} (h : p.WellTyped t)

include h

theorem natives : t.natives = standard := ClassTable.natives_of_build h.build

/-- No class is named `this`. -/
theorem resolve?_this : t.imports.resolve? "this" = none := by
  cases hres : t.imports.resolve? "this" with
  | none => rfl
  | some full =>
    obtain ⟨d, hd, hname⟩ :=
      ImportTable.resolve?_this (ClassTable.imports_of_build h.build) hres
    exact absurd hname (h.monomorphic.classes d hd).name.1

theorem namespace?_this : t.natives.namespace? "this" = none := by
  have hnone : standard.namespace? "this" = none := by decide +kernel
  rw [h.natives, hnone]

/-- The checker finds formed types for the fields of formed types. -/
theorem formed_fieldType {owner : ClassTy} (howner : owner.toTy.Formed t.arity? []) {name : String}
    {ty : Ty} (hty : t.fieldType owner name = .ok (some ty)) : ty.Formed t.arity? [] := by
  obtain ⟨c, hc, hcty⟩ := h.exists_class howner
  have hcheck : t.check c.asTy owner.toTy = true := by
    rw [hcty]
    exact t.check_self _
  obtain ⟨s, -, -, hformed, -⟩ := h.exists_field hc (hcty ▸ howner) howner hcheck hty
  exact hformed

/-- A value that suits a type has a class, unless it is `null`. -/
theorem exists_class_of_suits {v : Value StandardFn} {own ty : Ty} (hown : v.ownTy? = some own)
    (hv : v.Suits t ty) : ∃ c, t.Makes c ∧ c.asTy = own ∧ own.Formed t.arity? [] ∧
      t.check own ty = true := by
  cases hv with
  | null => cases hown
  | own hown' hformed hc =>
    cases hown.symm.trans hown'
    obtain ⟨c, hc', hty⟩ := h.exists_class hformed
    exact ⟨c, hc', hty, hformed, hc⟩

/-- The operands of operators are formed types. -/
theorem formed_operand {op : BinaryOp} {x : String} (hx : x ∈ op.rule.operands) :
    (Ty.named x).Formed t.arity? [] := by
  have hnames : ∀ x ∈ op.rule.operands,
      x = Ty.objectName ∨ x ∈ Kind.int.names ∨ x ∈ Kind.float.names ∨ x ∈ Kind.boolean.names ∨
        x ∈ Kind.string.names := by
    cases op <;> decide +kernel
  rcases hnames x hx with rfl | hk | hk | hk | hk
  · exact h.formed_object
  all_goals exact h.formed_kind hk

/-- Only objects have fields. -/
theorem isObject_of_field {v : Value StandardFn} {ty ty' : Ty} (hv : v.Suits t ty.resolved)
    (hty : ty.resolved.Formed t.arity? []) {name : String}
    (hfield : t.fieldType ty.memberClass name = .ok (some ty')) :
    v = .null ∨ ∃ o, v = .object o := by
  have howner := Ty.toTy_memberClass hty
  -- The values of a kind have native classes or primitives, which have no fields.
  have hkind : ∀ {k : Kind}, v.ownTy? = some k.ty → False := by
    intro k hown
    obtain ⟨c, hc, hcty, hformed, hcheck⟩ := h.exists_class_of_suits hown hv
    rw [← hcty, ← howner] at hcheck
    obtain ⟨s, hs, -⟩ := h.exists_field hc (hcty ▸ hformed) (howner ▸ hty) hcheck hfield
    have hdeclared := h.isDeclared_of_allFields hc (RuntimeClass.mem_of_field? hs).1
    obtain ⟨tm, htm, -⟩ := ClassTable.get?_kind h.build k.typeName_mem_names
    have hget := hc.get?
    rw [show c.name = k.typeName from (Ty.cls.inj hcty).1] at hget
    have hnative : ∀ k : Kind, (∃ q : Primitive, q.name = k.typeName) ∨
        ∃ n ∈ standard.classes, n.fullName = k.typeName := by
      intro k
      cases k with
      | int => exact .inl ⟨.int, rfl⟩
      | float => exact .inl ⟨.float, rfl⟩
      | boolean => exact .inl ⟨.boolean, rfl⟩
      | string => exact .inr (NativeRegistry.exists_named (by decide))
      | printStream => exact .inr (NativeRegistry.exists_named (by decide))
    rcases hnative k with ⟨q, hq⟩ | ⟨n, hn, hfull⟩
    · rw [← hq, ClassTable.get?_primitive_standard h.build q] at hget
      rw [← Option.some.inj hget] at hdeclared
      cases hdeclared
    · rw [← hfull] at hget
      exact Bool.false_ne_true ((h.isDeclared_native hn hget).symm.trans hdeclared)
  cases v with
  | null => exact .inl rfl
  | object o => exact .inr ⟨o, rfl⟩
  | int n => exact (hkind (k := .int) rfl).elim
  | float x => exact (hkind (k := .float) rfl).elim
  | bool b => exact (hkind (k := .boolean) rfl).elim
  | str s => exact (hkind (k := .string) rfl).elim
  | cls c => cases hv with | own hown => cases hown
  | «namespace» path => cases hv with | own hown => cases hown

end Program.WellTyped

namespace BodyContext

variable {F : Type} {t : ClassTable F} {cls : Template F} {rt : Option Ty}

theorem instanceField_eq {c : RuntimeClass F} (hc : t.Makes c) (name : String) :
    (ofClass t cls (some c.ty) rt).instanceField name =
      (c.field? name).map FieldSlot.ty := by
  unfold instanceField
  rw [show (ofClass t cls (some c.ty) rt).this? = some c.ty from rfl,
    show (ofClass t cls (some c.ty) rt).table = t from rfl]
  dsimp only
  rw [hc.instantiates.fieldType_eq name]

/-- What a body stores to under a bare name: a local, or a field of the running object. -/
inductive Stores (ctx : BodyContext F) (L : Locals) (name : String) (ty : Ty) : Prop
  | local : L.lookup name = some ty → Stores ctx L name ty
  | field : L.lookup name = none → ctx.instanceField name = some ty → Stores ctx L name ty

/-- A bare name is a value where it can be stored to. -/
theorem variableOperand_eq_value {ctx : BodyContext F} {L : Locals} {name : Identifier} {ty : Ty} :
    ctx.variableOperand L name = .ok (.value ty) ↔ ctx.Stores L name.name ty := by
  unfold variableOperand
  constructor
  · intro hty
    split at hty
    · next hL =>
      cases hty
      exact .local hL
    · next hL =>
      split at hty
      · next hfield =>
        cases hty
        exact .field hL hfield
      · split at hty
        · cases hty
        · split at hty <;> cases hty
  · intro hty
    cases hty with
    | «local» hL => rw [hL]
    | field hL hfield => rw [hL, hfield]

theorem stores_of_targetType {ctx : BodyContext F} {L : Locals} {target : Identifier} {ty : Ty}
    (hty : ctx.targetType L target = .ok ty) : ctx.Stores L target.name ty := by
  unfold targetType at hty
  split at hty
  · cases hty
  · split at hty
    · next hL =>
      cases hty
      exact .local hL
    · next hL =>
      split at hty
      · next hfield =>
        cases hty
        exact .field hL hfield
      · cases hty

theorem fieldOf_ok {ctx : BodyContext F} {receiver : Ty} {field : Identifier} {ty : Ty}
    (hty : ctx.fieldOf receiver field = .ok ty) :
    ctx.table.fieldType receiver.memberClass field.name = .ok (some ty) := by
  obtain ⟨found, hfound, hty⟩ := ok_of_bind hty
  cases found with
  | none => cases hty
  | some ty' =>
    cases hty
    exact typed_ok hfound

/-- A field that can be assigned to is a value. -/
theorem fieldOperand_of_targetType {ctx : BodyContext F} {receiver : Operand} {place : Span}
    {field : Identifier} {ty : Ty} (hty : ctx.fieldTargetType receiver place field = .ok ty) :
    ctx.fieldOperand receiver field = .ok (.value ty) := by
  cases receiver with
  | value receiver => exact congrArg (Except.map Operand.value) hty
  | «namespace» path => cases hty
  | static className =>
    obtain ⟨found, -, hfound⟩ := ok_of_bind hty
    cases found with
    | none => cases hfound
    | some _ => cases hfound

end BodyContext

/--
A value that may be assigned to something of a type; with an operator, what that gives may be.
-/
def AssignOp.Fits {F : Type} (t : ClassTable F) (op : AssignOp) (declared : Ty) (value : Value F) :
    Prop :=
  match op.binary? with
  | none => value.Suits t declared
  | some binary => ∃ x ∈ binary.rule.operands, t.check declared (.named x) = true ∧
      t.check (binary.rule.resultType x) declared = true

/-! ## Fields -/

namespace Engine

variable {p : Program} {eng : Engine StandardFn} (h : p.WellTyped eng.table)
  {κ : Context StandardFn} {W : World StandardFn} {L : Locals}

include h

section Objects

variable {o : ObjectRef StandardFn} (ho : o.In W) {owner : ClassTy}
  (howner : owner.toTy.Formed eng.table.arity? [])
  (hcheck : eng.table.check o.cls.asTy owner.toTy = true) {name : String} {ty : Ty}
  (hty : eng.table.fieldType owner name = .ok (some ty))

include ho howner hcheck hty

/-- An object has the fields that the checker finds in a type as which it passes. -/
theorem gives_typed_field? : eng.Gives κ W L (EvalM.field? o name) fun V v? =>
    ∃ v, v? = some v ∧ v.OfType eng.table V ty := by
  refine Yields.of_typed fun m hm => ?_
  obtain ⟨s, hs, hformed, htyf, hto, -⟩ :=
    h.exists_field (hm.makes ho) (hm.formed_object ho) howner hcheck hty
  refine (gives_field? ho name).mono fun V v? _ hv? => ?_
  rw [hs] at hv?
  cases hv? with
  | some hv =>
    obtain ⟨hstored, hvty, hsuits⟩ := hv
    rw [Ty.resolved_of_isGround hformed.isGround] at hvty
    exact ⟨_, rfl, hstored, hvty ▸ hformed, hsuits, hvty ▸ hto, htyf⟩

/-- A value that suits the type which the checker finds for a field can be stored in it. -/
theorem gives_typed_setField {value : Value StandardFn} (hv : value.Valid eng.table W)
    (hsuits : value.Suits eng.table ty) :
    eng.Gives κ W L (EvalM.setField o name value) fun _ stored => stored = true := by
  refine Yields.of_typed fun m hm => ?_
  obtain ⟨s, hs, hformed, htyf, -, hfrom⟩ :=
    h.exists_field (hm.makes ho) (hm.formed_object ho) howner hcheck hty
  refine (gives_setField ho name hv fun s' hs' => ?_).mono fun V stored _ hstored => ?_
  · cases hs.symm.trans hs'
    rw [Ty.resolved_of_isGround hformed.isGround]
    exact hsuits.mono h htyf hformed hfrom
  · rw [hstored, hs]
    rfl

end Objects

section Own

variable {this? : Option ClassTy} (hκ : κ.Sees this?) {cls : Template StandardFn} {rt : Option Ty}
  {name : String}

include hκ

/-- The running object, and the class that its body sees, where the body has a field. -/
theorem exists_this_of_instanceField {m : Machine StandardFn} (hm : m.Typed eng.table κ W L)
    {ty : Ty} (hty : (BodyContext.ofClass eng.table cls this? rt).instanceField name = some ty) :
    ∃ o c, κ = .instance o c ∧ o.In W ∧ c.asTy.Formed eng.table.arity? [] ∧
      eng.table.check o.cls.asTy c.asTy = true ∧
      eng.table.fieldType c.ty name = .ok (some ty) := by
  have hvalid := hm.context_valid
  cases hκ with
  | nothing => cases hty
  | @this o c hdeclared =>
    obtain ⟨ho, hext⟩ := hvalid
    have hmakes := hm.makes ho
    have hformed := hm.formed_object ho
    have hc : eng.table.Makes c := hmakes.extends hext
    rw [BodyContext.instanceField_eq hc] at hty
    refine ⟨o, c, rfl, ho, h.complete.formed_extends hmakes hformed hext,
      h.check_extends hmakes hformed hext hdeclared, ?_⟩
    rw [hc.instantiates.fieldType_eq name, hty]

/-- The running object has the field that its body sees. -/
theorem gives_ownField_of_some {ty : Ty}
    (hty : (BodyContext.ofClass eng.table cls this? rt).instanceField name = some ty) :
    eng.Gives κ W L (EvalM.ownField? κ name) fun V v? =>
      ∃ v, v? = some v ∧ v.OfType eng.table V ty := by
  refine Yields.of_typed fun m hm => ?_
  obtain ⟨o, c, rfl, ho, hformed, hcheck, hfield⟩ := exists_this_of_instanceField h hκ hm hty
  exact gives_typed_field? h ho hformed hcheck hfield

/-- The running object has no field under a name that its body takes for a class or namespace. -/
theorem gives_ownField_of_none
    (hnone : (BodyContext.ofClass eng.table cls this? rt).instanceField name = none)
    (hname : (eng.table.imports.resolve? name).isSome = true ∨
      (eng.table.natives.namespace? name).isSome = true) :
    eng.Gives κ W L (EvalM.ownField? κ name) fun _ v? => v? = none := by
  refine Yields.of_typed fun m hm => ?_
  have hvalid := hm.context_valid
  cases hκ with
  | nothing hinstance =>
    unfold EvalM.ownField?
    rw [hinstance]
    exact Gives.pure rfl
  | @this o c hdeclared =>
    obtain ⟨ho, hext⟩ := hvalid
    rw [BodyContext.instanceField_eq ((hm.makes ho).extends hext), Option.map_eq_none_iff] at hnone
    refine (gives_field? ho name).mono fun V v? _ hv? => ?_
    rcases rel_elim hv? with ⟨-, hv⟩ | ⟨s, v, hs, -, -⟩
    · exact hv
    · obtain ⟨hres, hnamespace⟩ :=
        h.resolve?_of_field? (hm.makes ho) hext hdeclared hnone hs
      rw [hres, Option.isNone_iff_eq_none.mp hnamespace] at hname
      simp at hname

/-! ## Bare names -/

omit hκ in
theorem gives_typedNamespace (path : String) (span : Span) :
    eng.Gives κ W L (eng.typedValue (.namespace path) span) fun _ x => x.value = .namespace path :=
  (gives_classOf_formed h h.formed_object span).map fun _ _ _ _ => rfl

/-- The running object passes as the class that its body belongs to. -/
theorem this_ofType {m : Machine StandardFn} (hm : m.Typed eng.table κ W L) {ty : Ty}
    (hty : L.lookup "this" = some ty) :
    ∃ v, κ.this? = some v ∧ v.OfType eng.table W ty := by
  rw [hm.scope.this] at hty
  have hvalid := hm.context_valid
  cases hκ with
  | nothing hinstance =>
    cases κ with
    | «instance» o c => cases hinstance
    | global => cases hty
    | static c => cases hty
  | @this o c hdeclared =>
    cases hty
    obtain ⟨ho, hext⟩ := hvalid
    have hmakes := hm.makes ho
    have hformed := hm.formed_object ho
    exact ⟨⟨o.cls, .object o⟩, rfl, ⟨hmakes, ho⟩, hformed,
      .own rfl hformed (eng.table.check_self _), h.check_extends hmakes hformed hext hdeclared,
      h.complete.formed_extends hmakes hformed hext⟩

/-- A local, or `this`, has a variable of its type. -/
theorem gives_lookup_local {name : Identifier} {ty : Ty} (hL : L.lookup name.name = some ty) :
    eng.Gives κ W L (eng.lookup name) fun V v => v.OfType eng.table V ty := by
  rw [lookup_eq]
  refine Yields.of_typed fun m₀ hm₀ => gives_scope.bind fun V s hV hs => ?_
  unfold lookupIn
  rw [hs.2.context]
  split
  · next hthis =>
    rw [hthis] at hL
    obtain ⟨v, hv, htype⟩ := this_ofType h hκ hm₀ hL
    rw [hv]
    exact Gives.pure (htype.mono hV)
  · next hthis =>
    rcases rel_elim (hs.2.lookup hthis) with ⟨-, hnone⟩ | ⟨v, ty', hl, hsome, hv⟩
    · cases hL.symm.trans hnone
    · cases hL.symm.trans hsome
      rw [hl]
      exact Gives.pure (hv.ofType (hs.1.lookup hl))

/-- A bare name stands for what the checker says. -/
theorem gives_lookup {name : Identifier} {o : Operand}
    (ho : (BodyContext.ofClass eng.table cls this? rt).variableOperand L name = .ok o) :
    eng.Gives κ W L (eng.lookup name) fun V => o.Means eng.table V := by
  have hresolved : ∀ {V : World StandardFn} {v : Variable StandardFn} {ty : Ty},
      v.OfType eng.table V ty → v.OfType eng.table V ty.resolved := by
    intro V v ty hv
    rwa [Ty.resolved_of_isGround hv.formed.isGround]
  unfold BodyContext.variableOperand at ho
  rw [show (BodyContext.ofClass eng.table cls this? rt).table = eng.table from rfl] at ho
  cases hL : L.lookup name.name with
  | some ty =>
    rw [hL] at ho
    cases ho
    exact (gives_lookup_local h hκ hL).mono fun _ _ _ hv => hresolved hv
  | none =>
    rw [hL] at ho
    dsimp only at ho
    rw [lookup_eq]
    refine Yields.of_typed fun m hm => gives_scope.bind fun V s hV hs => ?_
    have hthis : name.name ≠ "this" := by
      intro hthis
      rw [hthis] at ho hL
      rw [h.resolve?_this, h.namespace?_this] at ho
      have hnone : κ.thisTy? = none := hm.scope.this.symm.trans hL
      cases hκ with
      | nothing => cases ho
      | this o hdeclared => cases hnone
    unfold lookupIn
    have hl : s.lookup name.name = none := by
      rcases rel_elim (hs.2.lookup hthis) with ⟨hl, -⟩ | ⟨v, ty, -, hsome, -⟩
      · exact hl
      · cases hL.symm.trans hsome
    rw [if_neg hthis, hl, hs.2.context]
    cases hfield : (BodyContext.ofClass eng.table cls this? rt).instanceField name.name with
    | some ty =>
      rw [hfield] at ho
      cases ho
      refine (gives_ownField_of_some h hκ hfield).bind fun U v? _ hv => ?_
      obtain ⟨v, rfl, hv⟩ := hv
      exact Gives.pure (hresolved hv)
    | none =>
      rw [hfield] at ho
      dsimp only at ho
      have hname : (eng.table.imports.resolve? name.name).isSome = true ∨
          (eng.table.natives.namespace? name.name).isSome = true := by
        cases hres : eng.table.imports.resolve? name.name with
        | some full => exact .inl rfl
        | none =>
          cases hn : eng.table.natives.namespace? name.name with
          | some n => exact .inr rfl
          | none =>
            rw [hres, hn] at ho
            cases ho
      refine (gives_ownField_of_none h hκ hfield hname).bind fun U v? _ hv => ?_
      subst hv
      refine (gives_staticClass h name.name name.span).bind fun T c? _ hc? => ?_
      cases hres : eng.table.imports.resolve? name.name with
      | some full =>
        rw [hres] at hc? ho
        cases ho
        cases hc? with
        | some hview => exact Gives.pure ⟨_, hview, rfl⟩
      | none =>
        rw [hres] at hc? ho
        cases hc?
        cases hn : eng.table.natives.namespace? name.name with
        | none =>
          rw [hn] at ho
          cases ho
        | some n =>
          rw [hn] at ho
          cases ho
          exact gives_typedNamespace h _ name.span

theorem formed_of_stores {m : Machine StandardFn} (hm : m.Typed eng.table κ W L) {ty : Ty}
    (hty : (BodyContext.ofClass eng.table cls this? rt).Stores L name ty) :
    ty.Formed eng.table.arity? [] := by
  cases hty with
  | «local» hL =>
    by_cases hthis : name = "this"
    · obtain ⟨v, -, hv⟩ := this_ofType h hκ hm (hthis ▸ hL)
      exact hv.formed
    · have hlookup := hm.scope.lookup hthis
      rw [hL] at hlookup
      generalize m.scope.lookup name = v? at hlookup
      cases hlookup with
      | some hv => exact hv.formed
  | field hL hfield =>
    obtain ⟨o, c, -, -, hformed, -, hfield⟩ := exists_this_of_instanceField h hκ hm hfield
    exact h.formed_fieldType hformed hfield

/-- A value that suits what a name stores can be stored to it. -/
theorem gives_store {target : Identifier} {ty : Ty}
    (hty : (BodyContext.ofClass eng.table cls this? rt).Stores L target.name ty)
    {value : Value StandardFn} (hv : value.Valid eng.table W) (hsuits : value.Suits eng.table ty) :
    eng.Gives κ W L (eng.store target value) fun _ _ => True := by
  rw [store_eq]
  split
  · exact Yields.invalid _ _
  · next hthis =>
    intro m hm
    show Concludes eng.table κ W _ (eng.storeIn target value m.scope m)
    unfold storeIn
    cases hty with
    | «local» hL =>
      obtain ⟨s', hassign, hdeclares⟩ := hm.scope.assign hthis hL hsuits
      rw [hassign]
      exact .ok (.refl W) (hm.withScope (hm.valid.scope.assign hv hassign) hdeclares)
        ⟨rfl, trivial⟩
    | field hL hfield =>
      obtain ⟨o, c, rfl, ho, hformed, hcheck, hfield⟩ :=
        exists_this_of_instanceField h hκ hm hfield
      rw [hm.scope.assign_of_none hthis hL, hm.scope.context]
      refine Gives.bind (gives_typed_setField h ho hformed hcheck hfield hv hsuits)
        (fun V stored _ hstored => ?_) m hm
      rw [hstored]
      exact Gives.pure trivial

end Own

/-! ## Values of kinds -/

/-- A plain value of a kind is given a class of that kind. -/
theorem gives_typedValue {v : Value StandardFn} {k : Kind} (hv : v.HasKind eng.table k)
    (hplain : v.IsPlain) (span : Span) :
    eng.Gives κ W L (eng.typedValue v span) fun V x => x.OfType eng.table V k.ty := by
  have hformed := h.formed_kind k.typeName_mem_names
  have hclass : eng.Gives κ W L (do return (⟨← eng.classOf k.ty span, v⟩ : Variable StandardFn))
      fun V x => x.OfType eng.table V k.ty :=
    (gives_classOf_formed h hformed span).map fun V c _ hc =>
      (hc.declares hformed (hv.suits h)).ofType (hc.stored (hplain.valid _ _))
  cases hv with
  | int => exact hclass
  | float => exact hclass
  | bool => exact hclass
  | str => exact hclass
  | object => exact hplain.elim

/-- What an assignment stores suits what it is stored to. -/
theorem gives_combine {op : AssignOp} {current : EvalM StandardFn (Value StandardFn)}
    {declared : Ty} (hdeclared : declared.Formed eng.table.arity? [])
    (hcurrent : eng.Gives κ W L current fun _ now => now.Suits eng.table declared)
    {value : Value StandardFn} (hv : value.Valid eng.table W)
    (hfits : op.Fits eng.table declared value) (span : Span) :
    eng.Gives κ W L (eng.combine op current value span) fun V v =>
      v.Valid eng.table V ∧ v.Suits eng.table declared := by
  unfold AssignOp.Fits at hfits
  unfold combine
  cases hbinary : op.binary? with
  | none =>
    rw [hbinary] at hfits
    exact Gives.pure ⟨hv, hfits⟩
  | some binary =>
    rw [hbinary] at hfits
    obtain ⟨x, hx, hcheck, hresult⟩ := hfits
    have hnamed : (Ty.named x).Formed eng.table.arity? [] := h.formed_operand hx
    refine hcurrent.bind fun V now _ hnow => gives_operators (fun v happ => ?_) span
    obtain ⟨k, hk, hty⟩ := BinaryOp.kind_of_apply h hx (hnow.mono h hdeclared hnamed hcheck) happ
    rw [hty] at hresult
    exact ⟨(BinaryOp.isPlain_apply happ).valid _ _,
      (hk.suits h).mono h (h.formed_kind k.typeName_mem_names) hdeclared hresult⟩

/-! ## Static fields -/

/-- Reading a static field gives the standard output. -/
theorem gives_staticField {calls : Calls StandardFn} (hcalls : calls.Typed eng)
    {className name : String} {ty : Ty}
    (hty : eng.table.staticFieldType className name = .ok (some ty)) {c : RuntimeClass StandardFn}
    (hv : eng.table.Views className c) (span : Span) :
    eng.Gives κ W L (eng.staticField calls c name span) fun V v => v.OfType eng.table V ty := by
  obtain rfl := ClassTable.eq_output_of_staticFieldType h.build hty
  obtain ⟨owner, field, howner, hinit, hlower, hkey⟩ := ClassTable.exists_staticField h.build hty hv
  have hformed := h.formed_kind Kind.printStream.typeName_mem_names
  have houtput : ∀ {V : World StandardFn} {e : (String × String) × Variable StandardFn},
      IsOutput eng.table V e → e.2.OfType eng.table V Kind.printStream.ty := by
    intro V e he
    obtain ⟨o, hvalue, ho, hcls⟩ := he.value
    have htype : e.2.cls.asTy = Kind.printStream.ty := by
      rw [RuntimeClass.asTy, he.cls.ty_eq]
      rfl
    refine Variable.Declares.ofType ⟨htype, hformed, ?_⟩ ⟨⟨_, he.cls⟩, ?_⟩
    · rw [hvalue]
      refine .own rfl ?_ ?_
      · rwa [hcls, htype]
      · rw [hcls, htype]
        exact eng.table.check_self _
    · rw [hvalue]
      exact ho
  rw [staticField_eq _ _ howner]
  intro m hm
  show Concludes eng.table κ W _ (eng.staticOr calls owner field span
    (m.statics.lookup (owner.name, field.name)) m)
  cases hread : m.statics.lookup (owner.name, field.name) with
  | some v => exact .ok (.refl W) hm ⟨rfl, houtput (hm.valid.statics _ (mem_of_lookup hread))⟩
  | none =>
    -- The first read makes the object and keeps it, so the machine has one static field more.
    obtain ⟨d, hd, hdty⟩ := h.exists_class hformed
    have hinstance : eng.table.Instantiates ⟨Ty.printStreamName, []⟩ d :=
      hd.instantiates_of_asTy hdty
    obtain ⟨r, hr, heq⟩ :=
      initStatic_output hinstance hm.valid.remembers calls owner hinit hlower span
    show Concludes eng.table κ W _ (eng.initStatic calls owner field span m)
    rw [heq]
    have hm' : Machine.Typed eng.table κ W L { m with registry := r } :=
      hm.withMemory hr hm.valid.remembers.current
    refine Gives.bind (hcalls.construct span hd (hdty ▸ hformed) .nil) (fun V o _ ho => ?_) _ hm'
    obtain ⟨ho, rfl⟩ := ho
    have he : IsOutput eng.table V ((owner.name, field.name), ⟨o.cls, .object o⟩) :=
      ⟨hkey, hinstance, o, rfl, ho, rfl⟩
    exact (gives_modify fun m hm => hm.withStatic he).bind fun U _ hU _ =>
      Gives.pure (houtput (he.mono hU))

/-! ## Names behind dots -/

section Dots

variable {this? : Option ClassTy} {cls : Template StandardFn} {rt : Option Ty}

/-- What a name behind a dot stands for. -/
theorem gives_fieldValue {calls : Calls StandardFn} (hcalls : calls.Typed eng) {receiver : Operand}
    {field : Identifier} {o : Operand}
    (ho : (BodyContext.ofClass eng.table cls this? rt).fieldOperand receiver field = .ok o)
    {r : Variable StandardFn} (hr : receiver.Means eng.table W r) (span : Span) :
    eng.Gives κ W L (eng.fieldValue calls r.value field span) fun V => o.Means eng.table V := by
  have hresolved : ∀ {V : World StandardFn} {v : Variable StandardFn} {ty : Ty},
      v.OfType eng.table V ty → v.OfType eng.table V ty.resolved := by
    intro V v ty hv
    rwa [Ty.resolved_of_isGround hv.formed.isGround]
  cases receiver with
  | value ty =>
    obtain ⟨ty', hty', heq⟩ := ok_of_map ho
    cases heq
    have hr : r.OfType eng.table W ty.resolved := hr
    have hfield := BodyContext.fieldOf_ok hty'
    rcases h.isObject_of_field (hr.value h) hr.formed hfield with hnull | ⟨o, hobject⟩
    · rw [hnull]
      exact Yields.raise (.nullDereference _) span
    · have hv := hr.value h
      have hstored := hr.stored.value
      rw [hobject] at hv hstored ⊢
      unfold fieldValue
      obtain ⟨-, -, -, -, hcheck⟩ := h.exists_class_of_suits rfl hv
      rw [← Ty.toTy_memberClass hr.formed] at hcheck
      refine Gives.bind (gives_typed_field? h hstored
        (Ty.toTy_memberClass hr.formed ▸ hr.formed) hcheck hfield) fun V v? _ hv? => ?_
      obtain ⟨v, rfl, hv⟩ := hv?
      exact Gives.pure (hresolved hv)
  | static className =>
    obtain ⟨c, hview, rfl⟩ := hr
    obtain ⟨found, hfound, ho⟩ := ok_of_bind ho
    cases found with
    | none => cases ho
    | some ty =>
      cases ho
      exact (gives_staticField h hcalls (typed_ok hfound) hview span).mono fun V v _ hv =>
        hresolved hv
  | «namespace» path =>
    have hr : r.value = .namespace path := hr
    rw [hr]
    unfold BodyContext.fieldOperand at ho
    unfold fieldValue
    dsimp only at ho ⊢
    rw [show (BodyContext.ofClass eng.table cls this? rt).table = eng.table from rfl] at ho
    cases hn : eng.table.natives.lookup (path ++ "." ++ field.name) with
    | none =>
      rw [hn] at ho
      cases ho
    | some entry =>
      rw [hn] at ho
      cases entry with
      | «namespace» n =>
        cases ho
        exact gives_typedNamespace h _ span
      | cls c =>
        cases ho
        rw [h.natives] at hn
        have hname := NativeRegistry.fullName_of_lookup NativeRegistry.spells_standard hn
        have hget := ClassTable.get?_standard h.build (NativeRegistry.mem_classes_of_lookup hn)
        rw [hname] at hget ⊢
        exact (gives_staticView h hget span).bind fun V c _ hc => Gives.pure ⟨c, hc, rfl⟩

/-- A field of a value can be assigned what fits it. -/
theorem gives_storeField {receiver : Ty} {field : Identifier} {declared : Ty}
    (hty : (BodyContext.ofClass eng.table cls this? rt).fieldOf receiver field = .ok declared)
    {r : Variable StandardFn} (hr : r.OfType eng.table W receiver.resolved) {op : AssignOp}
    {value : Value StandardFn} (hv : value.Valid eng.table W)
    (hfits : op.Fits eng.table declared value) (span : Span) :
    eng.Gives κ W L (eng.storeField r.value field op value span) fun _ _ => True := by
  have hfield := BodyContext.fieldOf_ok hty
  rcases h.isObject_of_field (hr.value h) hr.formed hfield with hnull | ⟨o, hobject⟩
  · rw [hnull]
    exact Yields.raise (.nullDereference _) span
  · have hobj := hr.value h
    have hstored := hr.stored.value
    rw [hobject] at hobj hstored ⊢
    obtain ⟨-, -, -, -, hcheck⟩ := h.exists_class_of_suits rfl hobj
    rw [← Ty.toTy_memberClass hr.formed] at hcheck
    have howner := Ty.toTy_memberClass hr.formed ▸ hr.formed
    rw [storeField_object]
    refine (gives_combine h (h.formed_fieldType howner hfield) ?_ hv hfits span).bind
      fun V v hV hv => ?_
    · refine (gives_typed_field? h hstored howner hcheck hfield).bind fun V v? _ hv? => ?_
      obtain ⟨v, rfl, hv⟩ := hv?
      exact Gives.pure (hv.value h)
    · refine (gives_typed_setField h (hstored.mono hV) howner hcheck hfield hv.1 hv.2).bind
        fun U stored _ hstored => ?_
      rw [hstored]
      exact Gives.pure trivial

end Dots

end Engine

end Middleweight
