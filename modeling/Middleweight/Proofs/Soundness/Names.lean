import Middleweight.Proofs.Engine.Parts
import Middleweight.Proofs.Members.Callable
import Middleweight.Proofs.World.Output

/-!
# Names and fields of checked bodies

A static body of a procedural program that the checker accepts finds what it names: a local has a
value that fits its type, a class has its static view, and a path through namespaces leads where the
checker says. There are no fields but the standard output, which is made when it is first read.

* `Engine.keeps_lookup`, `Engine.keeps_store` : bare names
* `Engine.keeps_fieldValue` : names behind dots
-/

namespace Middleweight

open NativeRegistry (standard)

/-! ## What the checker has made sure of -/

theorem Operand.asValue_ok {o : Operand} {span : Span} {ty : Ty} (h : o.asValue span = .ok ty) :
    o = .value ty := by
  cases o with
  | value ty' =>
    cases h
    rfl
  | static className => cases h
  | «namespace» path => cases h

namespace BodyContext

variable {F : Type}

/-- What a static body is checked against where no parameter is in scope. -/
def ofStatic (t : ClassTable F) (cls : Template F) (returnType : Option Ty) : BodyContext F :=
  { table := t, cls, params := [], this? := none, returnType }

variable {ctx : BodyContext F}

theorem applyRule_ok {rule : OperatorRule} {symbol : String} {lhs rhs ty : Ty} {span : Span}
    (h : ctx.applyRule rule symbol lhs rhs span = .ok ty) :
    ∃ x ∈ rule.operands, ctx.table.check lhs (.named x) = true ∧
      ctx.table.check rhs (.named x) = true ∧ ty = rule.resultType x := by
  unfold applyRule at h
  dsimp only at h
  split at h
  · next x hx =>
    cases h
    have hfits := List.find?_some hx
    rw [Bool.and_eq_true] at hfits
    exact ⟨x, List.mem_of_find?_eq_some hx, hfits.1, hfits.2, rfl⟩
  · cases h

theorem applyUnaryRule_ok {rule : OperatorRule} {symbol : String} {operand ty : Ty} {span : Span}
    (h : ctx.applyUnaryRule rule symbol operand span = .ok ty) :
    ∃ x ∈ rule.operands, ctx.table.check operand (.named x) = true ∧ ty = rule.resultType x := by
  unfold applyUnaryRule at h
  split at h
  · next x hx =>
    cases h
    have hfits := List.find?_some hx
    exact ⟨x, List.mem_of_find?_eq_some hx, hfits, rfl⟩
  · cases h

theorem compatible_ok {actual expected : Ty} {isNull : Bool} {span : Span} {u : Unit}
    (h : ctx.compatible actual expected isNull span = .ok u) :
    isNull = true ∨ ctx.table.check actual expected = true := by
  unfold compatible at h
  split at h
  · next hfits =>
    rw [Bool.or_eq_true, Bool.and_eq_true] at hfits
    exact hfits.imp_left And.left
  · cases h

/-- In a static body, a bare name that is a value is a local. -/
theorem lookup_of_variableOperand {t : ClassTable F} {cls : Template F} {rt : Option Ty}
    {L : Locals} {name : Identifier} {ty : Ty}
    (h : (ofStatic t cls rt).variableOperand L name = .ok (.value ty)) :
    L.lookup name.name = some ty := by
  unfold variableOperand at h
  rw [show (ofStatic t cls rt).instanceField name.name = none from rfl] at h
  split at h
  · next hL =>
    cases h
    exact hL
  · dsimp only at h
    split at h
    · cases h
    · split at h <;> cases h

end BodyContext

/-! ## Fields -/

namespace Program.Accepted

variable {p : Program} {t : ClassTable StandardFn} (h : p.Accepted t)

include h

theorem fields_eq_nil {c : Template StandardFn} (hc : c ∈ t.classes) : c.fields = [] := by
  rcases ClassTable.mem_classes_cases h.build hc with ⟨q, rfl⟩ | ⟨n, hn, hmade⟩ | ⟨d, hd, hmade⟩
  · rfl
  · obtain ⟨base, -, rfl⟩ := ClassTable.nativeTemplate_ok hmade
    rfl
  · obtain ⟨base, fields, -, hfields, rfl⟩ := ClassTable.declaredTemplate_ok hmade
    rw [(h.procedural.classes d hd).fields] at hfields
    cases hfields
    rfl

/-- No value has a field. -/
theorem fieldType_ne {owner : ClassTy} {name : String} {ty : Ty} :
    t.fieldType owner name ≠ .ok (some ty) := by
  unfold ClassTable.fieldType
  generalize t.height = fuel
  induction fuel generalizing owner with
  | zero => exact fun heq => nomatch heq
  | succ fuel ih =>
    intro heq
    rw [ClassTable.fieldTypeWithin] at heq
    split at heq
    · cases heq
    · next c hc =>
      have hnone : c.field? name = none := by
        rw [Template.field?, h.fields_eq_nil (ClassTable.get?_mem (ClassTable.template_ok_iff.mp hc))]
        rfl
      simp only [hnone] at heq
      cases hb : t.baseOf owner with
      | error e =>
        rw [hb] at heq
        cases heq
      | ok base? =>
        rw [hb] at heq
        cases base? with
        | none => cases heq
        | some base => exact ih heq

theorem fieldOf_ne {cls : Template StandardFn} {rt : Option Ty} {receiver : Ty}
    {field : Identifier} {ty : Ty} :
    (BodyContext.ofStatic t cls rt).fieldOf receiver field ≠ .ok ty := by
  intro heq
  obtain ⟨found, hfound, heq⟩ := ok_of_bind heq
  cases found with
  | none => cases heq
  | some ty' => exact h.fieldType_ne (typed_ok hfound)

end Program.Accepted

/-! ## The standard output -/

/-- Every class on the walk from a class upwards is among the layers of its static view. -/
theorem ClassTable.Views.exists_layer {F : Type} {t : ClassTable F} {name : String}
    {c : RuntimeClass F} (hv : t.Views name c) : ∀ {fuel : Nat} {seen : List String} {a : String},
    a ∈ t.chain fuel seen name → ∃ l ∈ c.layers, t.get? a = some l.template := by
  have hown : ∀ {name : String} {c : RuntimeClass F}, t.Views name c →
      ∃ l ∈ c.layers, t.get? name = some l.template :=
    fun hv => ⟨_, List.mem_cons_self, ClassTable.own_view hv⟩
  induction hv with
  | @root name tm hg hb =>
    intro fuel seen a ha
    have hbase : t.baseName? name = none := by simp [baseName?, hg, hb]
    cases fuel with
    | zero => cases ha
    | succ fuel =>
      rw [chain, hbase] at ha
      split at ha
      · cases ha
      · rw [List.mem_singleton.mp ha]
        exact hown (.root hg hb)
  | @derived name tm base b hg hb hviews ih =>
    intro fuel seen a ha
    have hbase : t.baseName? name = some base.name := by simp [baseName?, hg, hb]
    cases fuel with
    | zero => cases ha
    | succ fuel =>
      rw [chain, hbase] at ha
      split at ha
      · cases ha
      · rcases List.mem_cons.mp ha with rfl | ha
        · exact hown (.derived hg hb hviews)
        · obtain ⟨l, hl, hget⟩ := ih ha
          exact ⟨l, List.mem_cons_of_mem _ hl, hget⟩

theorem ClassTable.staticFieldIn_ok {F : Type} {t : ClassTable F} {name : String} {ty : Ty} :
    ∀ {owners : List String}, t.staticFieldIn name owners = .ok (some ty) →
    ∃ a ∈ owners, ∃ tm n field, t.get? a = some tm ∧ tm.native? = some n ∧
      n.staticField? name = some field ∧ t.lower [] field.ty = .ok ty
  | [], h => by cases h
  | a :: rest, h => by
    rw [staticFieldIn] at h
    split at h
    · cases h
    · next tm htm =>
      split at h
      · next field hfield =>
        obtain ⟨n, hn, hfield⟩ := Option.bind_eq_some_iff.mp hfield
        obtain ⟨ty', hlower, heq⟩ := ok_of_map h
        cases heq
        exact ⟨a, List.mem_cons_self, tm, n, field, template_ok_iff.mp htm, hn, hfield, hlower⟩
      · obtain ⟨a, ha, hrest⟩ := staticFieldIn_ok h
        exact ⟨a, List.mem_cons_of_mem _ ha, hrest⟩

theorem Engine.staticFieldOwner?_isSome {F : Type} {c : RuntimeClass F} {name : String} :
    ∀ {ls : List (Layer F)}, (∃ l ∈ ls, ∃ n field, l.template.native? = some n ∧
      n.staticField? name = some field) → ∃ r, staticFieldOwner? c name ls = some r
  | [], hl => by
    obtain ⟨l, hl, -⟩ := hl
    cases hl
  | layer :: rest, hl => by
    rw [staticFieldOwner?]
    split
    · exact ⟨_, rfl⟩
    · next hnone =>
      refine staticFieldOwner?_isSome ?_
      obtain ⟨l, hl, n, field, hn, hfield⟩ := hl
      rcases List.mem_cons.mp hl with rfl | hl
      · rw [hn, Option.bind_some, hfield] at hnone
        cases hnone
      · exact ⟨l, hl, n, field, hn, hfield⟩

namespace ClassTable

variable {p : Program} {t : ClassTable StandardFn} (h : build p standard = .ok t)

include h

/-- A static field is the standard output. -/
theorem eq_output_of_staticFieldType {className name : String} {ty : Ty}
    (hty : t.staticFieldType className name = .ok (some ty)) : ty = Kind.printStream.ty := by
  obtain ⟨a, -, tm, n, field, htm, hn, hfield, hlower⟩ := staticFieldIn_ok hty
  obtain ⟨-, -, -, hstream⟩ := staticField_standard h htm hn (List.mem_of_find?_eq_some hfield)
  cases hlower.symm.trans hstream
  rfl

/-- The static view of a class with a static field has it. -/
theorem exists_staticField {className name : String} {ty : Ty}
    (hty : t.staticFieldType className name = .ok (some ty)) {c : RuntimeClass StandardFn}
    (hv : t.Views className c) :
    ∃ owner field, Engine.staticFieldOwner? c name c.layers = some (owner, field) ∧
      field.init = .systemOut ∧ t.lower [] field.ty = .ok Kind.printStream.ty ∧
      (owner.name, field.name) = ("java.lang.System", "out") := by
  obtain ⟨a, ha, tm, n, field, htm, hn, hfield, -⟩ := staticFieldIn_ok hty
  obtain ⟨l, hl, hget⟩ := hv.exists_layer ha
  cases htm.symm.trans hget
  obtain ⟨⟨owner, found⟩, howner⟩ :=
    Engine.staticFieldOwner?_isSome (c := c) ⟨l, hl, n, field, hn, hfield⟩
  obtain ⟨hext, k, hk, hmem⟩ := Engine.staticFieldOwner?_eq_some rfl rfl howner
  have hshows : t.Shows owner := Shows.extends ⟨_, hv⟩ hext
  obtain ⟨hsystem, hout, hinit, hlower'⟩ := staticField_standard h hshows.get? hk hmem
  exact ⟨owner, found, howner, hinit, hlower', by rw [hsystem, hout]⟩

end ClassTable

namespace Program.Accepted

variable {p : Program} {t : ClassTable StandardFn} (h : p.Accepted t)

include h

/-- A field is the standard output. -/
theorem fieldOperand_value {cls : Template StandardFn} {rt : Option Ty} {receiver : Operand}
    {field : Identifier} {ty : Ty}
    (hty : (BodyContext.ofStatic t cls rt).fieldOperand receiver field = .ok (.value ty)) :
    ty = Kind.printStream.ty := by
  cases receiver with
  | value ty' =>
    obtain ⟨ty'', hty'', -⟩ := ok_of_map hty
    exact absurd hty'' h.fieldOf_ne
  | static className =>
    obtain ⟨found, hfound, hty⟩ := ok_of_bind hty
    cases found with
    | none => cases hty
    | some ty' =>
      cases hty
      exact ClassTable.eq_output_of_staticFieldType h.build (typed_ok hfound)
  | «namespace» path =>
    unfold BodyContext.fieldOperand at hty
    dsimp only at hty
    split at hty <;> cases hty

end Program.Accepted

/-! ## Checked calls -/

/-- What a call gives by its declared return type. -/
def ResultFits {F : Type} (t : ClassTable F) : Option Ty → Option (Variable F) → Prop
  | none, _ => True
  | some ty, r => ∃ v, r = some v ∧ v.HasType t ty

/-- Calls that stop only where they may, and give what the called method declares. -/
structure Calls.Checked (eng : Engine StandardFn) (p : Program) (calls : Calls StandardFn) :
    Prop where
  dispatch : ∀ {L : Locals} {c : RuntimeClass StandardFn} {this : Value StandardFn} {name : String}
    {isStatic : Bool} {args : List (Variable StandardFn)} {argTypes : List Ty} {span : Span}
    {s : Selected StandardFn (RuntimeClass StandardFn)},
    eng.table.runtimeMembers.resolveMethod eng.table c name isStatic argTypes = .ok (.found s) →
    s.IsCallable p eng.table this →
    List.Forall₂ (fun v q => v.value.Fits eng.table q.ty) args s.signature.params →
    eng.Keeps L (calls.dispatch c this name isStatic args argTypes span)
      (ResultFits eng.table s.signature.returnType)
  construct : ∀ {L : Locals} {d : RuntimeClass StandardFn} (span : Span),
    eng.table.Instantiates ⟨Ty.printStreamName, []⟩ d →
    eng.Keeps L (calls.construct d [] [] span) fun o => o.cls = d

namespace Engine

variable {p : Program} {eng : Engine StandardFn} (h : p.Accepted eng.table)
  {calls : Calls StandardFn} {L : Locals}

include h

/-- Reading a static field gives the standard output. -/
theorem keeps_staticField (hcalls : calls.Checked eng p) {className name : String} {ty : Ty}
    (hty : eng.table.staticFieldType className name = .ok (some ty)) {c : RuntimeClass StandardFn}
    (hv : eng.table.Views className c) (span : Span) :
    eng.Keeps L (eng.staticField calls c name span) fun v => v.HasType eng.table ty := by
  obtain rfl := ClassTable.eq_output_of_staticFieldType h.build hty
  obtain ⟨owner, field, howner, hinit, hlower, -⟩ := ClassTable.exists_staticField h.build hty hv
  have hknows := Kind.knows h.build .printStream
  rw [staticField_eq _ _ howner]
  intro m hm
  show Ends eng.table _ (eng.staticOr calls owner field span
    (m.statics.lookup (owner.name, field.name)) m)
  cases hread : m.statics.lookup (owner.name, field.name) with
  | some v => exact .ok ⟨rfl, hm.statics _ (mem_of_lookup hread)⟩ hm
  | none =>
    -- The first read makes the object and keeps it, so the machine has one static field more.
    obtain ⟨d, -, hd, hdty⟩ := h.rooted.classFor_ok hknows span
    have hd : eng.table.Instantiates ⟨Ty.printStreamName, []⟩ d := by
      have hmakes : eng.table.Makes d := ⟨_, hd⟩
      exact hmakes.instantiates_of_asTy hdty
    obtain ⟨r, hr, heq⟩ := initStatic_output hd hm.remembers calls owner hinit hlower span
    show Ends eng.table _ (eng.initStatic calls owner field span m)
    rw [heq]
    have hm' : Machine.Sound eng.table { m with registry := r } L :=
      hm.withMemory hr hm.remembers.current
    refine Keeps.bind (hcalls.construct span hd) (fun o ho => ?_) _ hm'
    subst ho
    have hvar : Variable.HasType eng.table ⟨o.cls, .object o⟩ Kind.printStream.ty :=
      ClassTable.IsClassOf.hasType ⟨hd.ty_eq ▸ hd, hdty⟩ hknows (Value.HasKind.object hd).fits
    intro m₁ hm₁
    refine .ok ⟨rfl, hvar⟩
      ⟨⟨hm₁.remembers.registry, hm₁.remembers.caches⟩, hm₁.scope, fun e he => ?_⟩
    rcases List.mem_cons.mp he with rfl | he
    · exact hvar
    · exact hm₁.statics e he

/-! ## Bare names -/

omit h in
/-- A local has a variable of its type. -/
theorem keeps_lookup_local {name : Identifier} {ty : Ty} (hL : L.lookup name.name = some ty) :
    eng.Keeps L (eng.lookup name) fun v => v.HasType eng.table ty := by
  rw [lookup_eq]
  refine Keeps.bind keeps_scope fun s hs => ?_
  have hthis : name.name ≠ "this" := by
    intro heq
    rw [heq, hs.lookup_this] at hL
    cases hL
  unfold lookupIn
  rw [if_neg hthis]
  rcases rel_elim (hs.lookup name.name) with ⟨-, hnone⟩ | ⟨v, ty', hl, hsome, hv⟩
  · cases hL.symm.trans hnone
  · cases hL.symm.trans hsome
    rw [hl]
    exact Keeps.pure hv

/-- A bare name stands for what the checker says, unless it is `this` and a class is named so. -/
theorem keeps_lookup {cls : Template StandardFn} {rt : Option Ty} {name : Identifier}
    {o : Operand} (ho : (BodyContext.ofStatic eng.table cls rt).variableOperand L name = .ok o) :
    eng.Keeps L (eng.lookup name) (o.Denotes eng.table) := by
  unfold BodyContext.variableOperand at ho
  rw [show (BodyContext.ofStatic eng.table cls rt).instanceField name.name = none from rfl,
    show (BodyContext.ofStatic eng.table cls rt).table = eng.table from rfl] at ho
  cases hL : L.lookup name.name with
  | some ty =>
    rw [hL] at ho
    cases ho
    exact Keeps.mono (keeps_lookup_local hL) fun v hv => hv.resolved
  | none =>
    rw [hL] at ho
    dsimp only at ho
    rw [lookup_eq]
    refine Keeps.bind keeps_scope fun s hs => ?_
    unfold lookupIn
    by_cases hthis : name.name = "this"
    · have hnone : s.context.this? = none := by rw [Context.this?, hs.context]; rfl
      rw [if_pos hthis, hnone, hthis]
      rw [hthis] at ho
      cases hres : eng.table.imports.resolve? "this" with
      -- The checker finds the class, and the engine looks for an instance: a stop that is permitted.
      | some full => exact Safe.raise (.this hres) _
      | none =>
        have hnamespace : standard.namespace? "this" = none := by decide +kernel
        simp only [hres, h.natives, hnamespace] at ho
        cases ho
    · have hown : EvalM.ownField? s.context name.name = pure none := by
        unfold EvalM.ownField?
        rw [hs.context]
      have hl : s.lookup name.name = none := by
        rcases rel_elim (hs.lookup name.name) with ⟨hl, -⟩ | ⟨v, ty, -, hsome, -⟩
        · exact hl
        · cases hL.symm.trans hsome
      rw [if_neg hthis, hl]
      dsimp only
      rw [hown, pure_bind]
      refine Keeps.bind (keeps_staticClass h.rooted (fun full => h.get?_of_resolve?) name.span)
        fun c? hc? => ?_
      cases hres : eng.table.imports.resolve? name.name with
      | some full =>
        rw [hres] at hc?
        simp only [hres] at ho
        cases ho
        cases hc? with
        | some hview => exact Keeps.pure ⟨_, hview, rfl⟩
      | none =>
        rw [hres] at hc?
        simp only [hres] at ho
        cases hc?
        cases hn : eng.table.natives.namespace? name.name with
        | none =>
          rw [hn] at ho
          cases ho
        | some n =>
          rw [hn] at ho
          cases ho
          exact keeps_typedNamespace h.rooted _ (ClassTable.knows_object h.build) name.span

omit h in
/-- A local can be given another value that fits its type. -/
theorem keeps_store {target : Identifier} {ty : Ty} (hL : L.lookup target.name = some ty)
    {value : Value StandardFn} (hv : value.Fits eng.table ty) :
    eng.Keeps L (eng.store target value) fun _ => True := by
  rw [store_eq]
  split
  · exact Safe.invalid _ _
  · intro m hm
    show Ends eng.table _ (eng.storeIn target value m.scope m)
    obtain ⟨s', hassign, hfits⟩ := hm.scope.assign hL hv
    unfold storeIn
    rw [hassign]
    exact .ok ⟨rfl, trivial⟩ (hm.withScope hfits
      (Scope.forall_assign (fun _ hl => hl) hm.remembers.caches hassign))

/-! ## Names behind dots -/

/-- What a name behind a dot stands for. -/
theorem keeps_fieldValue (hcalls : calls.Checked eng p) {cls : Template StandardFn}
    {rt : Option Ty} {receiver : Operand} {field : Identifier} {o : Operand}
    (ho : (BodyContext.ofStatic eng.table cls rt).fieldOperand receiver field = .ok o)
    {r : Variable StandardFn} (hr : receiver.Denotes eng.table r) (span : Span) :
    eng.Keeps L (eng.fieldValue calls r.value field span) (o.Denotes eng.table) := by
  cases receiver with
  | value ty =>
    -- No class has fields of its instances.
    obtain ⟨ty', hty', -⟩ := ok_of_map ho
    exact absurd hty' h.fieldOf_ne
  | static className =>
    obtain ⟨c, hview, rfl⟩ := hr
    obtain ⟨found, hfound, ho⟩ := ok_of_bind ho
    cases found with
    | none => cases ho
    | some ty =>
      cases ho
      exact Keeps.mono (keeps_staticField h hcalls (typed_ok hfound) hview span) fun v hv =>
        hv.resolved
  | «namespace» path =>
    have hr : r.value = .namespace path := hr
    rw [hr]
    unfold BodyContext.fieldOperand at ho
    unfold fieldValue
    dsimp only at ho ⊢
    rw [show (BodyContext.ofStatic eng.table cls rt).table = eng.table from rfl] at ho
    cases hn : eng.table.natives.lookup (path ++ "." ++ field.name) with
    | none =>
      rw [hn] at ho
      cases ho
    | some entry =>
      rw [hn] at ho
      cases entry with
      | «namespace» n =>
        cases ho
        exact keeps_typedNamespace h.rooted _ (ClassTable.knows_object h.build) span
      | cls c =>
        cases ho
        rw [h.natives] at hn
        have hname := NativeRegistry.fullName_of_lookup NativeRegistry.spells_standard hn
        have hget := ClassTable.get?_standard h.build (NativeRegistry.mem_classes_of_lookup hn)
        rw [hname] at hget ⊢
        exact Keeps.bind (keeps_staticView h.rooted hget span) fun c hc =>
          Keeps.pure ⟨c, hc, rfl⟩

end Engine

end Middleweight
