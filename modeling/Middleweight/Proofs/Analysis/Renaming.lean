import Middleweight.Proofs.Analysis.Checked
import Middleweight.Proofs.ClassTable.Renaming
import Middleweight.Syntax.Build

/-!
# Names of generic parameters

A call puts the types that its arguments bind into the signature of a method by name, after the
arguments of the class of the receiver have been put in. These may mention parameters of the caller.
If one of them has the name of a parameter of the called method, it is taken for that: the call is
checked against the wrong types. So the name of a parameter can decide whether a program is accepted.

It cannot where different parameters have different names. Analysis is followed step by step on two
programs that differ in the names of parameters of methods: expansion, regrouping, and the checker
constructor by constructor. Both fail, or both go well and give results that differ in these names.

* `BodyContext.Renamed.operand_concur`, `BodyContext.Renamed.statement_concur` : bodies
* `Program.analyse_concur` : programs
* `accepts_renameGeneric_iff` : a parameter with a name of its own can be renamed
* `renaming_changes_acceptance` : one that shares its name cannot
-/

namespace Middleweight

open NativeRegistry (standard)

variable {F : Type} {σ : String → String}

theorem Concur.typed {α β : Type} {R : α → β → Prop} {x : Except TypeError α}
    {y : Except TypeError β} (h : Concur R x y) : Concur R (typed x) (typed y) := by
  cases h with
  | error e e' => exact .error _ _
  | ok hr => exact .ok hr

/-! ## Locals and operands -/

/-- Locals with renamed types. -/
def Locals.rename (σ : String → String) (L : Locals) : Locals :=
  L.map fun level => level.map fun e => (e.1, e.2.rename σ)

namespace Locals

/-- A local has the renamed type. -/
theorem lookup_rename (name : String) (L : Locals) :
    (L.rename σ).lookup name = (L.lookup name).map (Ty.rename σ) := by
  induction L with
  | nil => rfl
  | cons level outer ih =>
    have hlevel := lookup_map_snd (fun _ ty => Ty.rename σ ty) level name
    rw [rename] at ih
    rw [rename, List.map_cons, lookup, lookup, hlevel, ih]
    cases level.lookup name <;> rfl

/-- A local is declared with the renamed type, and is new in both or in neither. -/
theorem define?_rename (name : String) (ty : Ty) (L : Locals) :
    (L.rename σ).define? name (ty.rename σ) = (L.define? name ty).map (rename σ) := by
  cases L with
  | nil => rfl
  | cons level outer =>
    have hlevel := lookup_map_snd (fun _ ty => Ty.rename σ ty) level name
    rw [rename, List.map_cons, define?, define?, hlevel, Option.isSome_map]
    split <;> rfl

end Locals

/-- What an expression stands for, with renamed types. -/
def Operand.rename (σ : String → String) : Operand → Operand
  | value ty => value (ty.rename σ)
  | static className => static className
  | «namespace» path => «namespace» path

/-- What is no value is none under other names. -/
theorem Operand.asValue_concur (o : Operand) (span span' : Span) :
    Concur (fun a b => b = a.rename σ) (o.asValue span) ((o.rename σ).asValue span') := by
  cases o with
  | value ty => exact .ok rfl
  | static className => exact .error _ _
  | «namespace» path => exact .error _ _

namespace Ty

/-- The class with the members of a type is renamed with it. -/
theorem memberClass_rename (t : Ty) : (t.rename σ).memberClass = t.memberClass.rename σ := by
  unfold memberClass
  rw [resolved_rename]
  cases t.resolved with
  | cls n args => rw [rename_cls]; rfl
  | unbound n => rw [rename_unbound, ClassTy.rename, renameAll_nil]
  | bound n t => rw [rename_bound, ClassTy.rename, renameAll_nil]

theorem isPrimitive_rename (t : Ty) : (t.rename σ).isPrimitive = t.isPrimitive := by
  unfold isPrimitive
  rw [resolved_rename]
  cases t.resolved with
  | cls n args => rw [rename_cls]
  | unbound n => rw [rename_unbound]
  | bound n t => rw [rename_bound]

/-- Results of operators are types without parameters. -/
theorem rename_resultType (rule : OperatorRule) (operand : String) :
    (rule.resultType operand).rename σ = rule.resultType operand :=
  rename_named _

theorem rename_boolean : boolean.rename σ = boolean := rename_named _

theorem rename_literal (value : Literal) : value.ty.rename σ = value.ty := by
  cases value <;> exact rename_named _

end Ty

/-! ## Contexts -/

/-- The context of a body under parameters of some names, and the same with other names for them. -/
structure BodyContext.Renamed (σ : String → String) (g : List String) (ctx ctx' : BodyContext F) :
    Prop where
  table : ctx.table.Renamed σ ctx'.table
  base : ctx'.cls.base = ctx.cls.base
  fixedBase : ∀ b ∈ ctx.cls.base, b.rename σ = b
  params : ctx'.params = ctx.params.rename σ
  named : ctx.params.Named g
  this? : ctx'.this? = ctx.this?.map (ClassTy.rename σ)
  returnType : ctx'.returnType = ctx.returnType.map (Ty.rename σ)

namespace BodyContext.Renamed

variable {g : List String} {ctx ctx' : BodyContext F} (h : ctx.Renamed σ g ctx')

include h

/-- What lowers in one context lowers in the other, to the renamed type. -/
theorem lower_concur {e e' : TypeExpr} (he : e.Follows σ g e') :
    Concur (fun a b => b = a.rename σ) (ctx.lower e) (ctx'.lower e') := by
  rw [lower, lower, h.params]
  exact (h.table.lower_concur h.named he).typed

/-- Whether a type passes as a class without parameters does not depend on names. -/
theorem check_named_eq (ty : Ty) (name : String) :
    ctx'.table.check (ty.rename σ) (.named name) = ctx.table.check ty (.named name) := by
  rw [← h.table.check_eq ty (.named name), Ty.rename_named]

/-- An operator accepts operands of renamed types. -/
theorem applyRule_concur (rule : OperatorRule) (symbol : String) (lhs rhs : Ty)
    (span span' : Span) : Concur (fun a b => b = a.rename σ)
      (ctx.applyRule rule symbol lhs rhs span)
      (ctx'.applyRule rule symbol (lhs.rename σ) (rhs.rename σ) span') := by
  unfold applyRule
  simp only [h.check_named_eq]
  split
  · exact .ok (Ty.rename_resultType rule _).symm
  · exact .error _ _

theorem applyUnaryRule_concur (rule : OperatorRule) (symbol : String) (operand : Ty)
    (span span' : Span) : Concur (fun a b => b = a.rename σ)
      (ctx.applyUnaryRule rule symbol operand span)
      (ctx'.applyUnaryRule rule symbol (operand.rename σ) span') := by
  unfold applyUnaryRule
  simp only [h.check_named_eq]
  split
  · exact .ok (Ty.rename_resultType rule _).symm
  · exact .error _ _

/-- A renamed type passes as a renamed type. -/
theorem compatible_concur (actual expected : Ty) (isNull : Bool) (span span' : Span) :
    Concur (fun _ _ => True) (ctx.compatible actual expected isNull span)
      (ctx'.compatible (actual.rename σ) (expected.rename σ) isNull span') := by
  unfold compatible
  rw [Ty.isPrimitive_rename, h.table.check_eq]
  split
  · exact .ok trivial
  · exact .error _ _

/-! ## Names and members -/

/-- A field of the own class has the renamed type. -/
theorem instanceField_eq (name : String) :
    ctx'.instanceField name = (ctx.instanceField name).map (Ty.rename σ) := by
  unfold instanceField
  rw [h.this?]
  cases ctx.this? with
  | none => rfl
  | some this =>
    rw [Option.map_some]
    rcases (h.table.fieldType_concur this name).elim with ⟨e, e', h1, h2⟩ | ⟨a, b, h1, h2, rfl⟩
    · simp only [h1, h2]
      rfl
    · simp only [h1, h2]

/-- A bare name stands for the renamed operand. -/
theorem variableOperand_concur (L : Locals) (name : Identifier) :
    Concur (fun a b => b = a.rename σ) (ctx.variableOperand L name)
      (ctx'.variableOperand (L.rename σ) name) := by
  unfold variableOperand
  rw [Locals.lookup_rename, h.instanceField_eq, h.table.imports, h.table.natives]
  cases L.lookup name.name with
  | some ty => exact .ok rfl
  | none =>
    cases ctx.instanceField name.name with
    | some ty => exact .ok rfl
    | none =>
      dsimp only [Option.map_none]
      cases ctx.table.imports.resolve? name.name with
      | some full => exact .ok rfl
      | none =>
        dsimp only
        cases ctx.table.natives.namespace? name.name with
        | some n => exact .ok rfl
        | none => exact .error _ _

/-- A field of a renamed receiver has the renamed type. -/
theorem fieldOf_concur (receiver : Ty) (field : Identifier) :
    Concur (fun a b => b = a.rename σ) (ctx.fieldOf receiver field)
      (ctx'.fieldOf (receiver.rename σ) field) := by
  unfold fieldOf
  rw [Ty.memberClass_rename]
  refine (h.table.fieldType_concur receiver.memberClass field.name).typed.bind fun {a b} hab => ?_
  subst hab
  cases a with
  | none => exact .error _ _
  | some ty => exact .ok rfl

theorem fieldOperand_concur (receiver : Operand) (field : Identifier) :
    Concur (fun a b => b = a.rename σ) (ctx.fieldOperand receiver field)
      (ctx'.fieldOperand (receiver.rename σ) field) := by
  cases receiver with
  | value ty => exact (h.fieldOf_concur ty field).map fun hab => congrArg Operand.value hab
  | static className =>
    unfold fieldOperand
    refine (h.table.staticFieldType_concur className field.name).typed.bind fun {a b} hab => ?_
    subst hab
    cases a with
    | none => exact .error _ _
    | some ty => exact .ok rfl
  | «namespace» path =>
    simp only [Operand.rename, fieldOperand, h.table.natives]
    split
    · exact .ok rfl
    · exact .ok rfl
    · exact .error _ _

omit h in
/-- A call goes to the renamed class. -/
theorem callOwner_concur (receiver : Operand) (span span' : Span) :
    Concur (fun a b => b = (a.1.rename σ, a.2)) (callOwner receiver span)
      (callOwner (receiver.rename σ) span') := by
  cases receiver with
  | value ty => exact .ok (congrArg (·, false) (Ty.memberClass_rename ty))
  | static className =>
    refine .ok ?_
    rw [ClassTy.rename, Ty.renameAll_nil]
  | «namespace» path => exact .error _ _

omit h in
theorem selected_concur {r r' : Resolution F ClassTy} (hr : r.Renamed σ r') (span span' : Span) :
    Concur (fun a b => b = a.map (Ty.rename σ)) (selected r span) (selected r' span') := by
  cases hr with
  | found hreturn => exact .ok hreturn
  | defaultConstructor => exact .ok rfl
  | ambiguous a a' => exact .error _ _
  | missing m m' => exact .error _ _

/-- A call with renamed arguments has the renamed result. -/
theorem callResult_concur (owner : ClassTy × Bool) (method : String) (args : List Ty)
    (span span' : Span) : Concur (fun a b => b = a.map (Ty.rename σ))
      (ctx.callResult owner method args span)
      (ctx'.callResult (owner.1.rename σ, owner.2) method (Ty.renameAll σ args) span') :=
  (h.table.resolveMethod_concur owner.1 method owner.2 args).typed.bind fun hr =>
    selected_concur hr span span'

/-- A construction with renamed arguments is accepted alike. -/
theorem construction_concur (owner : ClassTy) (args : List Ty) (span span' : Span) :
    Concur (fun _ _ => True) (ctx.construction owner args span)
      (ctx'.construction (owner.rename σ) (Ty.renameAll σ args) span') :=
  (h.table.resolveConstructor_concur owner args).typed.bind fun hr =>
    (selected_concur hr span span').bind fun _ => .ok trivial

/-! ## Expressions -/

omit h in
mutual

/-- Expressions that follow a renaming stand for renamed things. -/
theorem operand_concur (h : ctx.Renamed σ g ctx') (L : Locals) : ∀ {e e' : Expr},
    e.Retyped (TypeExpr.Follows σ g) e' →
      Concur (fun a b => b = a.rename σ) (ctx.operand L e) (ctx'.operand (L.rename σ) e')
  | _, _, .literal value span => by
    rw [operand, operand]
    exact .ok (congrArg Operand.value (Ty.rename_literal value).symm)
  | _, _, .var name => by
    rw [operand, operand]
    exact h.variableOperand_concur L name
  | _, _, .binary op span hl hr => by
    rw [operand, operand]
    refine (operand_concur h L hl).bind fun {l _} heq => heq ▸ ?_
    refine (l.asValue_concur _ _).bind fun {a _} heq => heq ▸ ?_
    refine (operand_concur h L hr).bind fun {r _} heq => heq ▸ ?_
    refine (r.asValue_concur _ _).bind fun {b _} heq => heq ▸ ?_
    exact (h.applyRule_concur op.rule op.symbol a b span span).bind fun heq => heq ▸ .ok rfl
  | _, _, .unary op span he => by
    rw [operand, operand]
    refine (operand_concur h L he).bind fun {o _} heq => heq ▸ ?_
    refine (o.asValue_concur _ _).bind fun {a _} heq => heq ▸ ?_
    exact (h.applyUnaryRule_concur op.rule op.symbol a span span).bind fun heq => heq ▸ .ok rfl
  | _, _, .step op before span he => by
    have ih := operand_concur h L he
    cases he with
    | var name =>
      rw [operand, operand]
      refine ih.bind fun {o _} heq => heq ▸ ?_
      refine (o.asValue_concur _ _).bind fun {a _} heq => heq ▸ ?_
      exact (h.applyUnaryRule_concur _ _ a span span).bind fun heq => heq ▸ .ok rfl
    | field name s he =>
      rw [operand, operand]
      refine ih.bind fun {o _} heq => heq ▸ ?_
      refine (o.asValue_concur _ _).bind fun {a _} heq => heq ▸ ?_
      exact (h.applyUnaryRule_concur _ _ a span span).bind fun heq => heq ▸ .ok rfl
    | _ =>
      simp only [operand]
      exact .error _ _
  | _, _, .ternary span hc ha hb => by
    rw [operand, operand, Expr.isNullLiteral_eq_of_retyped hc]
    refine (operand_concur h L hc).bind fun {o _} heq => heq ▸ ?_
    refine (o.asValue_concur _ _).bind fun {c _} heq => heq ▸ ?_
    refine Concur.bind (R := fun _ _ => True) ?_ fun _ => ?_
    · have hfits := h.compatible_concur c .boolean
      rw [Ty.rename_boolean] at hfits
      exact hfits _ _ _
    · refine (operand_concur h L ha).bind fun {l _} heq => heq ▸ ?_
      refine (l.asValue_concur _ _).bind fun {a _} heq => heq ▸ ?_
      refine (operand_concur h L hb).bind fun {r _} heq => heq ▸ ?_
      refine (r.asValue_concur _ _).bind fun {b _} heq => heq ▸ ?_
      have hsame : ((a.rename σ).resolved == (b.rename σ).resolved) =
          (a.resolved == b.resolved) := by
        rw [Ty.resolved_rename, Ty.resolved_rename]
        exact Ty.same_rename h.table.injective a.resolved b.resolved
      rw [hsame]
      split
      · exact .ok rfl
      · exact .error _ _
  | _, _, .new span hty hargs => by
    rw [operand, operand]
    refine (h.lower_concur hty).bind fun {ty _} heq => heq ▸ ?_
    cases ty with
    | cls name args =>
      rw [Ty.rename_cls]
      refine (values_concur h L hargs).bind fun {given _} heq => heq ▸ ?_
      refine (h.construction_concur ⟨name, args⟩ given span span).bind fun _ => .ok ?_
      rw [Operand.rename, Ty.rename_cls]
    | unbound n =>
      rw [Ty.rename_unbound]
      exact .error _ _
    | bound n t =>
      rw [Ty.rename_bound]
      exact .error _ _
  | _, _, .field name span he => by
    rw [operand, operand]
    exact (operand_concur h L he).bind fun {o _} heq => heq ▸ h.fieldOperand_concur o name
  | _, _, .call method span he hargs => by
    rw [operand, operand]
    refine (operand_concur h L he).bind fun {o _} heq => heq ▸ ?_
    refine (callOwner_concur o _ _).bind fun {owner _} heq => heq ▸ ?_
    refine (values_concur h L hargs).bind fun {given _} heq => heq ▸ ?_
    refine (h.callResult_concur owner method.name given span span).bind fun {a _} heq => heq ▸ ?_
    cases a with
    | none => exact .error _ _
    | some ty => exact .ok rfl
  | _, _, .cast span hty he => by
    rw [operand, operand]
    refine (operand_concur h L he).bind fun {o _} heq => heq ▸ ?_
    refine (o.asValue_concur _ _).bind fun _ => ?_
    exact (h.lower_concur hty).bind fun heq => heq ▸ .ok rfl
  | _, _, .instanceOf span hty he => by
    rw [operand, operand]
    refine (operand_concur h L he).bind fun {o _} heq => heq ▸ ?_
    refine (o.asValue_concur _ _).bind fun {a _} heq => heq ▸ ?_
    refine (h.lower_concur hty).bind fun _ => ?_
    exact (h.applyUnaryRule_concur _ _ a span span).bind fun heq => heq ▸ .ok rfl
  | _, _, .group span he => by
    rw [operand, operand]
    exact operand_concur h L he

/-- A list of expressions has the renamed types. -/
theorem values_concur (h : ctx.Renamed σ g ctx') (L : Locals) : ∀ {es es' : List Expr},
    Expr.AllRetyped (TypeExpr.Follows σ g) es es' →
      Concur (fun a b => b = Ty.renameAll σ a) (ctx.values L es) (ctx'.values (L.rename σ) es')
  | _, _, .nil => by
    rw [values, values]
    exact .ok Ty.renameAll_nil.symm
  | _ :: es, _ :: es', .cons he hrest => by
    rw [values, values, Expr.isNullLiteral_eq_of_retyped he]
    have htail : ∀ ty : Ty, Concur (fun a b => b = Ty.renameAll σ a)
        (ctx.values L es >>= fun tys => pure (ty :: tys))
        (ctx'.values (L.rename σ) es' >>= fun tys => pure (ty.rename σ :: tys)) := fun ty =>
      (values_concur h L hrest).bind fun {tys _} heq => heq ▸ .ok (Ty.renameAll_cons ty tys).symm
    split
    · have hnull := htail .null
      rw [Ty.null, Ty.rename_named] at hnull
      exact hnull
    · refine ((operand_concur h L he).bind fun {o _} heq => heq ▸ o.asValue_concur _ _).bind ?_
      exact fun {ty _} heq => heq ▸ htail ty

end

theorem value_concur (L : Locals) {e e' : Expr} (he : e.Retyped (TypeExpr.Follows σ g) e') :
    Concur (fun a b => b = a.rename σ) (ctx.value L e) (ctx'.value (L.rename σ) e') :=
  (operand_concur h L he).bind fun {o _} heq => heq ▸ o.asValue_concur _ _

/-- The type of a call is renamed. -/
theorem callType_concur (L : Locals) {e e' : Expr} (he : e.Retyped (TypeExpr.Follows σ g) e')
    (method : Identifier) {es es' : List Expr} (hes : Expr.AllRetyped (TypeExpr.Follows σ g) es es')
    (span : Span) : Concur (fun a b => b = a.map (Ty.rename σ)) (ctx.callType L e method es span)
      (ctx'.callType (L.rename σ) e' method es' span) := by
  refine (operand_concur h L he).bind fun {o _} heq => heq ▸ ?_
  refine (callOwner_concur o _ _).bind fun {owner _} heq => heq ▸ ?_
  refine (values_concur h L hes).bind fun {given _} heq => heq ▸ ?_
  exact h.callResult_concur owner method.name given span span

theorem expect_concur (L : Locals) {e e' : Expr} (he : e.Retyped (TypeExpr.Follows σ g) e')
    (expected : Ty) : Concur (fun _ _ => True) (ctx.expect L e expected)
      (ctx'.expect (L.rename σ) e' (expected.rename σ)) := by
  unfold expect
  rw [Expr.isNullLiteral_eq_of_retyped he]
  exact (h.value_concur L he).bind fun {a _} heq => heq ▸ h.compatible_concur a expected _ _ _

theorem expect_boolean_concur (L : Locals) {e e' : Expr}
    (he : e.Retyped (TypeExpr.Follows σ g) e') : Concur (fun _ _ => True)
      (ctx.expect L e .boolean) (ctx'.expect (L.rename σ) e' .boolean) := by
  have hexpect := h.expect_concur L he .boolean
  rwa [Ty.rename_boolean] at hexpect

/-! ## Statements -/

omit h in
/-- A declaration adds the renamed type. -/
theorem define_concur (L : Locals) (name : Identifier) (ty : Ty) :
    Concur (fun a b => b = a.rename σ) (define L name ty)
      (define (L.rename σ) name (ty.rename σ)) := by
  unfold define
  rw [Locals.define?_rename]
  cases L.define? name.name ty with
  | none => exact .error _ _
  | some L' => exact .ok rfl

/-- An assignment is judged alike under other names. -/
theorem assignment_concur (L : Locals) (declared : Ty) (op : AssignOp) {e e' : Expr}
    (he : e.Retyped (TypeExpr.Follows σ g) e') (span : Span) : Concur (fun _ _ => True)
      (ctx.assignment L declared op e span)
      (ctx'.assignment (L.rename σ) (declared.rename σ) op e' span) := by
  unfold assignment
  cases op.binary? with
  | none => exact h.expect_concur L he declared
  | some binary =>
    refine (h.value_concur L he).bind fun {a _} heq => heq ▸ ?_
    refine (h.applyRule_concur binary.rule binary.symbol declared a span span).bind
      fun {r _} heq => heq ▸ ?_
    exact h.compatible_concur r declared false span span

theorem targetType_concur (L : Locals) (target : Identifier) :
    Concur (fun a b => b = a.rename σ) (ctx.targetType L target)
      (ctx'.targetType (L.rename σ) target) := by
  unfold targetType
  rw [Locals.lookup_rename, h.instanceField_eq]
  split
  · exact .error _ _
  · cases L.lookup target.name with
    | some ty => exact .ok rfl
    | none =>
      cases ctx.instanceField target.name with
      | some ty => exact .ok rfl
      | none => exact .error _ _

theorem fieldTargetType_concur (receiver : Operand) (span span' : Span) (field : Identifier) :
    Concur (fun a b => b = a.rename σ) (ctx.fieldTargetType receiver span field)
      (ctx'.fieldTargetType (receiver.rename σ) span' field) := by
  cases receiver with
  | value ty => exact h.fieldOf_concur ty field
  | static className =>
    unfold fieldTargetType
    refine (h.table.staticFieldType_concur className field.name).typed.bind fun {a b} hab => ?_
    subst hab
    cases a with
    | none => exact .error _ _
    | some ty => exact .error _ _
  | «namespace» path => exact .error _ _

theorem expressionStatement_concur (L : Locals) {e e' : Expr}
    (he : e.Retyped (TypeExpr.Follows σ g) e') (span : Span) : Concur (fun _ _ => True)
      (ctx.expressionStatement L e span) (ctx'.expressionStatement (L.rename σ) e' span) := by
  cases he with
  | call method callSpan hr hargs =>
    exact (h.callType_concur L hr method hargs callSpan).bind fun _ => .ok trivial
  | new newSpan hty hargs =>
    exact (h.value_concur L (.new newSpan hty hargs)).bind fun _ => .ok trivial
  | step op before stepSpan ht =>
    exact (h.value_concur L (.step op before stepSpan ht)).bind fun _ => .ok trivial
  | _ => exact .error _ _

/-- So is a returned value. -/
theorem returned_concur (L : Locals) {e? e?' : Option Expr}
    (he : Option.Rel (Expr.Retyped (TypeExpr.Follows σ g)) e? e?') (span : Span) :
    Concur (fun _ _ => True) (ctx.returned L e? span) (ctx'.returned (L.rename σ) e?' span) := by
  unfold returned
  rw [h.returnType]
  cases he with
  | none =>
    cases ctx.returnType with
    | none => exact .ok trivial
    | some expected => exact .error _ _
  | some he =>
    dsimp only
    rw [Expr.isNullLiteral_eq_of_retyped he]
    refine (h.value_concur L he).bind fun {a _} heq => heq ▸ ?_
    cases ctx.returnType with
    | none => exact .error _ _
    | some expected => exact h.compatible_concur a expected _ span span

omit h in
mutual

/-- Statements that follow a renaming leave renamed locals. -/
theorem statement_concur (h : ctx.Renamed σ g ctx') (L : Locals) : ∀ {s s' : Stmt},
    s.Retyped (TypeExpr.Follows σ g) s' →
      Concur (fun a b => b = a.rename σ) (ctx.statement L s) (ctx'.statement (L.rename σ) s')
  | _, _, .localVariable name span hty hv => by
    rw [statement, statement]
    refine (h.lower_concur hty).bind fun {ty _} heq => heq ▸ ?_
    cases hv with
    | none => exact define_concur L name ty
    | some he => exact (h.expect_concur L he ty).bind fun _ => define_concur L name ty
  | _, _, .assign target op span he => by
    rw [statement, statement]
    refine (h.targetType_concur L target).bind fun {ty _} heq => heq ▸ ?_
    exact (h.assignment_concur L ty op he span).bind fun _ => .ok rfl
  | _, _, .fieldAssign field op span hr he => by
    rw [statement, statement]
    refine (operand_concur h L hr).bind fun {o _} heq => heq ▸ ?_
    refine (h.fieldTargetType_concur o _ _ field).bind fun {ty _} heq => heq ▸ ?_
    exact (h.assignment_concur L ty op he span).bind fun _ => .ok rfl
  | _, _, .expression span he => by
    rw [statement, statement]
    exact (h.expressionStatement_concur L he span).bind fun _ => .ok rfl
  | _, _, .ifThen span hc ha => by
    rw [statement, statement]
    refine (h.expect_boolean_concur L hc).bind fun _ => ?_
    exact (statements_concur h L.push ha).bind fun _ => .ok rfl
  | _, _, .ifElse span hc ha hb => by
    rw [statement, statement]
    refine (h.expect_boolean_concur L hc).bind fun _ => ?_
    refine (statements_concur h L.push ha).bind fun _ => ?_
    exact (statements_concur h L.push hb).bind fun _ => .ok rfl
  | _, _, .whileLoop span hc hb => by
    rw [statement, statement]
    refine (h.expect_boolean_concur L hc).bind fun _ => ?_
    exact (statements_concur h L.push hb).bind fun _ => .ok rfl
  | _, _, .forLoop span hi hc hu hb => by
    rw [statement, statement]
    refine (statement_concur h L.push hi).bind fun {header _} heq => heq ▸ ?_
    refine (h.expect_boolean_concur header hc).bind fun _ => ?_
    refine (statement_concur h header hu).bind fun {header _} heq => heq ▸ ?_
    exact (statements_concur h header.push hb).bind fun _ => .ok rfl
  | _, _, .returns span hv => by
    rw [statement, statement]
    exact (h.returned_concur L hv span).bind fun _ => .ok rfl
  | _, _, .block span hb => by
    rw [statement, statement]
    exact (statements_concur h L.push hb).bind fun _ => .ok rfl

/-- A block leaves renamed locals. -/
theorem statements_concur (h : ctx.Renamed σ g ctx') (L : Locals) : ∀ {ss ss' : List Stmt},
    Stmt.AllRetyped (TypeExpr.Follows σ g) ss ss' →
      Concur (fun a b => b = a.rename σ) (ctx.statements L ss) (ctx'.statements (L.rename σ) ss')
  | _, _, .nil => by
    rw [statements, statements]
    exact .ok rfl
  | _, _, .cons hs hrest => by
    rw [statements, statements]
    refine (statement_concur h L hs).bind fun {L' _} heq => heq ▸ ?_
    exact statements_concur h L' hrest

end

/-! ## Members -/

theorem defineParameters_concur {ps ps' : List Parameter}
    (hps : List.Forall₂ (fun q q' => q'.name = q.name ∧ q.ty.Follows σ g q'.ty) ps ps') :
    ∀ L : Locals, Concur (fun a b => b = a.rename σ) (ctx.defineParameters L ps)
      (ctx'.defineParameters (L.rename σ) ps') := by
  induction hps with
  | nil => exact fun L => .ok rfl
  | cons hq _ ih =>
    intro L
    rw [defineParameters, defineParameters, hq.1]
    refine (h.lower_concur hq.2).bind fun {ty _} heq => heq ▸ ?_
    exact (define_concur L _ ty).bind fun {L' _} heq => heq ▸ ih L'

/-- The parameters of a member are declared with renamed types. -/
theorem initialLocals_concur {ps ps' : List Parameter}
    (hps : List.Forall₂ (fun q q' => q'.name = q.name ∧ q.ty.Follows σ g q'.ty) ps ps') :
    Concur (fun a b => b = a.rename σ) (ctx.initialLocals ps) (ctx'.initialLocals ps') := by
  have hfirst : ctx'.firstLocals = ctx.firstLocals.rename σ := by
    unfold firstLocals
    rw [h.this?]
    cases ctx.this? with
    | none => rfl
    | some this =>
      dsimp only [Option.map_some]
      rw [ClassTy.toTy_rename]
      rfl
  rw [initialLocals_eq, initialLocals_eq, hfirst]
  exact h.defineParameters_concur hps ctx.firstLocals

/-- The base class is constructed from renamed arguments; it stays. -/
theorem superCall_concur (L : Locals) {es es' : Option (List Expr)}
    (hes : Expr.AllRetyped (TypeExpr.Follows σ g) (es.getD []) (es'.getD [])) (span : Span) :
    Concur (fun _ _ => True) (ctx.superCall L es span) (ctx'.superCall (L.rename σ) es' span) := by
  unfold superCall
  rw [h.base]
  cases hbase : ctx.cls.base with
  | none => exact .ok trivial
  | some base =>
    refine (values_concur h L hes).bind fun {given _} heq => heq ▸ ?_
    have hconstruction := h.construction_concur base given span span
    rwa [h.fixedBase base hbase] at hconstruction

end BodyContext.Renamed

/-! ## Checking programs -/

/-- A class is its own type under other names, too. -/
theorem Template.selfType_rename {c c' : Template F} (hc : c.Renamed σ c') :
    c'.selfType = c.selfType.rename σ := by
  have hargs : Ty.renameAll σ (c.generics.map Ty.unbound) = c.generics.map Ty.unbound := by
    rw [Ty.renameAll_eq_map, List.map_map]
    refine List.map_congr_left fun n hn => ?_
    exact (Ty.rename_unbound n).trans (congrArg Ty.unbound (hc.fixed n hn))
  rw [selfType, selfType, hc.name, hc.generics, ClassTy.rename, hargs]

theorem Stmt.any_isReturn_of_retyped {R : TypeExpr → TypeExpr → Prop} {ss ss' : List Stmt}
    (h : AllRetyped R ss ss') : ss'.any isReturn = ss.any isReturn := by
  induction ss generalizing ss' with
  | nil =>
    cases h
    rfl
  | cons s rest ih =>
    cases h with
    | cons hs hrest =>
      rw [List.any_cons, List.any_cons, ih hrest]
      cases hs <;> rfl

namespace ClassTable.Renamed

variable {t t' : ClassTable F} (h : t.Renamed σ t')

section Members

variable {c c' : Template F} (hc : c.Renamed σ c')

include h hc

/-- The contexts of constructors are renamed as the templates are. -/
theorem constructorContext :
    (c.constructorContext t).Renamed σ c.generics (c'.constructorContext t') where
  table := h
  base := hc.base
  fixedBase := hc.fixedBase
  params := by
    show TypeParams.unbound c'.generics = (TypeParams.unbound c.generics).rename σ
    rw [hc.generics, LoweringContext.rename_unbound_of_fixed hc.fixed]
  named := TypeParams.named_unbound c.generics
  this? := congrArg some (Template.selfType_rename hc)
  returnType := rfl

/-- A constructor is accepted with other names for parameters of its class. -/
theorem constructorCheck_concur (k : ConstructorDecl) :
    Concur (fun _ _ => True) (k.check t c) (k.check t' c') := by
  have hctx := h.constructorContext hc
  have hstay := TypeExpr.follows_of_fixed hc.fixed
  have hparams : List.Forall₂ (fun q q' : Parameter => q'.name = q.name ∧
      q.ty.Follows σ c.generics q'.ty) k.parameters k.parameters :=
    List.forall₂_same.mpr fun q _ => ⟨rfl, hstay q.ty⟩
  unfold ConstructorDecl.check
  refine (hctx.initialLocals_concur hparams).bind fun {L _} heq => heq ▸ ?_
  refine (hctx.superCall_concur L (Expr.allRetyped_refl hstay _) k.span).bind fun _ => ?_
  have hbody := BodyContext.Renamed.statements_concur hctx L (Stmt.allRetyped_refl hstay k.body)
  exact hbody.bind fun _ => .ok trivial

variable {m m' : MethodDecl} (hm : m.Renamed σ c.generics m')

include hm

omit h in
/-- A method sees the renamed parameters of its class and of its own. -/
theorem typeParams_rename : m'.typeParams c' = (m.typeParams c).rename σ := by
  unfold MethodDecl.typeParams
  rw [hm.isStatic, hm.generics, hc.generics, TypeParams.rename_pushUnbound]
  split
  · rfl
  · rw [LoweringContext.rename_unbound_of_fixed hc.fixed]

omit h hc hm in
theorem named_typeParams (m : MethodDecl) (c : Template F) :
    (m.typeParams c).Named (m.visibleGenerics c.generics) := by
  unfold MethodDecl.typeParams MethodDecl.visibleGenerics
  split
  · exact TypeParams.named_nil.pushUnbound _
  · exact (TypeParams.named_unbound c.generics).pushUnbound _

/-- The contexts of methods are renamed as the templates and the signatures are. -/
theorem methodContext (returnType : Option Ty) :
    (m.context t c returnType).Renamed σ (m.visibleGenerics c.generics)
      (m'.context t' c' (returnType.map (Ty.rename σ))) where
  table := h
  base := hc.base
  fixedBase := hc.fixedBase
  params := typeParams_rename hc hm
  named := named_typeParams m c
  this? := by
    show (if m'.isStatic then none else some c'.selfType) =
      (if m.isStatic then none else some c.selfType).map (ClassTy.rename σ)
    rw [hm.isStatic, Template.selfType_rename hc]
    split <;> rfl
  returnType := rfl

theorem loweredReturn_concur : Concur (fun a b => b = a.map (Ty.rename σ))
    (m.loweredReturn t (m.typeParams c)) (m'.loweredReturn t' (m'.typeParams c')) := by
  unfold MethodDecl.loweredReturn
  rcases rel_elim hm.returnType with ⟨h1, h2⟩ | ⟨e, e', h1, h2, he⟩
  · rw [h1, h2]
    exact .ok rfl
  · rw [h1, h2, typeParams_rename hc hm]
    refine Concur.typed (Concur.map (h.lower_concur (named_typeParams m c) he) fun heq => ?_)
    exact congrArg some heq

/-- A method is accepted with other names for parameters of its class and of its own. -/
theorem methodCheck_concur : Concur (fun _ _ => True) (m.check t c) (m'.check t' c') := by
  unfold MethodDecl.check
  refine (h.loweredReturn_concur hc hm).bind fun {rt _} heq => heq ▸ ?_
  have hctx := h.methodContext hc hm rt
  refine (hctx.initialLocals_concur hm.parameters).bind fun {L _} heq => heq ▸ ?_
  refine (BodyContext.Renamed.statements_concur hctx L hm.body).bind fun _ => ?_
  rw [Stmt.any_isReturn_of_retyped hm.body]
  rcases rel_elim hm.returnType with ⟨h1, h2⟩ | ⟨e, e', h1, h2, -⟩
  · rw [h1, h2]
    cases rt <;> exact .ok trivial
  · rw [h1, h2]
    cases rt with
    | none => exact .ok trivial
    | some ty =>
      dsimp only [Option.map_some]
      split
      · exact .ok trivial
      · exact .error _ _

end Members

include h

/-- A class is accepted alike, where its template is what its declaration says. -/
theorem classCheck_concur {d d' : ClassDecl} (hd : d.Renamed σ d')
    (hown : ∀ c, t.get? d.name.name = some c → c.generics = d.generics.map Identifier.name) :
    Concur (fun _ _ => True) (d.check t) (d'.check t') := by
  rw [hd.eq]
  unfold ClassDecl.check
  dsimp only
  rcases (h.template d.name.name d.name.span).elim with ⟨e, e', h1, h2⟩ | ⟨c, c', h1, h2, hc⟩
  · rw [h1, h2]
    exact .error _ _
  · have hmethods := hd.methods
    rw [← hown c (template_ok_iff.mp h1)] at hmethods
    have hmembers : Concur (fun _ _ => True)
        (d.constructors.forM (ConstructorDecl.check t c) >>= fun _ =>
          d.methods.forM (MethodDecl.check t c))
        (d.constructors.forM (ConstructorDecl.check t' c') >>= fun _ =>
          d'.methods.forM (MethodDecl.check t' c')) := by
      refine Concur.bind (R := fun _ _ => True)
        (.forM (List.forall₂_same.mpr fun k _ => h.constructorCheck_concur hc k)) fun _ => ?_
      exact .forM (hmethods.imp fun _ _ hm => h.methodCheck_concur hc hm)
    rw [h1, h2, typed_ok_bind, typed_ok_bind]
    split
    · have hsuper : Concur (fun _ _ => True)
          ((c.constructorContext t).superCall [[]] none d.span)
          ((c'.constructorContext t').superCall [[]] none d.span) :=
        (h.constructorContext hc).superCall_concur [[]] .nil d.span
      exact hsuper.bind fun _ => hmembers
    · exact hmembers

/-- A program that follows a renaming is accepted against the renamed table if the other one is. -/
theorem check_program_concur {p p' : Program} (hp : p.Renamed σ p')
    (hown : ∀ d ∈ p.classes, ∀ c, t.get? d.name.name = some c →
      c.generics = d.generics.map Identifier.name) :
    Concur (fun _ _ => True) (p.check t) (p'.check t') :=
  .forM ((forall₂_with_mem hp.classes).imp fun d _ ⟨hmem, _, hd⟩ =>
    h.classCheck_concur hd (hown d hmem))

end ClassTable.Renamed

/-! ## Expansion -/

/-- Full names that stay: those that stand for themselves, or that a renaming does not change. -/
def ClassTable.KeepsNames (σ : String → String) (t : ClassTable F) : Prop :=
  ∀ {n full}, t.imports.resolve? n = some full → full = n ∨ σ full = full

section Expansion

variable {t : ClassTable F} (hσ : σ.Injective) (ht : t.KeepsNames σ) {g : List String}

include hσ ht

namespace TypeExpr

omit hσ ht in
mutual

/-- An expanded type follows the renaming that the type follows. -/
theorem Follows.expand_concur (hσ : σ.Injective) (ht : t.KeepsNames σ) : ∀ {e e' : TypeExpr},
    e.Follows σ g e' → Concur (Follows σ g) (e.expand t g) (e'.expand t (g.map σ))
  | ⟨n, args, _⟩, ⟨n', args', _⟩, .mk span hname hargs => by
    rw [expand, expand]
    rcases hname with ⟨hn, heq⟩ | ⟨hn, heq, hn'⟩
    · have hempty : args'.isEmpty = args.isEmpty := by cases hargs <;> rfl
      have hmem : n' ∈ g.map σ := heq ▸ List.mem_map_of_mem hn
      rw [if_pos hn, if_pos hmem, hempty]
      split
      · exact .ok (.mk span (.inl ⟨hn, heq⟩) hargs)
      · exact .error _ _
    · subst heq
      rw [if_neg hn, if_neg hn', hargs.length_eq]
      cases hfull : expandedName t n' args.length span with
      | error e => exact .error e e
      | ok full =>
        have hres := (expandedName_ok hfull).1
        have hfollows : NameFollows σ g full full := by
          rcases ht hres with rfl | hstays
          · exact .inr ⟨hn, rfl, hn'⟩
          · exact nameFollows_self hσ g hstays
        rcases (hargs.expandAll_concur hσ ht).elim with ⟨e, e', h1, h2⟩ | ⟨as, as', h1, h2, has⟩
        · simp only [h1, h2]
          exact .error e e'
        · simp only [h1, h2]
          exact .ok (.mk span hfollows has)

theorem AllFollow.expandAll_concur (hσ : σ.Injective) (ht : t.KeepsNames σ) :
    ∀ {es es' : List TypeExpr}, AllFollow σ g es es' →
      Concur (AllFollow σ g) (expandAll t g es) (expandAll t (g.map σ) es')
  | _, _, .nil => by
    rw [expandAll, expandAll]
    exact .ok .nil
  | _, _, .cons h hrest => by
    rw [expandAll, expandAll]
    rcases (h.expand_concur hσ ht).elim with ⟨e, e', h1, h2⟩ | ⟨a, a', h1, h2, ha⟩
    · simp only [h1, h2]
      exact .error e e'
    · simp only [h1, h2]
      rcases (hrest.expandAll_concur hσ ht).elim with ⟨e, e', h1, h2⟩ | ⟨as, as', h1, h2, has⟩
      · simp only [h1, h2]
        exact .error e e'
      · simp only [h1, h2]
        exact .ok (.cons ha has)

end

/-- A type that may be missing is expanded alike. -/
theorem expandOption_concur {e e' : Option TypeExpr} (h : Option.Rel (Follows σ g) e e') :
    Concur (Option.Rel (Follows σ g)) (expandOption t g e) (expandOption t (g.map σ) e') := by
  cases h with
  | none => exact .ok .none
  | some h => exact (h.expand_concur hσ ht).map .some

end TypeExpr

theorem Parameter.expandAll_concur {qs qs' : List Parameter}
    (h : List.Forall₂ (fun q q' => q'.name = q.name ∧ q.ty.Follows σ g q'.ty) qs qs') :
    Concur (List.Forall₂ fun q q' => q'.name = q.name ∧ q.ty.Follows σ g q'.ty)
      (qs.mapM (Parameter.expand t g)) (qs'.mapM (Parameter.expand t (g.map σ))) :=
  .mapM (h.imp fun _ _ ⟨hname, hty⟩ => (hty.expand_concur hσ ht).bind fun hty => .ok ⟨hname, hty⟩)

/-- A method is expanded alike. -/
theorem MethodDecl.Renamed.expand_concur (hg : ∀ n ∈ g, σ n = n) {m m' : MethodDecl}
    (h : m.Renamed σ g m') : Concur (MethodDecl.Renamed σ g) (m.expand t g) (m'.expand t g) := by
  have hvisible : m'.visibleGenerics g = (m.visibleGenerics g).map σ := by
    unfold visibleGenerics
    rw [h.isStatic, h.generics, List.map_append]
    split
    · rfl
    · rw [map_eq_self hg]
  unfold MethodDecl.expand
  dsimp only
  rw [hvisible]
  refine (TypeExpr.expandOption_concur hσ ht h.returnType).bind fun hreturn => ?_
  refine (Parameter.expandAll_concur hσ ht h.parameters).bind fun hparameters => ?_
  refine (h.body.expandAll_concur fun hty => hty.expand_concur hσ ht).bind fun hbody => ?_
  exact .ok ⟨h.name, h.isStatic, h.span, h.generics, hreturn, hparameters, hbody⟩

/-- So is a class. -/
theorem ClassDecl.Renamed.expand_concur {d d' : ClassDecl} (h : d.Renamed σ d') :
    Concur (ClassDecl.Renamed σ) (d.expand t) (d'.expand t) := by
  have hsame : ∀ {α : Type} (x : Checked α), Concur Eq x x := Concur.of_refl fun _ => rfl
  rw [h.eq]
  unfold ClassDecl.expand
  dsimp only
  refine (hsame _).bind fun {base _} heq => heq ▸ ?_
  refine (hsame _).bind fun {fields _} heq => heq ▸ ?_
  refine (hsame _).bind fun {constructors _} heq => heq ▸ ?_
  refine (Concur.mapM (h.methods.imp fun m m' hm => hm.expand_concur hσ ht h.fixed)).bind
    fun hmethods => ?_
  exact .ok ⟨rfl, h.fixed, hmethods⟩

/-- Programs that follow a renaming are expanded to programs that do. -/
theorem Program.Renamed.expand_concur {p p' : Program} (h : p.Renamed σ p') :
    Concur (Program.Renamed σ) (p.expand t) (p'.expand t) := by
  rw [h.eq]
  exact (Concur.mapM (h.classes.imp fun d d' hd => hd.expand_concur hσ ht)).bind fun hclasses =>
    .ok ⟨rfl, hclasses⟩

end Expansion

/-- Expansion asks both tables for the same. -/
theorem ClassTable.Renamed.expand_eq {t t' : ClassTable F} (h : t.Renamed σ t') (p : Program) :
    p.expand t' = p.expand t := by
  have htype : ∀ (g : List String) (e : TypeExpr), e.expand t' g = e.expand t g := fun g =>
    TypeExpr.expand_congr (fun name => by rw [h.imports]) h.arity?_eq
  rw [Program.expand, Program.expand, funext (ClassDecl.expand_congr htype)]

/-! ## Regrouping -/

theorem MethodDecl.Renamed.regroup {g : List String} {m m' : MethodDecl} (h : m.Renamed σ g m') :
    m.regroup.Renamed σ g m'.regroup :=
  ⟨h.name, h.isStatic, h.span, h.generics, h.returnType, h.parameters, h.body.regroupAll⟩

/-- Regrouping does not look at types. -/
theorem Program.Renamed.regroup {p p' : Program} (h : p.Renamed σ p') :
    p.regroup.Renamed σ p'.regroup := by
  refine ⟨by rw [h.eq]; rfl, ?_⟩
  show List.Forall₂ (ClassDecl.Renamed σ) (p.classes.map _) (p'.classes.map _)
  rw [List.forall₂_map_left_iff, List.forall₂_map_right_iff]
  refine h.classes.imp fun d d' hd => ⟨by rw [hd.eq]; rfl, hd.fixed, ?_⟩
  show List.Forall₂ _ (d.methods.map MethodDecl.regroup) (d'.methods.map MethodDecl.regroup)
  rw [List.forall₂_map_left_iff, List.forall₂_map_right_iff]
  exact hd.methods.imp fun _ _ hm => hm.regroup

/-! ## Analysis -/

/-- Neither does the search for the main method. -/
theorem MethodDecl.Renamed.isMain_eq {g : List String} {m m' : MethodDecl}
    (h : m.Renamed σ g m') : m'.isMain = m.isMain := by
  have hempty : m'.parameters.isEmpty = m.parameters.isEmpty := by
    have hparameters := h.parameters
    generalize m.parameters = qs, m'.parameters = qs' at hparameters
    cases hparameters <;> rfl
  have hnone : m'.returnType.isNone = m.returnType.isNone := by
    have hreturn := h.returnType
    generalize m.returnType = e?, m'.returnType = e?' at hreturn
    cases hreturn <;> rfl
  unfold isMain isEntry
  rw [hnone, hempty, h.name, h.isStatic]

/-- Renaming keeps which methods are main methods, and where they stand. -/
theorem Program.Renamed.checkMain_eq {p p' : Program} (h : p.Renamed σ p') :
    p'.checkMain = p.checkMain := by
  have hmains : List.Forall₂ (fun m m' : MethodDecl => m'.span = m.span) p.mains p'.mains := by
    unfold mains
    refine List.rel_flatMap h.classes fun d d' hd => ?_
    have hmethods := hd.methods
    generalize d.methods = ms, d'.methods = ms' at hmethods
    induction hmethods with
    | nil => exact .nil
    | cons hm _ ih =>
      rw [List.filter_cons, List.filter_cons, hm.isMain_eq]
      split
      · exact .cons hm.span ih
      · exact ih
  unfold checkMain
  generalize p.mains = ms, p'.mains = ms' at hmains
  cases hmains with
  | nil => rfl
  | cons _ hrest =>
    cases hrest with
    | nil => rfl
    | cons hspan _ =>
      dsimp only
      rw [hspan]

/-- No field is declared twice in both or in neither. -/
theorem Program.Renamed.checkFields_concur {p p' : Program} (h : p.Renamed σ p') :
    Concur (fun _ _ => True) p.checkFields p'.checkFields := by
  refine .forM (h.classes.imp fun d d' hd => ?_)
  rw [hd.eq]
  exact Concur.of_refl (fun _ => trivial) _

namespace ClassTable

variable {natives : NativeRegistry F} {p : Program} {t : ClassTable F}

/-- Declared classes and native ones keep their names where a renaming leaves these alone. -/
theorem keepsNames_of_build (hn : natives.FixedBy σ) (h : build p natives = .ok t) :
    t.KeepsNames σ := by
  intro n full hf
  rcases ImportTable.resolve?_cases (imports_of_build h) hf with ⟨rfl, -⟩ | ⟨q, rfl⟩ | ⟨c, hc, rfl⟩
  · exact .inl rfl
  · exact .inr (hn.primitives q)
  · exact .inr (hn.names c hc)

/-- The template of a class of an expanded and regrouped program has the parameters of the class. -/
theorem generics_of_expanded (h : build p natives = .ok t) {q : Program} (hq : p.expand t = .ok q)
    {d : ClassDecl} (hd : d ∈ q.regroup.classes) {c : Template F}
    (hc : t.get? d.name.name = some c) : c.generics = d.generics.map Identifier.name := by
  obtain ⟨classes, hclasses, rfl⟩ := Program.expand_ok hq
  obtain ⟨d₁, hd₁, rfl⟩ := List.mem_map.mp hd
  obtain ⟨d₀, hd₀, hexpand⟩ := exists_of_forall₂_mem hclasses hd₁
  obtain ⟨base, fields, constructors, methods, -, -, -, -, rfl⟩ := ClassDecl.expand_ok hexpand
  obtain ⟨c₀, hmade, hc₀⟩ := get?_declared h hd₀
  obtain ⟨lowered, slots, -, -, rfl⟩ := declaredTemplate_ok hmade
  rw [Option.some.inj (hc.symm.trans hc₀)]
  rfl

end ClassTable

/--
Programs that differ in the names of parameters of methods are both rejected, or both accepted with
results that differ in the same way.
-/
theorem Program.analyse_concur (hσ : σ.Injective) {natives : NativeRegistry F}
    (hn : natives.FixedBy σ) {p p' : Program} (hp : p.Renamed σ p') :
    Concur (Program.Renamed σ) (p.analyse natives) (p'.analyse natives) := by
  have hfindings : Concur (Program.Renamed σ) (p.analyseFindings natives)
      (p'.analyseFindings natives) := by
    unfold analyseFindings
    rcases (ClassTable.build_concur hσ hn hp).elim with ⟨e, e', h1, h2⟩ | ⟨t, t', h1, h2, ht⟩
    · rw [h1, h2]
      exact .error _ _
    have hexpand := hp.expand_concur hσ (ClassTable.keepsNames_of_build hn h1)
    rw [h1, h2, typed_ok_bind, typed_ok_bind, ht.expand_eq]
    rcases hexpand.elim with ⟨e, e', h3, h4⟩ | ⟨q, q', h3, h4, hq⟩
    · rw [h3, h4]
      exact .error _ _
    rw [h3, h4]
    have hregrouped := hq.regroup
    have hmain : Concur (fun _ _ => True) q.regroup.checkMain q'.regroup.checkMain := by
      rw [hregrouped.checkMain_eq]
      exact Concur.of_refl (fun _ => trivial) _
    have hcheck := ht.check_program_concur hregrouped fun d hd c hc =>
      ClassTable.generics_of_expanded h1 h3 hd hc
    exact hmain.bind fun _ => hregrouped.checkFields_concur.bind fun _ =>
      hcheck.bind fun _ => .ok hregrouped
  unfold analyse
  rcases hfindings.elim with ⟨e, e', h1, h2⟩ | ⟨q, q', h1, h2, hq⟩
  · rw [h1, h2]
    exact .error _ _
  · rw [h1, h2]
    exact .ok hq

/-! ## One parameter of one method -/

/-- No primitive, no native class and no parameter of a native class goes by a name. -/
structure NativeRegistry.Leaves (natives : NativeRegistry F) (name : String) : Prop where
  primitives : Primitive.ofName? name = none
  names : ∀ c ∈ natives.classes, c.fullName ≠ name
  generics : ∀ c ∈ natives.classes, name ∉ c.generics

instance (natives : NativeRegistry F) (name : String) : Decidable (natives.Leaves name) :=
  decidable_of_iff (Primitive.ofName? name = none ∧ (∀ c ∈ natives.classes, c.fullName ≠ name) ∧
      ∀ c ∈ natives.classes, name ∉ c.generics)
    ⟨fun h => ⟨h.1, h.2.1, h.2.2⟩, fun h => ⟨h.primitives, h.names, h.generics⟩⟩

/-- Exchanging two names leaves native classes alone if neither is a name in them. -/
theorem NativeRegistry.fixedBy_swap {natives : NativeRegistry F} {old new : String}
    (hold : natives.Leaves old) (hnew : natives.Leaves new) :
    natives.FixedBy (Equiv.swap old new) := by
  have hprimitive : ∀ {name : String}, natives.Leaves name → ∀ q : Primitive, q.name ≠ name := by
    rintro name hname q rfl
    exact nomatch (Primitive.ofName?_name q).symm.trans hname.primitives
  refine ⟨fun q => ?_, fun c hc => ?_, fun c hc n hn => ?_⟩
  · exact Equiv.swap_apply_of_ne_of_ne (hprimitive hold q) (hprimitive hnew q)
  · exact Equiv.swap_apply_of_ne_of_ne (hold.names c hc) (hnew.names c hc)
  · exact Equiv.swap_apply_of_ne_of_ne (fun heq => hold.generics c hc (heq ▸ hn))
      fun heq => hnew.generics c hc (heq ▸ hn)

/--
A generic parameter of a method whose name no other parameter has, neither in the program nor in a
native class, can get any name that the program does not mention: the renamed program is accepted
exactly if the program is.
-/
theorem accepts_renameGeneric_iff {natives : NativeRegistry F} {p : Program} {i j : Nat}
    {c : ClassDecl} {m : MethodDecl} {old new : String} (hc : p.classes[i]? = some c)
    (hm : c.methods[j]? = some m) (hold : old ∈ m.generics.map Identifier.name)
    (honce : p.parameterNames.count old = 1) (hnew : new ∉ p.names) (hleft : natives.Leaves old)
    (hfree : natives.Leaves new) :
    (∃ q, (p.renameGeneric i j old new).analyse natives = .ok q) ↔
      ∃ q, p.analyse natives = .ok q := by
  have hrenamed := Program.renamed_renameGeneric hc hm hold honce hnew
  have hfixed := NativeRegistry.fixedBy_swap hleft hfree
  exact (Program.analyse_concur (Equiv.swap old new).injective hfixed hrenamed).exists_ok_iff.symm

open Build in
/-- A generic class with a generic method, and a method with a parameter `T` that uses it at `T`. -/
def chestProgram (onBox : MethodDecl) (body : List Stmt) : Program :=
  program
    [{ name := ident "Box", generics := [ident "E"], methods := [onBox] },
     { name := ident "Main",
       methods :=
         [{ staticMethod "use" none [param "Box<T>" "box", param "T" "t"] body with
             generics := [ident "T"] },
          mainMethod []] }]

open Build in
/-- Puts an item of the box into it, with a key of any type. -/
def putProgram : Program :=
  chestProgram
    { method "put" none [param "T" "key", param "E" "item"] [] with generics := [ident "T"] }
    [expr (call (var "box") "put" [int 5, var "t"])]

open Build in
/-- Takes what the box has for a key of any type, which is an item, for a number. -/
def pickProgram : Program :=
  chestProgram
    { method "pick" (some "E") [param "T" "key"] [returns (some null)] with generics := [ident "T"] }
    [localVariable "int" "n" (some (call (var "box") "pick" [int 5]))]

/--
A program may be rejected, and accepted once a generic parameter of a method has a name that the
program does not mention; and it may be accepted, and then rejected.
-/
theorem renaming_changes_acceptance :
    ("U" ∉ putProgram.names ∧ (∃ e, putProgram.analyse standard = .error e) ∧
      ∃ p', (putProgram.renameGeneric 0 0 "T" "U").analyse standard = .ok p') ∧
    ("U" ∉ pickProgram.names ∧ (∃ p', pickProgram.analyse standard = .ok p') ∧
      ∃ e, (pickProgram.renameGeneric 0 0 "T" "U").analyse standard = .error e) := by
  have herror : ∀ p : Program, p.accepts (fun _ => true) = false →
      ∃ e, p.analyse standard = .error e := by
    intro p hp
    cases h : p.analyse standard with
    | error e => exact ⟨e, rfl⟩
    | ok p' => rw [Program.accepts_iff.mpr ⟨p', h, rfl⟩] at hp; cases hp
  have hok : ∀ p : Program, p.accepts (fun _ => true) = true → ∃ p', p.analyse standard = .ok p' :=
    fun p hp => (Program.accepts_iff.mp hp).imp fun _ => And.left
  exact ⟨⟨by decide +kernel, herror _ (by decide +kernel), hok _ (by decide +kernel)⟩,
    by decide +kernel, hok _ (by decide +kernel), herror _ (by decide +kernel)⟩

/-- With a name of its own for the type of keys the box can be used, and this name can change. -/
theorem put_accepted_with_own_name :
    (putProgram.renameGeneric 0 0 "T" "K").parameterNames.count "K" = 1 ∧
    (∃ q, (putProgram.renameGeneric 0 0 "T" "K").analyse standard = .ok q) ∧
    ∃ q, ((putProgram.renameGeneric 0 0 "T" "K").renameGeneric 0 0 "K" "U").analyse standard =
      .ok q := by
  have haccepts : (putProgram.renameGeneric 0 0 "T" "K").accepts (fun _ => true) = true := by
    decide +kernel
  have haccepted : ∃ q, (putProgram.renameGeneric 0 0 "T" "K").analyse standard = .ok q :=
    (Program.accepts_iff.mp haccepts).imp fun _ => And.left
  have honce : (putProgram.renameGeneric 0 0 "T" "K").parameterNames.count "K" = 1 := by
    decide +kernel
  refine ⟨honce, haccepted, (accepts_renameGeneric_iff rfl rfl ?_ honce ?_ ?_ ?_).mpr haccepted⟩
  · decide +kernel
  · decide +kernel
  · decide +kernel
  · decide +kernel

end Middleweight
