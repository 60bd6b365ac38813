import Middleweight.Analysis.Basic
import Middleweight.Proofs.ClassTable.Match

/-!
# Checking against matching tables

The checker asks its table only for imports, lowered types, fitting types, fields and chosen
members. Matching tables answer alike, so a program is checked with the same result against either
of them.

The walk over expressions and statements is followed constructor by constructor; `Program.check_eq`
is the result.
-/

namespace Middleweight

variable {F : Type} {RB : BodyRelation F}

/-- Two contexts that differ only in matching tables and in members of the class. -/
structure BodyContext.Matches (RB : BodyRelation F) (ctx ctx' : BodyContext F) : Prop where
  table : ctx.table.Matches RB ctx'.table
  base : ctx'.cls.base = ctx.cls.base
  params : ctx'.params = ctx.params
  this? : ctx'.this? = ctx.this?
  returnType : ctx'.returnType = ctx.returnType

namespace BodyContext

/-- What is selected does not depend on which of two related resolutions it is taken from. -/
theorem selected_eq_of_related {x y : Resolution F ClassTy}
    (h : Resolution.Related Eq (fun _ _ _ => True) x y) (span : Span) :
    selected y span = selected x span := by
  cases h <;> rfl

namespace Matches

variable {ctx ctx' : BodyContext F} (h : ctx.Matches RB ctx')

include h

/-! ## Types, names and members -/

/-- Written types lower alike, since generic parameters in scope are the same ones. -/
theorem lower_eq (e : TypeExpr) : ctx'.lower e = ctx.lower e := by
  rw [lower, lower, h.params, h.table.lower_eq]

theorem applyRule_eq (rule : OperatorRule) (symbol : String) (lhs rhs : Ty) (span : Span) :
    ctx'.applyRule rule symbol lhs rhs span = ctx.applyRule rule symbol lhs rhs span := by
  unfold applyRule
  simp only [h.table.check_eq]

theorem applyUnaryRule_eq (rule : OperatorRule) (symbol : String) (operand : Ty) (span : Span) :
    ctx'.applyUnaryRule rule symbol operand span = ctx.applyUnaryRule rule symbol operand span := by
  unfold applyUnaryRule
  simp only [h.table.check_eq]

theorem compatible_eq (actual expected : Ty) (isNull : Bool) (span : Span) :
    ctx'.compatible actual expected isNull span = ctx.compatible actual expected isNull span := by
  unfold compatible
  rw [h.table.check_eq]

theorem instanceField_eq (name : String) : ctx'.instanceField name = ctx.instanceField name := by
  unfold instanceField
  rw [h.this?]
  simp only [h.table.fieldType_eq]

/-- A bare name is taken for the same local, field, class or namespace. -/
theorem variableOperand_eq (locals : Locals) (name : Identifier) :
    ctx'.variableOperand locals name = ctx.variableOperand locals name := by
  unfold variableOperand
  rw [h.instanceField_eq, h.table.resolve?_eq, h.table.natives]

theorem fieldOf_eq (receiver : Ty) (field : Identifier) :
    ctx'.fieldOf receiver field = ctx.fieldOf receiver field := by
  unfold fieldOf
  rw [h.table.fieldType_eq]

theorem fieldOperand_eq (receiver : Operand) (field : Identifier) :
    ctx'.fieldOperand receiver field = ctx.fieldOperand receiver field := by
  cases receiver with
  | value ty => simp only [fieldOperand, h.fieldOf_eq]
  | static className => simp only [fieldOperand, h.table.staticFieldType_eq]
  | «namespace» path => simp only [fieldOperand, h.table.natives]

/-- A call finds methods that agree, and so has the same type or the same finding. -/
theorem callResult_eq (owner : ClassTy × Bool) (method : String) (args : List Ty) (span : Span) :
    ctx'.callResult owner method args span = ctx.callResult owner method args span := by
  unfold callResult
  rcases (h.table.resolveMethod_related owner.1 method owner.2 args).elim with
    ⟨e, h1, h2⟩ | ⟨x, y, h1, h2, hxy⟩
  · rw [h1, h2]
  · rw [h1, h2]
    exact selected_eq_of_related hxy span

/-- A construction finds constructors that agree. -/
theorem construction_eq (owner : ClassTy) (args : List Ty) (span : Span) :
    ctx'.construction owner args span = ctx.construction owner args span := by
  unfold construction
  rcases (h.table.resolveConstructor_related owner args).elim with
    ⟨e, h1, h2⟩ | ⟨x, y, h1, h2, hxy⟩
  · rw [h1, h2]
  · rw [h1, h2]
    simp only [typed, bind, Except.bind, selected_eq_of_related hxy span]

end Matches

/-! ## Expressions -/

mutual

/-- The type of an expression goes by types, names and members only, so it is the same. -/
theorem Matches.operand_eq {ctx ctx' : BodyContext F} (h : ctx.Matches RB ctx')
    (locals : Locals) : ∀ e : Expr, ctx'.operand locals e = ctx.operand locals e
  | .literal value span => by rw [operand, operand]
  | .var name => by rw [operand, operand, h.variableOperand_eq]
  | .binary lhs op rhs span => by
    rw [operand, operand, h.operand_eq locals lhs, h.operand_eq locals rhs]
    simp only [h.applyRule_eq]
  | .unary op e span => by
    rw [operand, operand, h.operand_eq locals e]
    simp only [h.applyUnaryRule_eq]
  | .step op before target span => by
    have ih := h.operand_eq locals target
    cases target <;> simp only [operand] at ih ⊢ <;> simp only [ih, h.applyUnaryRule_eq]
  | .ternary condition thenValue elseValue span => by
    rw [operand, operand, h.operand_eq locals condition, h.operand_eq locals thenValue,
      h.operand_eq locals elseValue]
    simp only [h.compatible_eq]
  | .new ty arguments span => by
    rw [operand, operand, h.lower_eq, h.values_eq locals arguments]
    simp only [h.construction_eq]
  | .field receiver name span => by
    rw [operand, operand, h.operand_eq locals receiver]
    simp only [h.fieldOperand_eq]
  | .call receiver method arguments span => by
    rw [operand, operand, h.operand_eq locals receiver, h.values_eq locals arguments]
    simp only [h.callResult_eq]
  | .cast ty e span => by rw [operand, operand, h.operand_eq locals e, h.lower_eq]
  | .instanceOf e ty span => by
    rw [operand, operand, h.operand_eq locals e, h.lower_eq]
    simp only [h.applyUnaryRule_eq]
  | .group e span => by rw [operand, operand, h.operand_eq locals e]

theorem Matches.values_eq {ctx ctx' : BodyContext F} (h : ctx.Matches RB ctx')
    (locals : Locals) : ∀ es : List Expr, ctx'.values locals es = ctx.values locals es
  | [] => by rw [values, values]
  | e :: rest => by rw [values, values, h.operand_eq locals e, h.values_eq locals rest]

end

namespace Matches

variable {ctx ctx' : BodyContext F} (h : ctx.Matches RB ctx')

include h

theorem value_eq (locals : Locals) (e : Expr) : ctx'.value locals e = ctx.value locals e := by
  rw [value, value, h.operand_eq]

theorem callType_eq (locals : Locals) (receiver : Expr) (method : Identifier)
    (arguments : List Expr) (span : Span) :
    ctx'.callType locals receiver method arguments span =
      ctx.callType locals receiver method arguments span := by
  rw [callType, callType, h.operand_eq, h.values_eq]
  simp only [h.callResult_eq]

theorem expect_eq (locals : Locals) (e : Expr) (expected : Ty) :
    ctx'.expect locals e expected = ctx.expect locals e expected := by
  rw [expect, expect, h.value_eq]
  simp only [h.compatible_eq]

/-! ## Statements -/

/-- An assignment to a declared type is judged alike. -/
theorem assignment_eq (locals : Locals) (declared : Ty) (op : AssignOp) (e : Expr) (span : Span) :
    ctx'.assignment locals declared op e span = ctx.assignment locals declared op e span := by
  unfold assignment
  rw [h.expect_eq, h.value_eq]
  simp only [h.applyRule_eq, h.compatible_eq]

theorem targetType_eq (locals : Locals) (target : Identifier) :
    ctx'.targetType locals target = ctx.targetType locals target := by
  unfold targetType
  rw [h.instanceField_eq]

theorem fieldTargetType_eq (receiver : Operand) (span : Span) (field : Identifier) :
    ctx'.fieldTargetType receiver span field = ctx.fieldTargetType receiver span field := by
  cases receiver with
  | value ty => exact h.fieldOf_eq ty field
  | static className => simp only [fieldTargetType, h.table.staticFieldType_eq]
  | «namespace» path => rfl

theorem expressionStatement_eq (locals : Locals) (e : Expr) (span : Span) :
    ctx'.expressionStatement locals e span = ctx.expressionStatement locals e span := by
  unfold expressionStatement
  split
  · rw [h.callType_eq]
  · rw [h.value_eq]
  · rw [h.value_eq]
  · rfl

theorem returned_eq (locals : Locals) (e? : Option Expr) (span : Span) :
    ctx'.returned locals e? span = ctx.returned locals e? span := by
  unfold returned
  simp only [h.returnType, h.value_eq, h.compatible_eq]

end Matches

mutual

/-- A statement leaves the same locals or the same finding. -/
theorem Matches.statement_eq {ctx ctx' : BodyContext F} (h : ctx.Matches RB ctx') :
    ∀ (locals : Locals) (s : Stmt), ctx'.statement locals s = ctx.statement locals s
  | locals, .localVariable ty name value span => by
    rw [statement, statement, h.lower_eq]
    simp only [h.expect_eq]
  | locals, .assign target op e span => by
    rw [statement, statement, h.targetType_eq]
    simp only [h.assignment_eq]
  | locals, .fieldAssign receiver field op e span => by
    rw [statement, statement, h.operand_eq]
    simp only [h.fieldTargetType_eq, h.assignment_eq]
  | locals, .expression e span => by rw [statement, statement, h.expressionStatement_eq]
  | locals, .ifElse condition thenBranch none span => by
    rw [statement, statement, h.expect_eq, h.statements_eq locals.push thenBranch]
  | locals, .ifElse condition thenBranch (some elseBranch) span => by
    rw [statement, statement, h.expect_eq, h.statements_eq locals.push thenBranch,
      h.statements_eq locals.push elseBranch]
  | locals, .whileLoop condition body span => by
    rw [statement, statement, h.expect_eq, h.statements_eq locals.push body]
  | locals, .forLoop init condition update body span => by
    have hupdate := fun l => h.statement_eq l update
    have hbody := fun l => h.statements_eq l body
    rw [statement, statement, h.statement_eq locals.push init]
    simp only [h.expect_eq, hupdate, hbody]
  | locals, .returns value span => by rw [statement, statement, h.returned_eq]
  | locals, .block body span => by
    rw [statement, statement, h.statements_eq locals.push body]

theorem Matches.statements_eq {ctx ctx' : BodyContext F} (h : ctx.Matches RB ctx') :
    ∀ (locals : Locals) (ss : List Stmt), ctx'.statements locals ss = ctx.statements locals ss
  | locals, [] => by rw [statements, statements]
  | locals, s :: rest => by
    have hrest := fun l => h.statements_eq l rest
    rw [statements, statements, h.statement_eq locals s]
    simp only [hrest]

end

/-! ## Members -/

namespace Matches

variable {ctx ctx' : BodyContext F} (h : ctx.Matches RB ctx')

include h

theorem defineParameters_eq (ps : List Parameter) :
    ∀ locals, ctx'.defineParameters locals ps = ctx.defineParameters locals ps := by
  induction ps with
  | nil => intro locals; rfl
  | cons p rest ih =>
    intro locals
    rw [defineParameters, defineParameters, h.lower_eq]
    simp only [ih]

/-- The parameters of a member are declared alike. -/
theorem initialLocals_eq (ps : List Parameter) : ctx'.initialLocals ps = ctx.initialLocals ps := by
  unfold initialLocals
  rw [h.this?]
  simp only [h.defineParameters_eq]

/-- A call of the base constructor is judged alike, since the base class is the same. -/
theorem superCall_eq (locals : Locals) (arguments : Option (List Expr)) (span : Span) :
    ctx'.superCall locals arguments span = ctx.superCall locals arguments span := by
  unfold superCall
  rw [h.base, h.values_eq]
  simp only [h.construction_eq]

end Matches

end BodyContext

/-! ## Programs -/

theorem typed_ok_bind {α β : Type} (a : α) (f : α → Checked β) : typed (.ok a) >>= f = f a := rfl

theorem typed_error_bind {α β : Type} (e : TypeError) (f : α → Checked β) :
    typed (.error e) >>= f = .error (.ofType e) := rfl

namespace ClassTable.Matches

variable {t t' : ClassTable F} (h : t.Matches RB t') {c c' : Template F}
  (hc : c.Matches t.lowering RB c')

include h hc

/-- The contexts of constructors match where the templates of their class do. -/
theorem constructorContext :
    (c.constructorContext t).Matches RB (c'.constructorContext t') where
  table := h
  base := hc.base
  params := by simp only [Template.constructorContext, hc.generics]
  this? := by simp only [Template.constructorContext, Template.selfType, hc.name, hc.generics]
  returnType := rfl

theorem constructorCheck_eq (d : ConstructorDecl) : d.check t' c' = d.check t c := by
  have hctx := h.constructorContext hc
  unfold ConstructorDecl.check
  simp only [hctx.initialLocals_eq, hctx.superCall_eq, hctx.statements_eq]

/-- A method is checked with the same result against matching templates. -/
theorem methodCheck_eq (m : MethodDecl) : m.check t' c' = m.check t c := by
  have hparams : m.typeParams c' = m.typeParams c := by
    unfold MethodDecl.typeParams
    rw [hc.generics]
  have hreturn : m.loweredReturn t' (m.typeParams c) = m.loweredReturn t (m.typeParams c) := by
    unfold MethodDecl.loweredReturn
    simp only [h.lower_eq]
  have hself : c'.selfType = c.selfType := by
    unfold Template.selfType
    rw [hc.name, hc.generics]
  unfold MethodDecl.check
  simp only [hparams, hreturn, hself]
  congr 1
  funext returnType
  have hctx : BodyContext.Matches RB
      ⟨t, c, m.typeParams c, if m.isStatic then none else some c.selfType, returnType⟩
      ⟨t', c', m.typeParams c, if m.isStatic then none else some c.selfType, returnType⟩ :=
    ⟨h, hc.base, rfl, rfl, rfl⟩
  simp only [hctx.initialLocals_eq, hctx.statements_eq]

omit hc in
/-- A class is looked up in both tables, and its members are checked against what is found there. -/
theorem classCheck_eq (d : ClassDecl) : d.check t' = d.check t := by
  unfold ClassDecl.check
  rcases (h.template d.name.name d.name.span).elim with ⟨e, h1, h2⟩ | ⟨c, c', h1, h2, hc⟩
  · rw [h1, h2, typed_error_bind, typed_error_bind]
  · rw [h1, h2]
    simp only [typed_ok_bind, (h.constructorContext hc).superCall_eq,
      funext (h.constructorCheck_eq hc), funext (h.methodCheck_eq hc)]

omit hc in
/-- A program is checked with the same result against matching tables. -/
theorem check_program_eq (p : Program) : p.check t' = p.check t := by
  unfold Program.check
  rw [funext h.classCheck_eq]

end ClassTable.Matches

end Middleweight
