import Middleweight.Analysis.Issue
import Middleweight.Analysis.Locals
import Middleweight.Members.Source

/-!
# Checking types

Every expression of a body is given a type, and every statement is checked against the types it
needs. An expression can also name a class or a namespace, which is good only in front of a dot.
Checking a statement gives the local names that are declared after it.

Checking recurses on expressions and statements; look-up of fields walks along base classes.
-/

namespace Middleweight

variable {F : Type}

/-- What an expression stands for. -/
inductive Operand where
  | value (ty : Ty)
  | static (className : String)
  | «namespace» (path : String)
deriving Inhabited

/-- What the body of a member is checked against. -/
structure BodyContext (F : Type) where
  table : ClassTable F
  cls : Template F
  params : TypeParams
  /-- The type of `this`, in members that are not static. -/
  this? : Option ClassTy
  returnType : Option Ty

/-! ## Types of fields -/

namespace ClassTable

/-- The type of a field along the base classes of a class type. -/
def fieldTypeWithin (t : ClassTable F) (name : String) : Nat → ClassTy →
    Except TypeError (Option Ty)
  | 0, owner => .error (.endlessBases owner.name {})
  | fuel + 1, owner =>
    match t.template owner.name {} with
    | .error e => .error e
    | .ok template =>
      match template.field? name with
      | some f => .ok (some (f.ty.substitute (Bindings.zip template.generics owner.args)))
      | none =>
        match t.baseOf owner with
        | .error e => .error e
        | .ok none => .ok none
        | .ok (some base) => t.fieldTypeWithin name fuel base

def fieldType (t : ClassTable F) (owner : ClassTy) (name : String) :
    Except TypeError (Option Ty) :=
  t.fieldTypeWithin name t.height owner

/-- The type of a static field of the first of some classes that has it. -/
def staticFieldIn (t : ClassTable F) (name : String) : List String →
    Except TypeError (Option Ty)
  | [] => .ok none
  | owner :: rest =>
    match t.template owner {} with
    | .error e => .error e
    | .ok template =>
      match template.native?.bind (·.staticField? name) with
      | some f => (t.lower [] f.ty).map some
      | none => t.staticFieldIn name rest

/-- The type of a static field of a class or of its base classes. -/
def staticFieldType (t : ClassTable F) (className name : String) :
    Except TypeError (Option Ty) :=
  t.staticFieldIn name (t.ancestors className)

end ClassTable

namespace Ty

/-- The class whose members a value of a type has; a parameter is an object. -/
def memberClass (t : Ty) : ClassTy :=
  match t.resolved with
  | .cls name args => ⟨name, args⟩
  | _ => ⟨objectName, []⟩

def isPrimitive (t : Ty) : Bool :=
  match t.resolved with
  | .cls name _ => (Primitive.ofName? name).isSome
  | _ => false

/-- A type as text, `void` where there is none. -/
def textOrVoid : Option Ty → String
  | some t => t.text
  | none => "void"

end Ty

/-- An operand that has to be a value. -/
def Operand.asValue (span : Span) : Operand → Checked Ty
  | value ty => .ok ty
  | static className => objection span (.classAsValue className)
  | .namespace path => objection span (.namespaceAsValue path)

namespace BodyContext

def lower (ctx : BodyContext F) (t : TypeExpr) : Checked Ty :=
  typed (ctx.table.lower ctx.params t)

/-! ## Operators and compatibility -/

/-- Applies the rule of a binary operator to the types of its operands. -/
def applyRule (ctx : BodyContext F) (rule : OperatorRule) (symbol : String) (lhs rhs : Ty)
    (span : Span) : Checked Ty :=
  let fits (operand : String) : Bool :=
    ctx.table.check lhs (.named operand) && ctx.table.check rhs (.named operand)
  match rule.operands.find? fits with
  | some operand => .ok (rule.resultType operand)
  | none => objection span (.binaryOperands symbol rule lhs rhs)

/-- Applies the rule of an operator to the type of its only operand. -/
def applyUnaryRule (ctx : BodyContext F) (rule : OperatorRule) (symbol : String) (operand : Ty)
    (span : Span) : Checked Ty :=
  match rule.operands.find? fun accepted => ctx.table.check operand (.named accepted) with
  | some accepted => .ok (rule.resultType accepted)
  | none => objection span (.unaryOperand symbol rule operand)

/-- Whether a value may be stored; the literal `null` fits all but primitives. -/
def compatible (ctx : BodyContext F) (actual expected : Ty) (isNull : Bool) (span : Span) :
    Checked Unit :=
  if (isNull && !expected.isPrimitive) || ctx.table.check actual expected then .ok ()
  else objection span (.typeMismatch expected.text actual.text)

/-! ## Names and members -/

/-- The type of a field that a bare name means in the running instance. -/
def instanceField (ctx : BodyContext F) (name : String) : Option Ty :=
  match ctx.this? with
  | none => none
  | some this =>
    match ctx.table.fieldType this name with
    | .ok found => found
    | .error _ => none

/-- What a bare name stands for: a local, a field, a class or a namespace. -/
def variableOperand (ctx : BodyContext F) (locals : Locals) (name : Identifier) :
    Checked Operand :=
  match locals.lookup name.name with
  | some ty => .ok (.value ty)
  | none =>
    match ctx.instanceField name.name with
    | some ty => .ok (.value ty)
    | none =>
      match ctx.table.imports.resolve? name.name with
      | some full => .ok (.static full)
      | none =>
        match ctx.table.natives.namespace? name.name with
        | some _ => .ok (.namespace name.name)
        | none => objection name.span (.noVariable name.name)

/-- The type of a field of a value. -/
def fieldOf (ctx : BodyContext F) (receiver : Ty) (field : Identifier) : Checked Ty := do
  match ← typed (ctx.table.fieldType receiver.memberClass field.name) with
  | some ty => .ok ty
  | none => objection field.span (.noField field.name receiver.text)

/-- What a name behind a dot stands for. -/
def fieldOperand (ctx : BodyContext F) (receiver : Operand) (field : Identifier) :
    Checked Operand :=
  match receiver with
  | .namespace path =>
    let child := path ++ "." ++ field.name
    match ctx.table.natives.lookup child with
    | some (.namespace _) => .ok (.namespace child)
    | some (.cls c) => .ok (.static c.fullName)
    | none => objection field.span (.type (.unknownType child field.span))
  | .static className => do
    match ← typed (ctx.table.staticFieldType className field.name) with
    | some ty => .ok (.value ty)
    | none => objection field.span (.noField field.name className)
  | .value ty => (ctx.fieldOf ty field).map Operand.value

/-- The type that a resolved member returns. -/
def selected (resolution : Resolution F ClassTy) (span : Span) : Checked (Option Ty) :=
  match resolution with
  | .found s => .ok s.returnType
  | .defaultConstructor => .ok none
  | .ambiguous a => objection span (.ambiguous a)
  | .missing m => objection span (.missing m)

/-- The class whose methods a call looks at, and whether it looks at static ones. -/
def callOwner (receiver : Operand) (span : Span) : Checked (ClassTy × Bool) :=
  match receiver with
  | .value ty => .ok (ty.memberClass, false)
  | .static className => .ok (⟨className, []⟩, true)
  | .namespace path => objection span (.namespaceAsValue path)

/-- The type that a call returns. -/
def callResult (ctx : BodyContext F) (owner : ClassTy × Bool) (method : String) (args : List Ty)
    (span : Span) : Checked (Option Ty) := do
  let resolution ← typed
    (ctx.table.staticMembers.resolveMethod ctx.table owner.1 method owner.2 args)
  selected resolution span

/-- Checks that a class can be constructed from arguments. -/
def construction (ctx : BodyContext F) (owner : ClassTy) (args : List Ty) (span : Span) :
    Checked Unit := do
  let resolution ← typed (ctx.table.staticMembers.resolveConstructor ctx.table owner args)
  let _ ← selected resolution span

/-! ## Expressions -/

mutual

/-- What an expression stands for. -/
def operand (ctx : BodyContext F) (locals : Locals) : Expr → Checked Operand
  | .literal value _ => .ok (.value value.ty)
  | .var name => ctx.variableOperand locals name
  | .binary lhs op rhs span => do
    let l ← (← operand ctx locals lhs).asValue lhs.span
    let r ← (← operand ctx locals rhs).asValue rhs.span
    return .value (← ctx.applyRule op.rule op.symbol l r span)
  | .unary op e span => do
    let actual ← (← operand ctx locals e).asValue e.span
    return .value (← ctx.applyUnaryRule op.rule op.symbol actual span)
  | .step op _ target span =>
    match target with
    | .var _ | .field _ _ _ => do
      let actual ← (← operand ctx locals target).asValue target.span
      return .value (← ctx.applyUnaryRule OperatorRule.step op.symbol actual span)
    | _ => objection span (.stepTarget op)
  | .ternary condition thenValue elseValue span => do
    let c ← (← operand ctx locals condition).asValue condition.span
    ctx.compatible c .boolean condition.isNullLiteral condition.span
    let thenType ← (← operand ctx locals thenValue).asValue thenValue.span
    let elseType ← (← operand ctx locals elseValue).asValue elseValue.span
    if thenType.resolved == elseType.resolved then return .value thenType
    else objection span (.ternaryMismatch thenType elseType)
  | .new ty arguments span => do
    match ← ctx.lower ty with
    | .cls name args => do
      let given ← values ctx locals arguments
      ctx.construction ⟨name, args⟩ given span
      return .value (.cls name args)
    | _ => objection ty.span (.newOfParameter ty.name)
  | .field receiver name _ => do
    let r ← operand ctx locals receiver
    ctx.fieldOperand r name
  | .call receiver method arguments span => do
    let owner ← callOwner (← operand ctx locals receiver) receiver.span
    let given ← values ctx locals arguments
    match ← ctx.callResult owner method.name given span with
    | some ty => return .value ty
    | none => objection span (.noValue method.name)
  | .cast ty expression _ => do
    let _ ← (← operand ctx locals expression).asValue expression.span
    return .value (← ctx.lower ty)
  | .instanceOf expression ty span => do
    let actual ← (← operand ctx locals expression).asValue expression.span
    let _ ← ctx.lower ty
    return .value (← ctx.applyUnaryRule OperatorRule.instanceOf "instanceof" actual span)
  | .group expression _ => operand ctx locals expression

/-- The types of arguments; the literal `null` has a type of its own. -/
def values (ctx : BodyContext F) (locals : Locals) : List Expr → Checked (List Ty)
  | [] => .ok []
  | e :: rest => do
    let ty ← if e.isNullLiteral then .ok .null
      else (operand ctx locals e) >>= Operand.asValue e.span
    let tys ← values ctx locals rest
    return ty :: tys

end

/-- The type of an expression that has to be a value. -/
def value (ctx : BodyContext F) (locals : Locals) (e : Expr) : Checked Ty := do
  (← ctx.operand locals e).asValue e.span

/-- The type that a call returns, if it returns one. -/
def callType (ctx : BodyContext F) (locals : Locals) (receiver : Expr) (method : Identifier)
    (arguments : List Expr) (span : Span) : Checked (Option Ty) := do
  let owner ← callOwner (← ctx.operand locals receiver) receiver.span
  let given ← ctx.values locals arguments
  ctx.callResult owner method.name given span

/-- Checks that an expression has a type that may be stored. -/
def expect (ctx : BodyContext F) (locals : Locals) (e : Expr) (expected : Ty) : Checked Unit := do
  let actual ← ctx.value locals e
  ctx.compatible actual expected e.isNullLiteral e.span

/-! ## Statements -/

def define (locals : Locals) (name : Identifier) (ty : Ty) : Checked Locals :=
  match locals.define? name.name ty with
  | some locals => .ok locals
  | none => objection name.span (.localRedeclared name.name)

/-- Checks an assignment to something of a declared type. -/
def assignment (ctx : BodyContext F) (locals : Locals) (declared : Ty) (op : AssignOp)
    (e : Expr) (span : Span) : Checked Unit :=
  match op.binary? with
  | none => ctx.expect locals e declared
  | some binary => do
    let actual ← ctx.value locals e
    let result ← ctx.applyRule binary.rule binary.symbol declared actual span
    ctx.compatible result declared false span

/-- The declared type of a name that is assigned to. -/
def targetType (ctx : BodyContext F) (locals : Locals) (target : Identifier) : Checked Ty :=
  if target.name = "this" then objection target.span .assignmentToThis
  else
    match locals.lookup target.name with
    | some ty => .ok ty
    | none =>
      match ctx.instanceField target.name with
      | some ty => .ok ty
      | none => objection target.span (.localUndeclared target.name)

/-- The declared type of a field that is assigned to. -/
def fieldTargetType (ctx : BodyContext F) (receiver : Operand) (receiverSpan : Span)
    (field : Identifier) : Checked Ty :=
  match receiver with
  | .static className => do
    match ← typed (ctx.table.staticFieldType className field.name) with
    | some _ => objection field.span (.staticFieldReadOnly className field.name)
    | none => objection field.span (.noField field.name className)
  | .namespace path => objection receiverSpan (.namespaceAsValue path)
  | .value ty => ctx.fieldOf ty field

/-- Checks an expression that stands as a statement. -/
def expressionStatement (ctx : BodyContext F) (locals : Locals) (e : Expr) (span : Span) :
    Checked Unit :=
  match e with
  | .call receiver method arguments callSpan => do
    let _ ← ctx.callType locals receiver method arguments callSpan
  | .new .. | .step .. => do
    let _ ← ctx.value locals e
  | _ => objection span .notStatement

/-- Checks a returned value against the return type of the member. -/
def returned (ctx : BodyContext F) (locals : Locals) (e? : Option Expr) (span : Span) :
    Checked Unit :=
  match e?, ctx.returnType with
  | none, none => .ok ()
  | none, some expected => objection span (.typeMismatch expected.text (Ty.textOrVoid none))
  | some e, expected? => do
    let actual ← ctx.value locals e
    match expected? with
    | some expected => ctx.compatible actual expected e.isNullLiteral span
    | none => objection span (.typeMismatch (Ty.textOrVoid none) actual.text)

mutual

/-- Checks a statement; gives the local names declared after it. -/
def statement (ctx : BodyContext F) (locals : Locals) : Stmt → Checked Locals
  | .localVariable ty name value _ => do
    let ty ← ctx.lower ty
    match value with
    | some e => ctx.expect locals e ty
    | none => .ok ()
    define locals name ty
  | .assign target op e span => do
    let declared ← ctx.targetType locals target
    ctx.assignment locals declared op e span
    return locals
  | .fieldAssign receiver field op e span => do
    let declared ← ctx.fieldTargetType (← ctx.operand locals receiver) receiver.span field
    ctx.assignment locals declared op e span
    return locals
  | .expression e span => do
    ctx.expressionStatement locals e span
    return locals
  | .ifElse condition thenBranch none _ => do
    ctx.expect locals condition .boolean
    let _ ← statements ctx locals.push thenBranch
    return locals
  | .ifElse condition thenBranch (some elseBranch) _ => do
    ctx.expect locals condition .boolean
    let _ ← statements ctx locals.push thenBranch
    let _ ← statements ctx locals.push elseBranch
    return locals
  | .whileLoop condition body _ => do
    ctx.expect locals condition .boolean
    let _ ← statements ctx locals.push body
    return locals
  | .forLoop init condition update body _ => do
    let header ← statement ctx locals.push init
    ctx.expect header condition .boolean
    let header ← statement ctx header update
    let _ ← statements ctx header.push body
    return locals
  | .returns value span => do
    ctx.returned locals value span
    return locals
  | .block body _ => do
    let _ ← statements ctx locals.push body
    return locals

/-- Checks statements one after the other. -/
def statements (ctx : BodyContext F) (locals : Locals) : List Stmt → Checked Locals
  | [] => .ok locals
  | s :: rest => do
    let locals ← statement ctx locals s
    statements ctx locals rest

end

/-! ## Members -/

/-- Declares parameters in order. -/
def defineParameters (ctx : BodyContext F) : Locals → List Parameter → Checked Locals
  | locals, [] => .ok locals
  | locals, p :: rest => do
    let ty ← ctx.lower p.ty
    let locals ← define locals p.name ty
    ctx.defineParameters locals rest

/-- The local names at the start of a body: `this`, and the parameters. -/
def initialLocals (ctx : BodyContext F) (parameters : List Parameter) : Checked Locals :=
  match ctx.this? with
  | some this => ctx.defineParameters [[("this", this.toTy)]] parameters
  | none => ctx.defineParameters [[]] parameters

/-- Checks the construction of the base class. -/
def superCall (ctx : BodyContext F) (locals : Locals) (arguments : Option (List Expr))
    (span : Span) : Checked Unit :=
  match ctx.cls.base with
  | none => .ok ()
  | some base => do
    let args ← ctx.values locals (arguments.getD [])
    ctx.construction base args span

end BodyContext

/-! ## Programs -/

/-- The type of `this` in a class: the class with its own parameters. -/
def Template.selfType (t : Template F) : ClassTy := ⟨t.name, t.generics.map Ty.unbound⟩

/-- The context of a constructor. -/
def Template.constructorContext (t : Template F) (table : ClassTable F) : BodyContext F :=
  { table, cls := t, params := TypeParams.unbound t.generics, this? := some t.selfType,
    returnType := none }

def ConstructorDecl.check (table : ClassTable F) (cls : Template F) (c : ConstructorDecl) :
    Checked Unit := do
  let ctx := cls.constructorContext table
  let locals ← ctx.initialLocals c.parameters
  ctx.superCall locals c.superArguments c.span
  let _ ← ctx.statements locals c.body

/-- Whether a statement is a `return`. -/
def Stmt.isReturn : Stmt → Bool
  | .returns .. => true
  | _ => false

/-- The parameters that the body of a method sees. -/
def MethodDecl.typeParams (m : MethodDecl) (cls : Template F) : TypeParams :=
  TypeParams.pushUnbound (if m.isStatic then [] else TypeParams.unbound cls.generics)
    (m.generics.map Identifier.name)

/-- The lowered return type of a method. -/
def MethodDecl.loweredReturn (m : MethodDecl) (table : ClassTable F) (params : TypeParams) :
    Checked (Option Ty) :=
  match m.returnType with
  | none => .ok none
  | some t => typed ((table.lower params t).map some)

def MethodDecl.check (table : ClassTable F) (cls : Template F) (m : MethodDecl) :
    Checked Unit := do
  let params := m.typeParams cls
  let returnType ← m.loweredReturn table params
  let this? := if m.isStatic then none else some cls.selfType
  let ctx : BodyContext F := { table, cls, params, this?, returnType }
  let locals ← ctx.initialLocals m.parameters
  let _ ← ctx.statements locals m.body
  match returnType, m.returnType with
  | some ty, some written =>
    if m.body.any Stmt.isReturn then .ok () else objection written.span (.noReturn ty)
  | _, _ => .ok ()

def ClassDecl.check (table : ClassTable F) (c : ClassDecl) : Checked Unit := do
  let cls ← typed (table.template c.name.name c.name.span)
  if c.constructors.isEmpty then
    (cls.constructorContext table).superCall [[]] none c.span
  c.constructors.forM (ConstructorDecl.check table cls)
  c.methods.forM (MethodDecl.check table cls)

/-- Checks the types of all classes of a program. -/
def Program.check (table : ClassTable F) (p : Program) : Checked Unit :=
  p.classes.forM (ClassDecl.check table)

end Middleweight
