import Middleweight.Analysis.Issue

/-!
# Expanding names

Every type name in a program is replaced by the full name it stands for. The names of generic
parameters in scope stay; static methods do not see the parameters of their class.

The walks recurse on types, expressions and statements, in the order in which a type that is wrong
counts as the first one.
-/

namespace Middleweight

variable {F : Type}

namespace TypeExpr

/-- The full name of a written class, if it has as many arguments as its class has parameters. -/
def expandedName (table : ClassTable F) (name : String) (given : Nat) (span : Span) :
    Checked String :=
  match table.imports.resolve? name with
  | none => objection span (.type (.unknownType name span))
  | some full =>
    let expected := (table.arity? full).getD 0
    if expected = given then .ok full
    else objection span (.type (.genericArity full expected given span))

mutual

/-- A written type with full names. -/
def expand (table : ClassTable F) (generics : List String) : TypeExpr → Checked TypeExpr
  | ⟨name, args, span⟩ =>
    if name ∈ generics then
      if args.isEmpty then .ok ⟨name, args, span⟩ else objection span (.genericArguments name)
    else
      match expandedName table name args.length span with
      | .error e => .error e
      | .ok full =>
        match expandAll table generics args with
        | .error e => .error e
        | .ok args => .ok ⟨full, args, span⟩

def expandAll (table : ClassTable F) (generics : List String) :
    List TypeExpr → Checked (List TypeExpr)
  | [] => .ok []
  | t :: rest =>
    match expand table generics t with
    | .error e => .error e
    | .ok t =>
      match expandAll table generics rest with
      | .error e => .error e
      | .ok rest => .ok (t :: rest)

end

end TypeExpr

namespace Expr

mutual

/-- An expression with full names of types. -/
def expand (table : ClassTable F) (generics : List String) : Expr → Checked Expr
  | literal value span => .ok (literal value span)
  | var name => .ok (var name)
  | binary lhs op rhs span => do
    let lhs ← expand table generics lhs
    let rhs ← expand table generics rhs
    return binary lhs op rhs span
  | unary op operand span => do
    let operand ← expand table generics operand
    return unary op operand span
  | step op before target span => do
    let target ← expand table generics target
    return step op before target span
  | ternary condition thenValue elseValue span => do
    let condition ← expand table generics condition
    let thenValue ← expand table generics thenValue
    let elseValue ← expand table generics elseValue
    return ternary condition thenValue elseValue span
  | new ty arguments span => do
    let ty ← ty.expand table generics
    let arguments ← expandAll table generics arguments
    return new ty arguments span
  | field receiver name span => do
    let receiver ← expand table generics receiver
    return field receiver name span
  | call receiver method arguments span => do
    let receiver ← expand table generics receiver
    let arguments ← expandAll table generics arguments
    return call receiver method arguments span
  | cast ty expression span => do
    let ty ← ty.expand table generics
    let expression ← expand table generics expression
    return cast ty expression span
  | instanceOf expression ty span => do
    let ty ← ty.expand table generics
    let expression ← expand table generics expression
    return instanceOf expression ty span
  | group expression span => do
    let expression ← expand table generics expression
    return group expression span

def expandAll (table : ClassTable F) (generics : List String) : List Expr → Checked (List Expr)
  | [] => .ok []
  | e :: rest => do
    let e ← expand table generics e
    let rest ← expandAll table generics rest
    return e :: rest

end

/-- An optional expression with full names of types. -/
def expandOption (table : ClassTable F) (generics : List String) :
    Option Expr → Checked (Option Expr)
  | none => .ok none
  | some e => (e.expand table generics).map some

end Expr

namespace Stmt

mutual

/-- A statement with full names of types. -/
def expand (table : ClassTable F) (generics : List String) : Stmt → Checked Stmt
  | localVariable ty name value span => do
    let ty ← ty.expand table generics
    let value ← Expr.expandOption table generics value
    return localVariable ty name value span
  | assign target op value span => do
    let value ← value.expand table generics
    return assign target op value span
  | fieldAssign receiver field op value span => do
    let receiver ← receiver.expand table generics
    let value ← value.expand table generics
    return fieldAssign receiver field op value span
  | expression e span => do
    let e ← e.expand table generics
    return expression e span
  | ifElse condition thenBranch none span => do
    let condition ← condition.expand table generics
    let thenBranch ← expandAll table generics thenBranch
    return ifElse condition thenBranch none span
  | ifElse condition thenBranch (some elseBranch) span => do
    let condition ← condition.expand table generics
    let thenBranch ← expandAll table generics thenBranch
    let elseBranch ← expandAll table generics elseBranch
    return ifElse condition thenBranch (some elseBranch) span
  | whileLoop condition body span => do
    let condition ← condition.expand table generics
    let body ← expandAll table generics body
    return whileLoop condition body span
  | forLoop init condition update body span => do
    let init ← expand table generics init
    let condition ← condition.expand table generics
    let update ← expand table generics update
    let body ← expandAll table generics body
    return forLoop init condition update body span
  | returns value span => do
    let value ← Expr.expandOption table generics value
    return returns value span
  | block statements span => do
    let statements ← expandAll table generics statements
    return block statements span

def expandAll (table : ClassTable F) (generics : List String) : List Stmt → Checked (List Stmt)
  | [] => .ok []
  | s :: rest => do
    let s ← expand table generics s
    let rest ← expandAll table generics rest
    return s :: rest

end

end Stmt

/-! ## Declarations -/

/-- An optional type with full names. -/
def TypeExpr.expandOption (table : ClassTable F) (generics : List String) :
    Option TypeExpr → Checked (Option TypeExpr)
  | none => .ok none
  | some t => (t.expand table generics).map some

def Parameter.expand (table : ClassTable F) (generics : List String) (p : Parameter) :
    Checked Parameter := do
  let ty ← p.ty.expand table generics
  return { p with ty }

def FieldDecl.expand (table : ClassTable F) (generics : List String) (f : FieldDecl) :
    Checked FieldDecl := do
  let ty ← f.ty.expand table generics
  return { f with ty }

/-- The arguments of a `super(...)` call with full names of types. -/
def Expr.expandSuper (table : ClassTable F) (generics : List String) :
    Option (List Expr) → Checked (Option (List Expr))
  | none => .ok none
  | some es => (Expr.expandAll table generics es).map some

def ConstructorDecl.expand (table : ClassTable F) (generics : List String) (c : ConstructorDecl) :
    Checked ConstructorDecl := do
  let parameters ← c.parameters.mapM (Parameter.expand table generics)
  let superArguments ← Expr.expandSuper table generics c.superArguments
  let body ← Stmt.expandAll table generics c.body
  return { c with parameters, superArguments, body }

/-- The generic parameters that a method sees. -/
def MethodDecl.visibleGenerics (m : MethodDecl) (classGenerics : List String) : List String :=
  (if m.isStatic then [] else classGenerics) ++ m.generics.map Identifier.name

def MethodDecl.expand (table : ClassTable F) (classGenerics : List String) (m : MethodDecl) :
    Checked MethodDecl := do
  let generics := m.visibleGenerics classGenerics
  let returnType ← TypeExpr.expandOption table generics m.returnType
  let parameters ← m.parameters.mapM (Parameter.expand table generics)
  let body ← Stmt.expandAll table generics m.body
  return { m with returnType, parameters, body }

def ClassDecl.expand (table : ClassTable F) (c : ClassDecl) : Checked ClassDecl := do
  let generics := c.generics.map Identifier.name
  let base ← TypeExpr.expandOption table generics c.base
  let fields ← c.fields.mapM (FieldDecl.expand table generics)
  let constructors ← c.constructors.mapM (ConstructorDecl.expand table generics)
  let methods ← c.methods.mapM (MethodDecl.expand table generics)
  return { c with base, fields, constructors, methods }

/-- A program with full names of types. -/
def Program.expand (table : ClassTable F) (p : Program) : Checked Program := do
  let classes ← p.classes.mapM (ClassDecl.expand table)
  return { p with classes }

end Middleweight
