import Middleweight.Json.Record
import Middleweight.Syntax.Basic

/-!
# Programs from JSON

The readers beside the writers of programs. A part with a default may be left out, an option may also
be `null`, an unknown part is ignored, and anything else that does not fit is refused.

Types, expressions and statements nest; a node is strictly deeper than its parts, so the depth of the
JSON value is budget enough.
-/

namespace Middleweight

open Json (record? tagged? symbol? list? uint32?)

def Span.decode? (j : Json) : Option Span := do
  let r ← record? ["line", "column"] j
  let line ← r.required "line" uint32?
  let column ← r.required "column" uint32?
  return { line, column }

def Identifier.decode? (j : Json) : Option Identifier := do
  let r ← record? ["name", "span"] j
  let name ← r.required "name" Json.str?
  let span ← r.orElse "span" {} Span.decode?
  return { name, span }

def TypeExpr.decodeWithin? : Nat → Json → Option TypeExpr
  | 0, _ => none
  | fuel + 1, j => do
    let r ← record? ["name", "generics", "span"] j
    let name ← r.required "name" Json.str?
    let generics ← r.orElse "generics" [] (list? (TypeExpr.decodeWithin? fuel))
    let span ← r.orElse "span" {} Span.decode?
    return { name, generics, span }

def TypeExpr.decode? (j : Json) : Option TypeExpr := TypeExpr.decodeWithin? j.depth j

/-- A literal from its type and its value, if one is given. -/
def Literal.ofParts? : String → Option Json → Option Literal
  | "int", some j => (Json.int64? j).map Literal.int
  | "float", some j => (Json.float? j).map Literal.float
  | "bool", some j => (Json.bool? j).map Literal.bool
  | "string", some j => (Json.str? j).map Literal.string
  | "null", none | "null", some .null => some Literal.null
  | _, _ => none

def Literal.decode? (j : Json) : Option Literal :=
  match j with
  | .array [t, value] => (symbol? t).bind (Literal.ofParts? · (some value))
  | .object _ => do
    let r ← record? ["type", "value"] j
    let type ← r.required "type" symbol?
    Literal.ofParts? type (r.lookup "value")
  | _ => none

def BinaryOp.decode? (j : Json) : Option BinaryOp := (symbol? j).bind BinaryOp.ofSymbol?

def UnaryOp.decode? (j : Json) : Option UnaryOp := (symbol? j).bind UnaryOp.ofSymbol?

def StepOp.decode? (j : Json) : Option StepOp := (symbol? j).bind StepOp.ofSymbol?

def AssignOp.decode? (j : Json) : Option AssignOp := (symbol? j).bind AssignOp.ofSymbol?

/-- An expression of a given kind; `read` reads the expressions inside it. -/
def Expr.ofKind? (read : Json → Option Expr) (kind : String) (j : Json) : Option Expr :=
  match kind with
  | "literal" => do
    let r ← record? ["value", "span"] j
    let value ← r.required "value" Literal.decode?
    let span ← r.orElse "span" {} Span.decode?
    return .literal value span
  | "variable" => (Identifier.decode? j).map Expr.var
  | "binary" => do
    let r ← record? ["lhs", "operator", "rhs", "span"] j
    let lhs ← r.required "lhs" read
    let op ← r.required "operator" BinaryOp.decode?
    let rhs ← r.required "rhs" read
    let span ← r.orElse "span" {} Span.decode?
    return .binary lhs op rhs span
  | "unary" => do
    let r ← record? ["operator", "operand", "span"] j
    let op ← r.required "operator" UnaryOp.decode?
    let operand ← r.required "operand" read
    let span ← r.orElse "span" {} Span.decode?
    return .unary op operand span
  | "increment" => do
    let r ← record? ["operator", "prefix", "target", "span"] j
    let op ← r.required "operator" StepOp.decode?
    let before ← r.required "prefix" Json.bool?
    let target ← r.required "target" read
    let span ← r.orElse "span" {} Span.decode?
    return .step op before target span
  | "ternary" => do
    let r ← record? ["condition", "then_value", "else_value", "span"] j
    let condition ← r.required "condition" read
    let thenValue ← r.required "then_value" read
    let elseValue ← r.required "else_value" read
    let span ← r.orElse "span" {} Span.decode?
    return .ternary condition thenValue elseValue span
  | "new" => do
    let r ← record? ["ty", "arguments", "span"] j
    let ty ← r.required "ty" TypeExpr.decode?
    let arguments ← r.orElse "arguments" [] (list? read)
    let span ← r.orElse "span" {} Span.decode?
    return .new ty arguments span
  | "field_access" => do
    let r ← record? ["receiver", "field", "span"] j
    let receiver ← r.required "receiver" read
    let field ← r.required "field" Identifier.decode?
    let span ← r.orElse "span" {} Span.decode?
    return .field receiver field span
  | "method_call" => do
    let r ← record? ["receiver", "method", "arguments", "span"] j
    let receiver ← r.required "receiver" read
    let method ← r.required "method" Identifier.decode?
    let arguments ← r.orElse "arguments" [] (list? read)
    let span ← r.orElse "span" {} Span.decode?
    return .call receiver method arguments span
  | "cast" => do
    let r ← record? ["ty", "expression", "span"] j
    let ty ← r.required "ty" TypeExpr.decode?
    let expression ← r.required "expression" read
    let span ← r.orElse "span" {} Span.decode?
    return .cast ty expression span
  | "instance_of" => do
    let r ← record? ["expression", "ty", "span"] j
    let expression ← r.required "expression" read
    let ty ← r.required "ty" TypeExpr.decode?
    let span ← r.orElse "span" {} Span.decode?
    return .instanceOf expression ty span
  | "group" => do
    let r ← record? ["expression", "span"] j
    let expression ← r.required "expression" read
    let span ← r.orElse "span" {} Span.decode?
    return .group expression span
  | _ => none

def Expr.decodeWithin? : Nat → Json → Option Expr
  | 0, _ => none
  | fuel + 1, j =>
    match tagged? "kind" j with
    | some (kind, j) => Expr.ofKind? (Expr.decodeWithin? fuel) kind j
    | none => none

def Expr.decode? (j : Json) : Option Expr := Expr.decodeWithin? j.depth j

/-- A statement of a given kind; `read` reads the statements inside it. -/
def Stmt.ofKind? (read : Json → Option Stmt) (kind : String) (j : Json) : Option Stmt :=
  match kind with
  | "local_variable" => do
    let r ← record? ["ty", "name", "value", "span"] j
    let ty ← r.required "ty" TypeExpr.decode?
    let name ← r.required "name" Identifier.decode?
    let value ← r.optional "value" Expr.decode?
    let span ← r.orElse "span" {} Span.decode?
    return .localVariable ty name value span
  | "assign" => do
    let r ← record? ["target", "operator", "value", "span"] j
    let target ← r.required "target" Identifier.decode?
    let op ← r.required "operator" AssignOp.decode?
    let value ← r.required "value" Expr.decode?
    let span ← r.orElse "span" {} Span.decode?
    return .assign target op value span
  | "field_assign" => do
    let r ← record? ["receiver", "field", "operator", "value", "span"] j
    let receiver ← r.required "receiver" Expr.decode?
    let field ← r.required "field" Identifier.decode?
    let op ← r.required "operator" AssignOp.decode?
    let value ← r.required "value" Expr.decode?
    let span ← r.orElse "span" {} Span.decode?
    return .fieldAssign receiver field op value span
  | "expression" => do
    let r ← record? ["expression", "span"] j
    let expression ← r.required "expression" Expr.decode?
    let span ← r.orElse "span" {} Span.decode?
    return .expression expression span
  | "if" => do
    let r ← record? ["condition", "then_branch", "else_branch", "span"] j
    let condition ← r.required "condition" Expr.decode?
    let thenBranch ← r.required "then_branch" (list? read)
    let elseBranch ← r.optional "else_branch" (list? read)
    let span ← r.orElse "span" {} Span.decode?
    return .ifElse condition thenBranch elseBranch span
  | "while" => do
    let r ← record? ["condition", "body", "span"] j
    let condition ← r.required "condition" Expr.decode?
    let body ← r.required "body" (list? read)
    let span ← r.orElse "span" {} Span.decode?
    return .whileLoop condition body span
  | "for" => do
    let r ← record? ["init", "condition", "update", "body", "span"] j
    let init ← r.required "init" read
    let condition ← r.required "condition" Expr.decode?
    let update ← r.required "update" read
    let body ← r.required "body" (list? read)
    let span ← r.orElse "span" {} Span.decode?
    return .forLoop init condition update body span
  | "return" => do
    let r ← record? ["value", "span"] j
    let value ← r.optional "value" Expr.decode?
    let span ← r.orElse "span" {} Span.decode?
    return .returns value span
  | "block" => do
    let r ← record? ["statements", "span"] j
    let statements ← r.required "statements" (list? read)
    let span ← r.orElse "span" {} Span.decode?
    return .block statements span
  | _ => none

def Stmt.decodeWithin? : Nat → Json → Option Stmt
  | 0, _ => none
  | fuel + 1, j =>
    match tagged? "kind" j with
    | some (kind, j) => Stmt.ofKind? (Stmt.decodeWithin? fuel) kind j
    | none => none

def Stmt.decode? (j : Json) : Option Stmt := Stmt.decodeWithin? j.depth j

def Parameter.decode? (j : Json) : Option Parameter := do
  let r ← record? ["ty", "name"] j
  let ty ← r.required "ty" TypeExpr.decode?
  let name ← r.required "name" Identifier.decode?
  return { ty, name }

def FieldDecl.decode? (j : Json) : Option FieldDecl := do
  let r ← record? ["ty", "name", "span"] j
  let ty ← r.required "ty" TypeExpr.decode?
  let name ← r.required "name" Identifier.decode?
  let span ← r.orElse "span" {} Span.decode?
  return { ty, name, span }

def ConstructorDecl.decode? (j : Json) : Option ConstructorDecl := do
  let r ← record? ["parameters", "super_arguments", "body", "span"] j
  let parameters ← r.orElse "parameters" [] (list? Parameter.decode?)
  let superArguments ← r.optional "super_arguments" (list? Expr.decode?)
  let body ← r.orElse "body" [] (list? Stmt.decode?)
  let span ← r.orElse "span" {} Span.decode?
  return { parameters, superArguments, body, span }

def MethodDecl.decode? (j : Json) : Option MethodDecl := do
  let r ← record?
    ["name", "is_static", "generics", "return_type", "parameters", "body", "span"] j
  let name ← r.required "name" Identifier.decode?
  let isStatic ← r.orElse "is_static" false Json.bool?
  let generics ← r.orElse "generics" [] (list? Identifier.decode?)
  let returnType ← r.optional "return_type" TypeExpr.decode?
  let parameters ← r.orElse "parameters" [] (list? Parameter.decode?)
  let body ← r.orElse "body" [] (list? Stmt.decode?)
  let span ← r.orElse "span" {} Span.decode?
  return { name, isStatic, generics, returnType, parameters, body, span }

def ClassDecl.decode? (j : Json) : Option ClassDecl := do
  let r ← record?
    ["name", "generics", "base", "fields", "constructors", "methods", "span"] j
  let name ← r.required "name" Identifier.decode?
  let generics ← r.orElse "generics" [] (list? Identifier.decode?)
  let base ← r.optional "base" TypeExpr.decode?
  let fields ← r.orElse "fields" [] (list? FieldDecl.decode?)
  let constructors ← r.orElse "constructors" [] (list? ConstructorDecl.decode?)
  let methods ← r.orElse "methods" [] (list? MethodDecl.decode?)
  let span ← r.orElse "span" {} Span.decode?
  return { name, generics, base, fields, constructors, methods, span }

def Import.decode? (j : Json) : Option Import := do
  let r ← record? ["path", "wildcard", "span"] j
  let path ← r.required "path" (list? Identifier.decode?)
  let wildcard ← r.orElse "wildcard" false Json.bool?
  let span ← r.orElse "span" {} Span.decode?
  return { path, wildcard, span }

def Program.decode? (j : Json) : Option Program := do
  let r ← record? ["source", "imports", "classes"] j
  let source ← r.required "source" Json.str?
  let imports ← r.orElse "imports" [] (list? Import.decode?)
  let classes ← r.orElse "classes" [] (list? ClassDecl.decode?)
  return { source, imports, classes }

end Middleweight
