import Middleweight.Json.Basic
import Middleweight.Syntax.Basic

/-!
# Programs as JSON

Every part of a node is written, absent options as `null`. Expressions and statements carry their
kind, literals their type and value, and operators are their symbols. A bare name is written like an
identifier, with its kind beside it.
-/

namespace Middleweight

open Json (object array string)

def Span.encode (s : Span) : Json :=
  object [("line", .int s.line.toNat), ("column", .int s.column.toNat)]

def Identifier.members (i : Identifier) : List (String × Json) :=
  [("name", string i.name), ("span", i.span.encode)]

def Identifier.encode (i : Identifier) : Json := object i.members

/-- An option, `null` when absent. -/
def Json.ofOption {α : Type} (f : α → Json) : Option α → Json
  | none => .null
  | some a => f a

mutual

def TypeExpr.encode : TypeExpr → Json
  | ⟨name, generics, span⟩ =>
    object [("name", string name), ("generics", array (TypeExpr.encodeAll generics)),
      ("span", span.encode)]

def TypeExpr.encodeAll : List TypeExpr → List Json
  | [] => []
  | t :: rest => t.encode :: TypeExpr.encodeAll rest

end

def Literal.encode : Literal → Json
  | .int n => object [("type", .string "int"), ("value", .int n.toInt)]
  | .float x => object [("type", .string "float"), ("value", .float x)]
  | .bool b => object [("type", .string "bool"), ("value", .bool b)]
  | .string s => object [("type", .string "string"), ("value", .string s)]
  | .null => object [("type", .string "null")]

/-- A node of a given kind: its parts, and its span last. -/
def Json.node (kind : String) (parts : List (String × Json)) (span : Span) : Json :=
  object (("kind", string kind) :: parts ++ [("span", span.encode)])

mutual

def Expr.encode : Expr → Json
  | .literal value span => Json.node "literal" [("value", value.encode)] span
  | .var name => object (("kind", string "variable") :: name.members)
  | .binary lhs op rhs span =>
    Json.node "binary"
      [("lhs", lhs.encode), ("operator", string op.symbol), ("rhs", rhs.encode)] span
  | .unary op operand span =>
    Json.node "unary" [("operator", string op.symbol), ("operand", operand.encode)] span
  | .step op before target span =>
    Json.node "increment"
      [("operator", string op.symbol), ("prefix", .bool before), ("target", target.encode)] span
  | .ternary condition thenValue elseValue span =>
    Json.node "ternary"
      [("condition", condition.encode), ("then_value", thenValue.encode),
        ("else_value", elseValue.encode)] span
  | .new ty arguments span =>
    Json.node "new" [("ty", ty.encode), ("arguments", array (Expr.encodeAll arguments))] span
  | .field receiver name span =>
    Json.node "field_access" [("receiver", receiver.encode), ("field", name.encode)] span
  | .call receiver method arguments span =>
    Json.node "method_call"
      [("receiver", receiver.encode), ("method", method.encode),
        ("arguments", array (Expr.encodeAll arguments))] span
  | .cast ty expression span =>
    Json.node "cast" [("ty", ty.encode), ("expression", expression.encode)] span
  | .instanceOf expression ty span =>
    Json.node "instance_of" [("expression", expression.encode), ("ty", ty.encode)] span
  | .group expression span => Json.node "group" [("expression", expression.encode)] span

def Expr.encodeAll : List Expr → List Json
  | [] => []
  | e :: rest => e.encode :: Expr.encodeAll rest

end

mutual

def Stmt.encode : Stmt → Json
  | .localVariable ty name value span =>
    Json.node "local_variable"
      [("ty", ty.encode), ("name", name.encode), ("value", Json.ofOption Expr.encode value)] span
  | .assign target op value span =>
    Json.node "assign"
      [("target", target.encode), ("operator", string op.symbol), ("value", value.encode)] span
  | .fieldAssign receiver field op value span =>
    Json.node "field_assign"
      [("receiver", receiver.encode), ("field", field.encode), ("operator", string op.symbol),
        ("value", value.encode)] span
  | .expression e span => Json.node "expression" [("expression", e.encode)] span
  | .ifElse condition thenBranch none span =>
    Json.node "if"
      [("condition", condition.encode), ("then_branch", array (Stmt.encodeAll thenBranch)),
        ("else_branch", .null)] span
  | .ifElse condition thenBranch (some elseBranch) span =>
    Json.node "if"
      [("condition", condition.encode), ("then_branch", array (Stmt.encodeAll thenBranch)),
        ("else_branch", array (Stmt.encodeAll elseBranch))] span
  | .whileLoop condition body span =>
    Json.node "while"
      [("condition", condition.encode), ("body", array (Stmt.encodeAll body))] span
  | .forLoop init condition update body span =>
    Json.node "for"
      [("init", init.encode), ("condition", condition.encode), ("update", update.encode),
        ("body", array (Stmt.encodeAll body))] span
  | .returns value span => Json.node "return" [("value", Json.ofOption Expr.encode value)] span
  | .block statements span =>
    Json.node "block" [("statements", array (Stmt.encodeAll statements))] span

def Stmt.encodeAll : List Stmt → List Json
  | [] => []
  | s :: rest => s.encode :: Stmt.encodeAll rest

end

def Parameter.encode (p : Parameter) : Json :=
  object [("ty", p.ty.encode), ("name", p.name.encode)]

def FieldDecl.encode (f : FieldDecl) : Json :=
  object [("ty", f.ty.encode), ("name", f.name.encode), ("span", f.span.encode)]

def ConstructorDecl.encode (c : ConstructorDecl) : Json :=
  object [("parameters", array (c.parameters.map Parameter.encode)),
    ("super_arguments", Json.ofOption (fun es => array (Expr.encodeAll es)) c.superArguments),
    ("body", array (Stmt.encodeAll c.body)), ("span", c.span.encode)]

def MethodDecl.encode (m : MethodDecl) : Json :=
  object [("name", m.name.encode), ("is_static", .bool m.isStatic),
    ("generics", array (m.generics.map Identifier.encode)),
    ("return_type", Json.ofOption TypeExpr.encode m.returnType),
    ("parameters", array (m.parameters.map Parameter.encode)),
    ("body", array (Stmt.encodeAll m.body)), ("span", m.span.encode)]

def ClassDecl.encode (c : ClassDecl) : Json :=
  object [("name", c.name.encode), ("generics", array (c.generics.map Identifier.encode)),
    ("base", Json.ofOption TypeExpr.encode c.base),
    ("fields", array (c.fields.map FieldDecl.encode)),
    ("constructors", array (c.constructors.map ConstructorDecl.encode)),
    ("methods", array (c.methods.map MethodDecl.encode)), ("span", c.span.encode)]

def Import.encode (i : Import) : Json :=
  object [("path", array (i.path.map Identifier.encode)), ("wildcard", .bool i.wildcard),
    ("span", i.span.encode)]

def Program.encode (p : Program) : Json :=
  object [("source", string p.source), ("imports", array (p.imports.map Import.encode)),
    ("classes", array (p.classes.map ClassDecl.encode))]

end Middleweight
