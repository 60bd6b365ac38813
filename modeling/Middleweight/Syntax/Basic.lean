import Middleweight.Source.Span
import Middleweight.Syntax.Operator

/-!
# Written programs

The tree of a program as a parser hands it over. A chain of binary operators may be nested in any
shape; parentheses are `Expr.group` nodes. Type names stand as they were written until name expansion
replaces them by full names.
-/

namespace Middleweight

/-- A name and where it stands. -/
structure Identifier where
  name : String
  span : Span := {}
deriving DecidableEq, Inhabited

/-- A written type: a name, possibly dotted, with type arguments. -/
structure TypeExpr where
  name : String
  generics : List TypeExpr := []
  span : Span := {}
deriving Inhabited

/-- A literal. -/
inductive Literal where
  | int (n : Int64)
  | float (x : Float)
  | bool (b : Bool)
  | string (s : String)
  | null
deriving Inhabited

/-- An expression. -/
inductive Expr where
  | literal (value : Literal) (span : Span)
  /-- A bare name: a local, a parameter, a field, `this`, a class or a namespace. -/
  | var (name : Identifier)
  | binary (lhs : Expr) (op : BinaryOp) (rhs : Expr) (span : Span)
  | unary (op : UnaryOp) (operand : Expr) (span : Span)
  /-- `++x` when `before` holds, else `x++`. -/
  | step (op : StepOp) (before : Bool) (target : Expr) (span : Span)
  | ternary (condition thenValue elseValue : Expr) (span : Span)
  | new (ty : TypeExpr) (arguments : List Expr) (span : Span)
  | field (receiver : Expr) (field : Identifier) (span : Span)
  | call (receiver : Expr) (method : Identifier) (arguments : List Expr) (span : Span)
  | cast (ty : TypeExpr) (expression : Expr) (span : Span)
  | instanceOf (expression : Expr) (ty : TypeExpr) (span : Span)
  /-- A parenthesized expression. -/
  | group (expression : Expr) (span : Span)
deriving Inhabited

namespace Expr

/-- Where an expression stands. -/
def span : Expr → Span
  | var name => name.span
  | literal _ s | binary _ _ _ s | unary _ _ s | step _ _ _ s | ternary _ _ _ s | new _ _ s
  | field _ _ s | call _ _ _ s | cast _ _ s | instanceOf _ _ s | group _ s => s

/-- Whether an expression is the literal `null`, possibly in parentheses. -/
def isNullLiteral : Expr → Bool
  | literal .null _ => true
  | group e _ => e.isNullLiteral
  | _ => false

end Expr

/-- A statement. -/
inductive Stmt where
  | localVariable (ty : TypeExpr) (name : Identifier) (value : Option Expr) (span : Span)
  | assign (target : Identifier) (op : AssignOp) (value : Expr) (span : Span)
  | fieldAssign (receiver : Expr) (field : Identifier) (op : AssignOp) (value : Expr) (span : Span)
  | expression (expression : Expr) (span : Span)
  | ifElse (condition : Expr) (thenBranch : List Stmt) (elseBranch : Option (List Stmt))
      (span : Span)
  | whileLoop (condition : Expr) (body : List Stmt) (span : Span)
  /-- `for (init; condition; update) body`; a local of `init` lives as long as the loop. -/
  | forLoop (init : Stmt) (condition : Expr) (update : Stmt) (body : List Stmt) (span : Span)
  | returns (value : Option Expr) (span : Span)
  | block (statements : List Stmt) (span : Span)
deriving Inhabited

namespace Stmt

/-- Where a statement stands. -/
def span : Stmt → Span
  | localVariable _ _ _ s | assign _ _ _ s | fieldAssign _ _ _ _ s | expression _ s
  | ifElse _ _ _ s | whileLoop _ _ s | forLoop _ _ _ _ s | returns _ s | block _ s => s

/-- The same statement at another place. -/
def withSpan (s : Span) : Stmt → Stmt
  | localVariable ty name value _ => localVariable ty name value s
  | assign target op value _ => assign target op value s
  | fieldAssign receiver field op value _ => fieldAssign receiver field op value s
  | expression e _ => expression e s
  | ifElse c t e _ => ifElse c t e s
  | whileLoop c body _ => whileLoop c body s
  | forLoop init c update body _ => forLoop init c update body s
  | returns value _ => returns value s
  | block statements _ => block statements s

theorem span_withSpan (s : Span) (st : Stmt) : (st.withSpan s).span = s := by
  cases st <;> rfl

end Stmt

/-- A formal parameter. -/
structure Parameter where
  ty : TypeExpr
  name : Identifier
deriving Inhabited

/-- A field; fields have no initial value of their own. -/
structure FieldDecl where
  ty : TypeExpr
  name : Identifier
  span : Span := {}
deriving Inhabited

/-- A constructor, with the arguments of a leading `super(...)` call if there is one. -/
structure ConstructorDecl where
  parameters : List Parameter := []
  superArguments : Option (List Expr) := none
  body : List Stmt := []
  span : Span := {}
deriving Inhabited

/-- A method; without a return type it is `void`. -/
structure MethodDecl where
  name : Identifier
  isStatic : Bool := false
  generics : List Identifier := []
  returnType : Option TypeExpr := none
  parameters : List Parameter := []
  body : List Stmt := []
  span : Span := {}
deriving Inhabited

/-- A class; without an `extends` clause it extends the root class. -/
structure ClassDecl where
  name : Identifier
  generics : List Identifier := []
  base : Option TypeExpr := none
  fields : List FieldDecl := []
  constructors : List ConstructorDecl := []
  methods : List MethodDecl := []
  span : Span := {}
deriving Inhabited

/-- `import a.b.C;`, or `import a.b.*;` when `wildcard` holds. -/
structure Import where
  path : List Identifier
  wildcard : Bool := false
  span : Span := {}
deriving Inhabited

/-- The path of an import without its wildcard, segments joined by dots. -/
def Import.dotted (i : Import) : String :=
  String.intercalate "." (i.path.map Identifier.name)

/-- One source with its imports and classes. -/
structure Program where
  source : String
  imports : List Import := []
  classes : List ClassDecl := []
deriving Inhabited

/-- Whether a method can start a program: static, without parameters, named `main`. -/
def MethodDecl.isEntry (m : MethodDecl) : Bool :=
  m.isStatic && m.parameters.isEmpty && m.name.name == "main"

end Middleweight
