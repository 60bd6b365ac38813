import Middleweight.Syntax.TypeText
import Middleweight.Text.Segments

/-!
# Building programs by hand

Terse constructors for hosts that have no parser. Types are given as text, and nodes stand nowhere
unless they are placed with `at`.
-/

namespace Middleweight.Build

def ident (name : String) : Identifier := { name }

def ty (text : String) : TypeExpr := TypeExpr.parse text

def param (type name : String) : Parameter := { ty := ty type, name := ident name }

def field (type name : String) : FieldDecl := { ty := ty type, name := ident name }

/-- A program without a file of its own. -/
def program (classes : List ClassDecl) (imports : List Import := []) : Program :=
  { source := "<memory>", imports, classes }

/-- An import from its dotted path; a path that ends in `.*` is a wildcard. -/
def importPath (path : String) : Import :=
  match path.toList.reverse with
  | '*' :: '.' :: stem =>
    { path := (Text.segments (String.ofList stem.reverse)).map ident, wildcard := true }
  | _ => { path := (Text.segments path).map ident }

/-! ## Declarations -/

def constructor (parameters : List Parameter) (body : List Stmt) : ConstructorDecl :=
  { parameters, body }

def method (name : String) (returns : Option String) (parameters : List Parameter)
    (body : List Stmt) : MethodDecl :=
  { name := ident name, returnType := returns.map ty, parameters, body }

def staticMethod (name : String) (returns : Option String) (parameters : List Parameter)
    (body : List Stmt) : MethodDecl :=
  { method name returns parameters body with isStatic := true }

/-- The method a program starts with. -/
def mainMethod (body : List Stmt) : MethodDecl := staticMethod "main" none [] body

/-- Places a class and its name. -/
def classAt (c : ClassDecl) (line column : UInt32) : ClassDecl :=
  { c with span := ⟨line, column⟩, name := { c.name with span := ⟨line, column⟩ } }

/-- Places a method and its name. -/
def methodAt (m : MethodDecl) (line column : UInt32) : MethodDecl :=
  { m with span := ⟨line, column⟩, name := { m.name with span := ⟨line, column⟩ } }

/-! ## Expressions -/

def int (n : Int64) : Expr := .literal (.int n) {}

def float (x : Float) : Expr := .literal (.float x) {}

def boolean (b : Bool) : Expr := .literal (.bool b) {}

def string (s : String) : Expr := .literal (.string s) {}

def null : Expr := .literal .null {}

def var (name : String) : Expr := .var (ident name)

def this : Expr := var "this"

def binary (lhs : Expr) (op : BinaryOp) (rhs : Expr) : Expr := .binary lhs op rhs {}

def unary (op : UnaryOp) (operand : Expr) : Expr := .unary op operand {}

def step (op : StepOp) (before : Bool) (target : Expr) : Expr := .step op before target {}

def postIncrement (target : Expr) : Expr := step .increment false target

def ternary (condition thenValue elseValue : Expr) : Expr :=
  .ternary condition thenValue elseValue {}

def new (type : String) (arguments : List Expr) : Expr := .new (ty type) arguments {}

def fieldOf (receiver : Expr) (name : String) : Expr := .field receiver (ident name) {}

def call (receiver : Expr) (method : String) (arguments : List Expr) : Expr :=
  .call receiver (ident method) arguments {}

/-- A call placed together with the name of its method. -/
def callAt (receiver : Expr) (method : String) (arguments : List Expr) (line column : UInt32) :
    Expr :=
  .call receiver ⟨method, ⟨line, column⟩⟩ arguments ⟨line, column⟩

/-- Prints a line on the standard output of the program. -/
def println (argument : Expr) : Expr := call (fieldOf (var "System") "out") "println" [argument]

def cast (type : String) (expression : Expr) : Expr := .cast (ty type) expression {}

def instanceOf (expression : Expr) (type : String) : Expr := .instanceOf expression (ty type) {}

def group (expression : Expr) : Expr := .group expression {}

/-! ## Statements -/

def localVariable (type name : String) (value : Option Expr) : Stmt :=
  .localVariable (ty type) (ident name) value {}

def compoundAssign (target : String) (op : AssignOp) (value : Expr) : Stmt :=
  .assign (ident target) op value {}

def assign (target : String) (value : Expr) : Stmt := compoundAssign target .set value

def fieldAssign (receiver : Expr) (field : String) (value : Expr) : Stmt :=
  .fieldAssign receiver (ident field) .set value {}

/-- An expression as a statement, at the place of the expression. -/
def expr (expression : Expr) : Stmt := .expression expression expression.span

def returns (value : Option Expr) : Stmt := .returns value {}

def ifElse (condition : Expr) (thenBranch : List Stmt) (elseBranch : Option (List Stmt)) : Stmt :=
  .ifElse condition thenBranch elseBranch {}

def whileLoop (condition : Expr) (body : List Stmt) : Stmt := .whileLoop condition body {}

def forLoop (init : Stmt) (condition : Expr) (update : Stmt) (body : List Stmt) : Stmt :=
  .forLoop init condition update body {}

def block (statements : List Stmt) : Stmt := .block statements {}

/-- Places a statement. -/
def «at» (s : Stmt) (line column : UInt32) : Stmt := s.withSpan ⟨line, column⟩

end Middleweight.Build
