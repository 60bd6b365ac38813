import Middleweight.Json.Record
import Middleweight.Syntax.Build
import Middleweight.Syntax.Decode
import Middleweight.Text.Numeral

/-!
# Terse programs

A tree can be written as nested arrays: the name of a constructor of `Build`, then its arguments.
Classes, constructors and methods are objects whose parts may all be left out but for names. Types
are given as text.

Reading recurses within a depth, which the nesting of the value bounds.
-/

namespace Middleweight

open Json (str? items? list?)

/-- A float as a number or as text. -/
def Json.floatOrText? : Json → Option Float
  | .string s => Text.readFloat? s.toList
  | j => j.float?

/-- A member that may be left out or `null`. -/
def Json.present? (j : Json) (name : String) : Option Json :=
  match j.get? name with
  | some .null => none
  | other => other

/-- The items of a member that may be left out or `null`. -/
def Json.itemsOf (j : Json) (name : String) : List Json :=
  ((j.present? name).bind items?).getD []

/-- Pairs of texts. -/
def Json.textPairs? (items : List Json) : Option (List (String × String)) :=
  items.mapM fun
    | .array [.string a, .string b] => some (a, b)
    | _ => none

namespace Terse

/-- An expression of a given head and arguments; `read` reads the expressions inside it. -/
def exprOf? (read : Json → Option Expr) : List Json → Option Expr
  | [.string "int", n] => n.int64?.map Build.int
  | [.string "float", x] => x.floatOrText?.map Build.float
  | [.string "boolean", b] => b.bool?.map Build.boolean
  | [.string "string", .string s] => some (Build.string s)
  | [.string "var", .string s] => some (Build.var s)
  | [.string "null"] => some Build.null
  | [.string "this"] => some Build.this
  | [.string "binary", l, op, r] => do
    return Build.binary (← read l) (← BinaryOp.decode? op) (← read r)
  | [.string "unary", op, e] => do return Build.unary (← UnaryOp.decode? op) (← read e)
  | [.string "increment", op, .bool before, e] => do
    return Build.step (← StepOp.decode? op) before (← read e)
  | [.string "post_increment", e] => (read e).map Build.postIncrement
  | [.string "ternary", c, a, b] => do return Build.ternary (← read c) (← read a) (← read b)
  | [.string "new", .string t, args] => do return Build.new t (← list? read args)
  | [.string "field", e, .string n] => do return Build.fieldOf (← read e) n
  | [.string "call", e, .string n, args] => do
    return Build.call (← read e) n (← list? read args)
  | [.string "call_at", e, .string n, args, l, c] => do
    return Build.callAt (← read e) n (← list? read args) (← l.uint32?) (← c.uint32?)
  | [.string "println", e] => (read e).map Build.println
  | [.string "cast", .string t, e] => (read e).map (Build.cast t)
  | [.string "instance_of", e, .string t] => do return Build.instanceOf (← read e) t
  | [.string "group", e] => (read e).map Build.group
  | _ => none

def exprWithin? : Nat → Json → Option Expr
  | 0, _ => none
  | fuel + 1, j => j.items?.bind (exprOf? (exprWithin? fuel))

/-- The expression that a terse value stands for. -/
def expr? (j : Json) : Option Expr := exprWithin? j.depth j

/-- An expression or `null`. -/
def maybeExpr? : Json → Option (Option Expr)
  | .null => some none
  | j => (expr? j).map some

/-- A statement of a given head and arguments; `read` reads the statements inside it. -/
def stmtOf? (read : Json → Option Stmt) : List Json → Option Stmt
  | [.string "local", .string t, .string n, e] => (maybeExpr? e).map (Build.localVariable t n)
  | [.string "assign", .string n, e] => (expr? e).map (Build.assign n)
  | [.string "compound_assign", .string n, op, e] => do
    return Build.compoundAssign n (← AssignOp.decode? op) (← expr? e)
  | [.string "field_assign", r, .string n, e] => do
    return Build.fieldAssign (← expr? r) n (← expr? e)
  | [.string "expr", e] => (expr? e).map Build.expr
  | [.string "ret", e] => (maybeExpr? e).map Build.returns
  | [.string "if", c, a, .null] => do
    return Build.ifElse (← expr? c) (← list? read a) none
  | [.string "if", c, a, b] => do
    return Build.ifElse (← expr? c) (← list? read a) (some (← list? read b))
  | [.string "while", c, b] => do return Build.whileLoop (← expr? c) (← list? read b)
  | [.string "for", i, c, u, b] => do
    return Build.forLoop (← read i) (← expr? c) (← read u) (← list? read b)
  | [.string "block", b] => (list? read b).map Build.block
  | [.string "at", s, l, c] => do return Build.at (← read s) (← l.uint32?) (← c.uint32?)
  | _ => none

def stmtWithin? : Nat → Json → Option Stmt
  | 0, _ => none
  | fuel + 1, j => j.items?.bind (stmtOf? (stmtWithin? fuel))

/-- The statement that a terse value stands for. -/
def stmt? (j : Json) : Option Stmt := stmtWithin? j.depth j

/-! ## Declarations -/

def params? (j : Json) : Option (List Parameter) := do
  return (← Json.textPairs? (j.itemsOf "params")).map fun (t, n) => Build.param t n

def body? (j : Json) : Option (List Stmt) := (j.itemsOf "body").mapM stmt?

def generics? (j : Json) : Option (List Identifier) := do
  return (← (j.itemsOf "generics").mapM str?).map Build.ident

/-- A text that may be left out. -/
def text? (j : Json) (name : String) : Option String := (j.present? name).bind str?

/-- A place: line and column. -/
def place? (j : Json) : Option (Option Span) :=
  match j.present? "at" with
  | none => some none
  | some (.array [l, c]) => do return some ⟨← l.uint32?, ← c.uint32?⟩
  | some _ => none

def constructor? (j : Json) : Option ConstructorDecl := do
  let c := Build.constructor (← params? j) (← body? j)
  match j.present? "super" with
  | none => return c
  | some args => return { c with superArguments := some (← list? expr? args) }

/-- A method of a kind: `main`, `static`, or one of instances. -/
def methodOf? (j : Json) (body : List Stmt) : Option MethodDecl :=
  match text? j "kind" with
  | some "main" => some (Build.mainMethod body)
  | some "static" => do
    return Build.staticMethod (← text? j "name") (text? j "returns") (← params? j) body
  | _ => do return Build.method (← text? j "name") (text? j "returns") (← params? j) body

def method? (j : Json) : Option MethodDecl := do
  let m ← methodOf? j (← body? j)
  let m := { m with generics := m.generics ++ (← generics? j) }
  match ← place? j with
  | none => return m
  | some s => return Build.methodAt m s.line s.column

def class? (j : Json) : Option ClassDecl := do
  let name ← text? j "name"
  let generics ← generics? j
  let fields ← Json.textPairs? (j.itemsOf "fields")
  let constructors ← (j.itemsOf "constructors").mapM constructor?
  let methods ← (j.itemsOf "methods").mapM method?
  let c : ClassDecl :=
    { name := Build.ident name, generics, base := (text? j "extends").map Build.ty,
      fields := fields.map fun (t, n) => Build.field t n, constructors, methods }
  match ← place? j with
  | none => return c
  | some s => return Build.classAt c s.line s.column

/-- A program: its classes, and its imports as dotted paths. -/
def program? (j : Json) : Option Program := do
  let classes ← (j.itemsOf "classes").mapM class?
  let imports ← (j.itemsOf "imports").mapM str?
  return Build.program classes (imports.map Build.importPath)

end Terse

end Middleweight
