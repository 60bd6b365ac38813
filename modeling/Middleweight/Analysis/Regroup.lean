import Middleweight.Syntax.Basic

/-!
# Regrouping operators

A parser may nest a chain of binary operators in any shape. Regrouping flattens each chain and builds
it again by precedence, equal precedences to the left. A parenthesized expression is one operand of
the chain around it.

`Expr.chain` flattens an expression and regroups its operands on the way, so that it recurses on the
expression; `Chain.rebuild` reads the chain from left to right, with the operators that still wait for
their right operand on a stack.
-/

namespace Middleweight

/-- An operator of a chain, where it stands, and the operand on its right. -/
structure Link where
  op : BinaryOp
  span : Span
  operand : Expr
deriving Inhabited

/-- Operands with operators between them. -/
structure Chain where
  first : Expr
  links : List Link
deriving Inhabited

/-- An operator that waits for its right operand, with the left one. -/
structure Pending where
  lhs : Expr
  op : BinaryOp
  span : Span
deriving Inhabited

namespace Chain

def single (e : Expr) : Chain := ⟨e, []⟩

/-- Two chains with an operator between them. -/
def join (l : Chain) (op : BinaryOp) (span : Span) (r : Chain) : Chain :=
  ⟨l.first, l.links ++ ⟨op, span, r.first⟩ :: r.links⟩

/-- Completes the waiting operators that bind at least as tight as a given precedence. -/
def reduce (precedence : Nat) : List Pending → Expr → List Pending × Expr
  | [], top => ([], top)
  | p :: rest, top =>
    if precedence ≤ p.op.precedence then reduce precedence rest (.binary p.lhs p.op top p.span)
    else (p :: rest, top)

/-- Completes all waiting operators. -/
def finish : List Pending → Expr → Expr
  | [], top => top
  | p :: rest, top => finish rest (.binary p.lhs p.op top p.span)

/-- Reads the links from left to right. -/
def shift : List Pending → Expr → List Link → Expr
  | pending, top, [] => finish pending top
  | pending, top, l :: rest =>
    let (pending, lhs) := reduce l.op.precedence pending top
    shift (⟨lhs, l.op, l.span⟩ :: pending) l.operand rest

/-- Builds a chain by precedence. -/
def rebuild (c : Chain) : Expr := shift [] c.first c.links

@[simp] theorem rebuild_single (e : Expr) : (single e).rebuild = e := rfl

end Chain

namespace Expr

mutual

/-- The chain of an expression, its operands regrouped. -/
def chain : Expr → Chain
  | binary lhs op rhs span => (chain lhs).join op span (chain rhs)
  | literal value span => .single (literal value span)
  | var name => .single (var name)
  | unary op operand span => .single (unary op (chain operand).rebuild span)
  | step op before target span => .single (step op before (chain target).rebuild span)
  | ternary condition thenValue elseValue span =>
    .single (ternary (chain condition).rebuild (chain thenValue).rebuild (chain elseValue).rebuild
      span)
  | new ty arguments span => .single (new ty (regroupAll arguments) span)
  | field receiver name span => .single (field (chain receiver).rebuild name span)
  | call receiver method arguments span =>
    .single (call (chain receiver).rebuild method (regroupAll arguments) span)
  | cast ty expression span => .single (cast ty (chain expression).rebuild span)
  | instanceOf expression ty span => .single (instanceOf (chain expression).rebuild ty span)
  | group expression span => .single (group (chain expression).rebuild span)

/-- Expressions with all chains in them regrouped. -/
def regroupAll : List Expr → List Expr
  | [] => []
  | e :: rest => (chain e).rebuild :: regroupAll rest

end

/-- An expression with all chains in it regrouped. -/
def regroup (e : Expr) : Expr := e.chain.rebuild

theorem regroupAll_eq_map (es : List Expr) : regroupAll es = es.map regroup := by
  induction es with
  | nil => simp [regroupAll]
  | cons e rest ih => simp [regroupAll, ih, regroup]

end Expr

namespace Stmt

mutual

/-- A statement with all chains in it regrouped. -/
def regroup : Stmt → Stmt
  | localVariable ty name value span => localVariable ty name (value.map Expr.regroup) span
  | assign target op value span => assign target op value.regroup span
  | fieldAssign receiver field op value span =>
    fieldAssign receiver.regroup field op value.regroup span
  | expression e span => expression e.regroup span
  | ifElse condition thenBranch none span =>
    ifElse condition.regroup (regroupAll thenBranch) none span
  | ifElse condition thenBranch (some elseBranch) span =>
    ifElse condition.regroup (regroupAll thenBranch) (some (regroupAll elseBranch)) span
  | whileLoop condition body span => whileLoop condition.regroup (regroupAll body) span
  | forLoop init condition update body span =>
    forLoop init.regroup condition.regroup update.regroup (regroupAll body) span
  | returns value span => returns (value.map Expr.regroup) span
  | block statements span => block (regroupAll statements) span

def regroupAll : List Stmt → List Stmt
  | [] => []
  | s :: rest => s.regroup :: regroupAll rest

end

end Stmt

def ConstructorDecl.regroup (c : ConstructorDecl) : ConstructorDecl :=
  { c with superArguments := c.superArguments.map (List.map Expr.regroup),
           body := Stmt.regroupAll c.body }

def MethodDecl.regroup (m : MethodDecl) : MethodDecl :=
  { m with body := Stmt.regroupAll m.body }

def ClassDecl.regroup (c : ClassDecl) : ClassDecl :=
  { c with constructors := c.constructors.map ConstructorDecl.regroup,
           methods := c.methods.map MethodDecl.regroup }

/-- A program with all chains in it regrouped. -/
def Program.regroup (p : Program) : Program :=
  { p with classes := p.classes.map ClassDecl.regroup }

end Middleweight
