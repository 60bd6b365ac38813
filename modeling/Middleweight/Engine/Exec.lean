import Middleweight.Engine.Eval

/-!
# Execution of statements

`Engine.exec` recurses on the statement. A loop is `rounds`, which repeats a test and a body as often
as its budget allows. Branches, bodies of loops and blocks have a level of variables of their own; the
header of a `for` loop has one around the levels of its rounds.
-/

namespace Middleweight

/-- How a statement ended: it went on to the next one, or it returned. -/
inductive Flow (F : Type) where
  | normal
  | returned (v : Option (Variable F))

variable {F : Type} [HostFunctions F]

namespace Engine

/--
Repeats a body while a test holds, with an update after each round; a round that returns ends the
loop. The number bounds the rounds.
-/
def rounds (test : EvalM F Bool) (body : EvalM F (Flow F)) (update : EvalM F Unit) :
    Nat → EvalM F (Flow F)
  | 0 => EvalM.exhausted
  | n + 1 => do
    if ← test then
      match ← body with
      | .returned v => return .returned v
      | .normal => do
        update
        rounds test body update n
    else return .normal

variable (eng : Engine F) (calls : Calls F)

/-- Evaluates a condition, which has to be a truth value. -/
def condition (e : Expr) : EvalM F Bool := do
  match (← eng.eval calls e).value with
  | .bool b => return b
  | other => eng.invalid (.condition other) e.span

/-- The value of a declaration: the given one, or the default of its class. -/
def initialValue (c : RuntimeClass F) : Option Expr → EvalM F (Value F)
  | some e => do return (← eng.eval calls e).value
  | none => return Value.defaultFor c

/-- Assigns to a bare name. -/
def assignName (target : Identifier) (op : AssignOp) (e : Expr) (span : Span) : EvalM F Unit := do
  let v ← eng.eval calls e
  let value ← eng.combine op (do return (← eng.lookup target).value) v.value span
  eng.store target value

/-- Assigns to a field. -/
def assignField (receiver : Expr) (field : Identifier) (op : AssignOp) (e : Expr) (span : Span) :
    EvalM F Unit := do
  let r ← eng.eval calls receiver
  let v ← eng.eval calls e
  eng.storeField r.value field op v.value span

/-- The value that a `return` carries. -/
def returnValue : Option Expr → EvalM F (Option (Variable F))
  | some e => do return some (← eng.eval calls e)
  | none => return none

mutual

/-- Executes a statement. -/
def exec (s : Stmt) : EvalM F (Flow F) := do
  eng.tellStatement s.span
  match s with
  | .localVariable ty name value _ => do
    let c ← eng.resolveType ty
    let value ← eng.initialValue calls c value
    EvalM.modifyScope fun scope => scope.define name.name ⟨c, value⟩
    return .normal
  | .assign target op e span => do
    eng.assignName calls target op e span
    return .normal
  | .fieldAssign receiver field op e span => do
    eng.assignField calls receiver field op e span
    return .normal
  | .expression e _ => do
    let _ ← eng.eval calls e
    return .normal
  | .ifElse test thenBranch none _ => do
    if ← eng.condition calls test then EvalM.nested (execBlock thenBranch)
    else return .normal
  | .ifElse test thenBranch (some elseBranch) _ => do
    if ← eng.condition calls test then EvalM.nested (execBlock thenBranch)
    else EvalM.nested (execBlock elseBranch)
  | .whileLoop test body _ =>
    rounds (eng.condition calls test) (EvalM.nested (execBlock body)) (pure ()) calls.rounds
  | .forLoop init test update body _ =>
    EvalM.nested do
      let _ ← exec init
      rounds (eng.condition calls test) (EvalM.nested (execBlock body))
        (do let _ ← exec update) calls.rounds
  | .returns value _ => do return .returned (← eng.returnValue calls value)
  | .block body _ => EvalM.nested (execBlock body)

/-- Executes statements up to the first that returns. -/
def execBlock (ss : List Stmt) : EvalM F (Flow F) :=
  match ss with
  | [] => return .normal
  | s :: rest => do
    match ← exec s with
    | .returned v => return .returned v
    | .normal => execBlock rest

end

end Engine

end Middleweight
