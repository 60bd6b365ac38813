import Mathlib.Logic.Relation
import Middleweight.Proofs.World.History

/-!
# Moments of a run

A run consists of activities inside one another: an operation of a host calls a method, whose body
executes statements, which evaluate expressions, which call methods again. `Leads` says which
activity an activity starts, and in which machine it finds itself then. Every change of the machine
happens between the start and the end of some activities, so that the machines in which activities
start and those that they leave are all the states of a run.

* `Activity`, `Activity.perform` : what a machine can be busy with, and carrying it out
* `Leads` : an activity starts another one
* `Reaches` : the moments that a moment leads to
-/

namespace Middleweight

variable {F : Type}

/-! ## Activities -/

/-- What a machine can be busy with. -/
inductive Activity (F : Type) where
  | operation (op : HostOperation F)
  /-- Choosing a method and running it. -/
  | call (c : RuntimeClass F) (this : Value F) (name : String) (isStatic : Bool)
      (args : List (Variable F)) (argTypes : List Ty) (span : Span)
  /-- Running a chosen method. -/
  | method (s : Selected F (RuntimeClass F)) (this : Value F) (args : List (Variable F))
      (span : Span)
  /-- Making an object. -/
  | construction (c : RuntimeClass F) (args : List (Variable F)) (argTypes : List Ty) (span : Span)
  /-- Choosing a constructor of a chain of classes and running it. -/
  | constructors (o : ObjectRef F) (isStaticView : Bool) (layers : List (Layer F))
      (args : List (Variable F)) (argTypes : List Ty) (span : Span)
  /-- Running a chosen constructor, those of the classes behind it included. -/
  | constructor (s : Selected F (RuntimeClass F)) (o : ObjectRef F) (isStaticView : Bool)
      (rest : List (Layer F)) (args : List (Variable F)) (span : Span)
  | parameters (bindings : Bindings) (params : List Param) (args : List (Variable F)) (span : Span)
  | host (program : HostProgram F (Value F)) (span : Span)
  | staticField (c : RuntimeClass F) (name : String) (span : Span)
  | expression (e : Expr)
  | expressions (es : List Expr)
  | statement (s : Stmt)
  | statements (ss : List Stmt)
  /-- The rounds of a loop, with the statement that follows each round if there is one. -/
  | rounds (test : Expr) (body : List Stmt) (update : Option Stmt) (n : Nat)

/-- What a flow returns. -/
def Flow.variables : Flow F → List (Variable F)
  | .normal => []
  | .returned v => v.toList

namespace Engine

variable [HostFunctions F] (eng : Engine F) (calls : Calls F)

/-- The constructors of the classes behind one, if there are any. -/
def constructBase (o : ObjectRef F) (isStaticView : Bool) (rest : List (Layer F)) :
    Option (List (Variable F) → List Ty → Span → EvalM F Unit) :=
  if rest.isEmpty then none else some (eng.runConstructors calls o isStaticView rest)

/-- Executes what follows a round of a loop. -/
def execUpdate : Option Stmt → EvalM F Unit
  | none => pure ()
  | some s => do let _ ← eng.exec calls s

/-- The rounds of a loop. -/
def loop (test : Expr) (body : List Stmt) (update : Option Stmt) (n : Nat) : EvalM F (Flow F) :=
  rounds (eng.condition calls test) (EvalM.nested (eng.execBlock calls body))
    (eng.execUpdate calls update) n

/-- The machine at the start of the body of a chosen method, its frame being open. -/
def enterMethod (s : Selected F (RuntimeClass F)) (this : Value F) (span : Span) (m : Machine F) :
    Machine F :=
  { eng.pushFrame ⟨s.signature.methodFrame s.owner, eng.location span⟩ m with
    scope := Scope.invocation (bodyContext s.owner this)
      (s.signature.boundGenerics (s.bindings.complete s.signature)) }

/-- The machine at the start of the body of a chosen constructor, its frame being open. -/
def enterConstructor (s : Selected F (RuntimeClass F)) (o : ObjectRef F) (span : Span)
    (m : Machine F) : Machine F :=
  { eng.pushFrame ⟨s.signature.constructorFrame s.owner, eng.location span⟩ m with
    scope := Scope.invocation (.instance o s.owner) [] }

end Engine

namespace Activity

/--
Carries an activity out at a depth of calls; the variables that it results in, if there are any.
-/
def perform [HostFunctions F] (eng : Engine F) (n : Nat) : Activity F → EvalM F (List (Variable F))
  | operation op => do
    let _ ← op.perform eng
    return []
  | call c this name isStatic args argTypes span => do
    return (← (Calls.atDepth eng n).dispatch c this name isStatic args argTypes span).toList
  | method s this args span => do
    return (← eng.invoke (Calls.atDepth eng n) s this args span).toList
  | construction c args argTypes span => do
    let o ← (Calls.atDepth eng n).construct c args argTypes span
    return [⟨o.cls, .object o⟩]
  | constructors o isStaticView layers args argTypes span => do
    eng.runConstructors (Calls.atDepth eng n) o isStaticView layers args argTypes span
    return []
  | constructor s o isStaticView rest args span => do
    eng.runConstructor (Calls.atDepth eng n) s o args span
      (eng.constructBase (Calls.atDepth eng n) o isStaticView rest)
    return []
  | parameters bindings params args span => do
    eng.bindParameters bindings span params args
    return []
  | host program span => do
    let _ ← eng.runHost (Calls.atDepth eng n) span program
    return []
  | staticField c name span => do return [← eng.staticField (Calls.atDepth eng n) c name span]
  | expression e => do return [← eng.eval (Calls.atDepth eng n) e]
  | expressions es => eng.evalAll (Calls.atDepth eng n) es
  | statement s => do return (← eng.exec (Calls.atDepth eng n) s).variables
  | statements ss => do return (← eng.execBlock (Calls.atDepth eng n) ss).variables
  | rounds test body update k => do
    return (← eng.loop (Calls.atDepth eng n) test body update k).variables

/-- The variables that are passed to an activity. -/
def passed : Activity F → List (Variable F)
  | call _ _ _ _ args _ _ | method _ _ args _ | construction _ args _ _
  | constructors _ _ _ args _ _ | constructor _ _ _ _ args _ | parameters _ _ args _ => args
  | _ => []

/-- The objects that an activity is about. -/
def objects : Activity F → List (ObjectRef F)
  | call _ this _ _ _ _ _ | method _ this _ _ => this.objects
  | constructors o _ _ _ _ _ | constructor _ o _ _ _ _ => [o]
  | _ => []

/-- The signature of the member that an activity runs, and what its parameters are bound to. -/
def invoked? : Activity F → Option (Signature × Bindings)
  | method s _ _ _ => some (s.signature, s.bindings.complete s.signature)
  | constructor s _ _ _ _ _ => some (s.signature, Bindings.complete [] s.signature)
  | _ => none

end Activity

/-! ## Moments -/

/-- The start of an activity: how deep calls may still be nested, what starts, and the machine. -/
structure Moment (F : Type) where
  depth : Nat
  activity : Activity F
  machine : Machine F

/-- The machine at a new level of variables. -/
def Machine.inner (m : Machine F) : Machine F := { m with scope := m.scope.push }

/-- The part of an expression that is evaluated before anything else. -/
def Expr.first? : Expr → Option Expr
  | .binary lhs _ _ _ => some lhs
  | .unary _ operand _ => some operand
  | .step _ _ (.field receiver _ _) _ => some receiver
  | .ternary condition _ _ _ => some condition
  | .field receiver _ _ => some receiver
  | .call receiver _ _ _ => some receiver
  | .group expression _ => some expression
  | _ => none

/-- The expression in a statement that is evaluated before anything else. -/
def Stmt.first? : Stmt → Option Expr
  | .assign _ _ e _ => some e
  | .fieldAssign receiver _ _ _ _ => some receiver
  | .expression e _ => some e
  | .ifElse test _ _ _ => some test
  | .returns value _ => value
  | _ => none

variable [HostFunctions F]

/-- An activity starts another one, when the activities that it started before have ended well. -/
inductive Leads (eng : Engine F) : Moment F → Moment F → Prop
  -- Operations of a host
  | run : eng.entry = some entry →
      Leads eng ⟨n, .operation .run, m⟩
        ⟨n, .operation (.callStatic entry "main" [] {}),
          eng.pushFrame ⟨"Global", eng.location {}⟩ m⟩
  | callStatic : eng.table.imports.resolve? className = some full →
      eng.staticView full span m = .ok view m₁ →
      Leads eng ⟨n, .operation (.callStatic className method args span), m⟩
        ⟨eng.budget, .call view .null method true args (declaredTypes args) span, m₁⟩
  | construct :
      Leads eng ⟨n, .operation (.construct c args span), m⟩
        ⟨eng.budget, .construction c args (declaredTypes args) span, m⟩
  -- Methods
  | call : eng.table.runtimeMembers.resolveMethod eng.table c name isStatic argTypes =
        .ok (.found s) →
      Leads eng ⟨n + 1, .call c this name isStatic args argTypes span, m⟩
        ⟨n, .method s this args span, m⟩
  | methodNative : s.member.body = .native f →
      Leads eng ⟨n, .method s this args span, m⟩
        ⟨n, .host (HostFunctions.perform f ⟨s.owner, this, args, span⟩) span,
          eng.pushFrame ⟨s.signature.methodFrame s.owner, eng.location span⟩ m⟩
  | methodParameters : s.member.body = .declared body superArguments →
      Leads eng ⟨n, .method s this args span, m⟩
        ⟨n, .parameters (s.bindings.complete s.signature) s.signature.params args span,
          eng.enterMethod s this span m⟩
  | methodBody : s.member.body = .declared body superArguments →
      eng.bindParameters (s.bindings.complete s.signature) span s.signature.params args
        (eng.enterMethod s this span m) = .ok () m₁ →
      Leads eng ⟨n, .method s this args span, m⟩ ⟨n, .statements body, m₁⟩
  | nextParameter : eng.classOf (q.ty.substitute bindings) span m = .ok c m₁ →
      Leads eng ⟨n, .parameters bindings (q :: ps) (v :: vs) span, m⟩
        ⟨n, .parameters bindings ps vs span,
          { m₁ with scope := m₁.scope.define q.name ⟨c, v.value⟩ }⟩
  -- Constructors
  | construction : eng.allocate c span m = .ok o m₁ →
      Leads eng ⟨n + 1, .construction c args argTypes span, m⟩
        ⟨n, .constructors o c.isStaticView c.layers args argTypes span, m₁⟩
  | constructor : eng.table.runtimeMembers.resolveConstructor eng.table
        ⟨isStaticView, layer, rest⟩ argTypes = .ok (.found s) →
      Leads eng ⟨n, .constructors o isStaticView (layer :: rest) args argTypes span, m⟩
        ⟨n, .constructor s o isStaticView rest args span, m⟩
  | defaultConstructor : eng.table.runtimeMembers.resolveConstructor eng.table
        ⟨isStaticView, layer, rest⟩ argTypes = .ok .defaultConstructor →
      Leads eng ⟨n, .constructors o isStaticView (layer :: rest) args argTypes span, m⟩
        ⟨n, .constructors o isStaticView rest [] [] span, m⟩
  | constructorNative : s.member.body = .native f →
      Leads eng ⟨n, .constructor s o isStaticView rest args span, m⟩
        ⟨n, .host (HostFunctions.perform f ⟨s.owner, .object o, args, span⟩) span,
          eng.pushFrame ⟨s.signature.constructorFrame s.owner, eng.location span⟩ m⟩
  | constructorParameters : s.member.body = .declared body superArguments →
      Leads eng ⟨n, .constructor s o isStaticView rest args span, m⟩
        ⟨n, .parameters (Bindings.complete [] s.signature) s.signature.params args span,
          eng.enterConstructor s o span m⟩
  | superArguments : s.member.body = .declared body superArguments → rest ≠ [] →
      eng.bindParameters (Bindings.complete [] s.signature) span s.signature.params args
        (eng.enterConstructor s o span m) = .ok () m₁ →
      Leads eng ⟨n, .constructor s o isStaticView rest args span, m⟩
        ⟨n, .expressions (superArguments.getD []), m₁⟩
  | baseConstructors : s.member.body = .declared body superArguments → rest ≠ [] →
      eng.bindParameters (Bindings.complete [] s.signature) span s.signature.params args
        (eng.enterConstructor s o span m) = .ok () m₁ →
      eng.evalAll (.atDepth eng n) (superArguments.getD []) m₁ = .ok superArgs m₂ →
      Leads eng ⟨n, .constructor s o isStaticView rest args span, m⟩
        ⟨n, .constructors o isStaticView rest superArgs
          (argumentTypes (superArguments.getD []) superArgs) s.member.span, m₂⟩
  | derivedBody : s.member.body = .declared body superArguments → rest ≠ [] →
      eng.bindParameters (Bindings.complete [] s.signature) span s.signature.params args
        (eng.enterConstructor s o span m) = .ok () m₁ →
      eng.evalAll (.atDepth eng n) (superArguments.getD []) m₁ = .ok superArgs m₂ →
      eng.runConstructors (.atDepth eng n) o isStaticView rest superArgs
        (argumentTypes (superArguments.getD []) superArgs) s.member.span m₂ = .ok () m₃ →
      Leads eng ⟨n, .constructor s o isStaticView rest args span, m⟩ ⟨n, .statements body, m₃⟩
  | rootBody : s.member.body = .declared body superArguments →
      eng.bindParameters (Bindings.complete [] s.signature) span s.signature.params args
        (eng.enterConstructor s o span m) = .ok () m₁ →
      Leads eng ⟨n, .constructor s o isStaticView [] args span, m⟩ ⟨n, .statements body, m₁⟩
  -- Native functions
  | hostWrite : eng.write text m = .ok none m₁ →
      Leads eng ⟨n, .host (.write text program) span, m⟩ ⟨n, .host program span, m₁⟩
  | hostClass : eng.classOf ty span m = .ok c m₁ →
      Leads eng ⟨n, .host (.classOf ty next) span, m⟩ ⟨n, .host (next c) span, m₁⟩
  | hostAllocate : eng.allocate c span m = .ok o m₁ →
      Leads eng ⟨n, .host (.allocate c next) span, m⟩ ⟨n, .host (next o) span, m₁⟩
  | hostConstruct :
      Leads eng ⟨n, .host (.construct c args next) span, m⟩
        ⟨n, .construction c args (declaredTypes args) span, m⟩
  | hostConstructed :
      (Calls.atDepth eng n).construct c args (declaredTypes args) span m = .ok o m₁ →
      Leads eng ⟨n, .host (.construct c args next) span, m⟩ ⟨n, .host (next o) span, m₁⟩
  | hostRead :
      Leads eng ⟨n, .host (.getState o next) span, m⟩
        ⟨n, .host (next (m.heap[o.id]?.bind Instance.host)) span, m⟩
  | hostKeep :
      Leads eng ⟨n, .host (.setState o state program) span, m⟩
        ⟨n, .host program span,
          { m with heap := m.heap.modify o.id fun i => { i with host := some state } }⟩
  | hostDepth :
      Leads eng ⟨n, .host (.depth next) span, m⟩ ⟨n, .host (next m.stack.length) span, m⟩
  | staticField : Engine.staticFieldOwner? c name c.layers = some (owner, field) →
      m.statics.lookup (owner.name, field.name) = none →
      eng.table.lower [] field.ty = .ok ty → eng.classOf ty span m = .ok cls m₁ →
      Leads eng ⟨n, .staticField c name span, m⟩
        ⟨n, .host (HostFunctions.perform field.init ⟨owner, .null, [], span⟩) span, m₁⟩
  -- Expressions
  | first : e.first? = some e' → Leads eng ⟨n, .expression e, m⟩ ⟨n, .expression e', m⟩
  | right : eng.eval (.atDepth eng n) lhs m = .ok v m₁ →
      Leads eng ⟨n, .expression (.binary lhs op rhs span), m⟩ ⟨n, .expression rhs, m₁⟩
  | steppedStatic : eng.eval (.atDepth eng n) receiver m = .ok ⟨k, .cls c⟩ m₁ →
      Leads eng ⟨n, .expression (.step op before (.field receiver field span') span), m⟩
        ⟨n, .staticField c field.name span, m₁⟩
  | thenValue : eng.eval (.atDepth eng n) condition m = .ok ⟨k, .bool true⟩ m₁ →
      Leads eng ⟨n, .expression (.ternary condition a b span), m⟩ ⟨n, .expression a, m₁⟩
  | elseValue : eng.eval (.atDepth eng n) condition m = .ok ⟨k, .bool false⟩ m₁ →
      Leads eng ⟨n, .expression (.ternary condition a b span), m⟩ ⟨n, .expression b, m₁⟩
  | newArguments : eng.resolveType ty m = .ok c m₁ →
      Leads eng ⟨n, .expression (.new ty es span), m⟩ ⟨n, .expressions es, m₁⟩
  | newObject : eng.resolveType ty m = .ok c m₁ →
      eng.evalAll (.atDepth eng n) es m₁ = .ok args m₂ →
      Leads eng ⟨n, .expression (.new ty es span), m⟩
        ⟨n, .construction c args (argumentTypes es args) span, m₂⟩
  | fieldStatic : eng.eval (.atDepth eng n) receiver m = .ok ⟨k, .cls c⟩ m₁ →
      Leads eng ⟨n, .expression (.field receiver field span), m⟩
        ⟨n, .staticField c field.name span, m₁⟩
  | callArguments : eng.eval (.atDepth eng n) receiver m = .ok r m₁ →
      Leads eng ⟨n, .expression (.call receiver method es span), m⟩ ⟨n, .expressions es, m₁⟩
  | callMethod : eng.eval (.atDepth eng n) receiver m = .ok r m₁ →
      eng.evalAll (.atDepth eng n) es m₁ = .ok args m₂ →
      eng.callTarget r method.name span m₂ = .ok (c, isStatic) m₃ →
      Leads eng ⟨n, .expression (.call receiver method es span), m⟩
        ⟨n, .call c (if isStatic then .null else r.value) method.name isStatic args
          (argumentTypes es args) span, m₃⟩
  | castValue : eng.resolveType ty m = .ok c m₁ →
      Leads eng ⟨n, .expression (.cast ty e span), m⟩ ⟨n, .expression e, m₁⟩
  | instanceValue : eng.resolveType ty m = .ok c m₁ →
      Leads eng ⟨n, .expression (.instanceOf e ty span), m⟩ ⟨n, .expression e, m₁⟩
  | headExpression : Leads eng ⟨n, .expressions (e :: es), m⟩ ⟨n, .expression e, m⟩
  | tailExpressions : eng.eval (.atDepth eng n) e m = .ok v m₁ →
      Leads eng ⟨n, .expressions (e :: es), m⟩ ⟨n, .expressions es, m₁⟩
  -- Statements, once the observer has been told
  | firstValue : s.first? = some e → eng.tellStatement s.span m = .ok () m₁ →
      Leads eng ⟨n, .statement s, m⟩ ⟨n, .expression e, m₁⟩
  | initialValue : eng.tellStatement span m = .ok () m₁ → eng.resolveType ty m₁ = .ok c m₂ →
      Leads eng ⟨n, .statement (.localVariable ty name (some e) span), m⟩ ⟨n, .expression e, m₂⟩
  | fieldAssignValue : eng.tellStatement span m = .ok () m₁ →
      eng.eval (.atDepth eng n) receiver m₁ = .ok r m₂ →
      Leads eng ⟨n, .statement (.fieldAssign receiver field op e span), m⟩ ⟨n, .expression e, m₂⟩
  | thenBranch : eng.tellStatement span m = .ok () m₁ →
      eng.condition (.atDepth eng n) test m₁ = .ok true m₂ →
      Leads eng ⟨n, .statement (.ifElse test body other span), m⟩ ⟨n, .statements body, m₂.inner⟩
  | elseBranch : eng.tellStatement span m = .ok () m₁ →
      eng.condition (.atDepth eng n) test m₁ = .ok false m₂ →
      Leads eng ⟨n, .statement (.ifElse test body (some other) span), m⟩
        ⟨n, .statements other, m₂.inner⟩
  | whileRounds : eng.tellStatement span m = .ok () m₁ →
      Leads eng ⟨n, .statement (.whileLoop test body span), m⟩
        ⟨n, .rounds test body none (Calls.atDepth eng n).rounds, m₁⟩
  | forInit : eng.tellStatement span m = .ok () m₁ →
      Leads eng ⟨n, .statement (.forLoop init test update body span), m⟩
        ⟨n, .statement init, m₁.inner⟩
  | forRounds : eng.tellStatement span m = .ok () m₁ →
      eng.exec (.atDepth eng n) init m₁.inner = .ok flow m₂ →
      Leads eng ⟨n, .statement (.forLoop init test update body span), m⟩
        ⟨n, .rounds test body (some update) (Calls.atDepth eng n).rounds, m₂⟩
  | block : eng.tellStatement span m = .ok () m₁ →
      Leads eng ⟨n, .statement (.block body span), m⟩ ⟨n, .statements body, m₁.inner⟩
  | headStatement : Leads eng ⟨n, .statements (s :: ss), m⟩ ⟨n, .statement s, m⟩
  | tailStatements : eng.exec (.atDepth eng n) s m = .ok .normal m₁ →
      Leads eng ⟨n, .statements (s :: ss), m⟩ ⟨n, .statements ss, m₁⟩
  -- Loops
  | test : Leads eng ⟨n, .rounds test body update (k + 1), m⟩ ⟨n, .expression test, m⟩
  | round : eng.condition (.atDepth eng n) test m = .ok true m₁ →
      Leads eng ⟨n, .rounds test body update (k + 1), m⟩ ⟨n, .statements body, m₁.inner⟩
  | update : eng.condition (.atDepth eng n) test m = .ok true m₁ →
      EvalM.nested (eng.execBlock (.atDepth eng n) body) m₁ = .ok .normal m₂ →
      Leads eng ⟨n, .rounds test body (some u) (k + 1), m⟩ ⟨n, .statement u, m₂⟩
  | again : eng.condition (.atDepth eng n) test m = .ok true m₁ →
      EvalM.nested (eng.execBlock (.atDepth eng n) body) m₁ = .ok .normal m₂ →
      eng.execUpdate (.atDepth eng n) update m₂ = .ok () m₃ →
      Leads eng ⟨n, .rounds test body update (k + 1), m⟩ ⟨n, .rounds test body update k, m₃⟩

/-- A moment leads to another one, directly or through others. -/
def Reaches (eng : Engine F) : Moment F → Moment F → Prop := Relation.ReflTransGen (Leads eng)

end Middleweight
