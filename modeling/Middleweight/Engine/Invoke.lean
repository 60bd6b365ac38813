import Middleweight.Engine.Exec

/-!
# Invocation of members

A call resolves a method over the runtime classes and runs its body in a frame and a scope of its
own. A construction allocates an object and runs one constructor per class, the base first; a class
without constructors leaves it to its base.

`Calls.atDepth` ties the knot: at depth `n + 1` a body runs with the calls of depth `n`, so the depth
bounds nested calls, and the loops of a body as well.
-/

namespace Middleweight

variable {F : Type}

/-- Parameters that the arguments leave open are bound to the root class. -/
def Bindings.complete (b : Bindings) (s : Signature) : Bindings :=
  b ++ (s.generics.filter fun g => (b.lookup g).isNone).map fun g => (g, .object)

/-- The parameter types of a signature as text. -/
def Signature.paramText (s : Signature) : String :=
  String.intercalate ", " (s.params.map fun p => p.ty.text)

/-- The description of the frame of a method. -/
def Signature.methodFrame (s : Signature) (owner : RuntimeClass F) : String :=
  owner.text ++ "." ++ s.name ++ "(" ++ s.paramText ++ ")"

/-- The description of the frame of a constructor. -/
def Signature.constructorFrame (s : Signature) (owner : RuntimeClass F) : String :=
  "new " ++ owner.text ++ "(" ++ s.paramText ++ ")"

/-- The generic parameters of a method, bound for one invocation. -/
def Signature.boundGenerics (s : Signature) (b : Bindings) : TypeParams :=
  (s.generics.map fun g => (g, .bound g ((b.lookup g).getD .object).resolved)).reverse

namespace Engine

variable [HostFunctions F] (eng : Engine F) (calls : Calls F)

/-- Declares parameters with the values of arguments, in pairs. -/
def bindParameters (bindings : Bindings) (span : Span) :
    List Param → List (Variable F) → EvalM F Unit
  | p :: ps, v :: vs => do
    let c ← eng.classOf (p.ty.substitute bindings) span
    EvalM.modifyScope fun scope => scope.define p.name ⟨c, v.value⟩
    bindParameters bindings span ps vs
  | _, _ => return ()

/-- What the body of a method belongs to, by its receiver. -/
def bodyContext (owner : RuntimeClass F) : Value F → Context F
  | .object o => .instance o owner
  | _ => .static owner

/-- The value that the body of a method gives. -/
def methodValue (s : Selected F (RuntimeClass F)) (bindings : Bindings) (this : Value F)
    (args : List (Variable F)) (span : Span) : EvalM F (Option (Value F)) :=
  match s.member.body with
  | .native f => do return some (← eng.callHost calls f ⟨s.owner, this, args, span⟩)
  | .declared body _ =>
    EvalM.withScope
      (Scope.invocation (bodyContext s.owner this) (s.signature.boundGenerics bindings)) do
      eng.bindParameters bindings span s.signature.params args
      match ← eng.execBlock calls body with
      | .returned v => return v.map Variable.value
      | .normal => return none

/-- Runs a chosen method. -/
def invoke (s : Selected F (RuntimeClass F)) (this : Value F) (args : List (Variable F))
    (span : Span) : EvalM F (Option (Variable F)) :=
  let bindings := s.bindings.complete s.signature
  eng.withFrame ⟨s.signature.methodFrame s.owner, eng.location span⟩ do
    let result ← eng.methodValue calls s bindings this args span
    match s.signature.returnType, result with
    | some ty, some value => do
      let c ← eng.classOf (ty.substitute bindings) span
      return some ⟨c, value⟩
    | _, _ => return none

/-- Chooses a method and runs it. -/
def dispatch (c : RuntimeClass F) (this : Value F) (name : String) (isStatic : Bool)
    (args : List (Variable F)) (argTypes : List Ty) (span : Span) :
    EvalM F (Option (Variable F)) := do
  let resolution ← eng.types
    (eng.table.runtimeMembers.resolveMethod eng.table c name isStatic argTypes)
  match resolution with
  | .found s => eng.invoke calls s this args span
  | .ambiguous a => eng.raise (.ambiguousMember a) span
  | .missing m => eng.raise (.noSuchMember m) span
  | .defaultConstructor => return none

/--
Runs a chosen constructor on an object. The base class is constructed by `base` between the binding
of the parameters and the body; the root class has none.
-/
def runConstructor (s : Selected F (RuntimeClass F)) (o : ObjectRef F) (args : List (Variable F))
    (span : Span)
    (base : Option (List (Variable F) → List Ty → Span → EvalM F Unit)) : EvalM F Unit :=
  eng.withFrame ⟨s.signature.constructorFrame s.owner, eng.location span⟩ do
    match s.member.body with
    | .native f => do
      let _ ← eng.callHost calls f ⟨s.owner, .object o, args, span⟩
    | .declared body superArguments =>
      EvalM.withScope (Scope.invocation (.instance o s.owner) []) do
        let bindings := Bindings.complete [] s.signature
        eng.bindParameters bindings span s.signature.params args
        match base with
        | none => pure ()
        | some construct => do
          let arguments := superArguments.getD []
          let superArgs ← eng.evalAll calls arguments
          construct superArgs (argumentTypes arguments superArgs) s.member.span
        let _ ← eng.execBlock calls body

/-- Runs the constructors of a chain of classes on an object. -/
def runConstructors (o : ObjectRef F) (isStaticView : Bool) : List (Layer F) →
    List (Variable F) → List Ty → Span → EvalM F Unit
  | [], _, _, _ => return ()
  | layer :: rest, args, argTypes, span => do
    let c : RuntimeClass F := ⟨isStaticView, layer, rest⟩
    match ← eng.types (eng.table.runtimeMembers.resolveConstructor eng.table c argTypes) with
    | .found s =>
      let base := if rest.isEmpty then none else some (runConstructors o isStaticView rest)
      eng.runConstructor calls s o args span base
    | .defaultConstructor => runConstructors o isStaticView rest [] [] span
    | .ambiguous a => eng.raise (.ambiguousMember a) span
    | .missing m => eng.raise (.noSuchMember m) span

/-- Makes an object of a class. -/
def construct (c : RuntimeClass F) (args : List (Variable F)) (argTypes : List Ty) (span : Span) :
    EvalM F (ObjectRef F) := do
  let o ← eng.allocate c span
  eng.runConstructors calls o c.isStaticView c.layers args argTypes span
  return o

end Engine

/-- The calls that bodies may make when calls may still be nested to a given depth. -/
def Calls.atDepth [HostFunctions F] (eng : Engine F) : Nat → Calls F
  | 0 =>
    { rounds := 0
      dispatch := fun _ _ _ _ _ _ _ => EvalM.exhausted
      construct := fun _ _ _ _ => EvalM.exhausted }
  | n + 1 =>
    { rounds := n + 1
      dispatch := fun c this name isStatic args argTypes span =>
        eng.dispatch (Calls.atDepth eng n) c this name isStatic args argTypes span
      construct := fun c args argTypes span =>
        eng.construct (Calls.atDepth eng n) c args argTypes span }

end Middleweight
