import Middleweight.Engine.Host
import Middleweight.Engine.Machine
import Middleweight.Types.OperatorRule

/-!
# Evaluation of expressions

`Engine.eval` recurses on the expression. What it needs of other bodies, a call of a method and the
construction of an object, is given to it as `Calls`; so evaluation needs no budget of its own. Both
operands of every binary operator are evaluated, from left to right.
-/

namespace Middleweight

/-- What a body may ask of the bodies of other members, and how often its loops may go round. -/
structure Calls (F : Type) where
  rounds : Nat
  /-- Calls a method: class, receiver, name, whether it is static, arguments with their types. -/
  dispatch : RuntimeClass F → Value F → String → Bool → List (Variable F) → List Ty → Span →
    EvalM F (Option (Variable F))
  /-- Makes an object: class, arguments with their types. -/
  construct : RuntimeClass F → List (Variable F) → List Ty → Span → EvalM F (ObjectRef F)

variable {F : Type} [HostFunctions F]

/-- The types that arguments have for resolution; the literal `null` has one of its own. -/
def argumentTypes : List Expr → List (Variable F) → List Ty
  | e :: es, v :: vs => (if e.isNullLiteral then .null else v.ty) :: argumentTypes es vs
  | _, _ => []

/-- The declared types of arguments. -/
def declaredTypes (args : List (Variable F)) : List Ty := args.map Variable.ty

namespace Engine

variable (eng : Engine F) (calls : Calls F)

/-! ## Written types and classes -/

mutual

/-- The class that a written type means in the current scope. -/
def resolveType : TypeExpr → EvalM F (RuntimeClass F)
  | ⟨name, generics, span⟩ => do
    let scope ← EvalM.scope
    match generics.isEmpty, scope.typeParams.get? name with
    | true, some ty => eng.classOf ty span
    | _, _ => do
      let args ← resolveTypes generics
      match (← EvalM.scope).cached name (.args args) with
      | some c => return c
      | none =>
        match eng.table.imports.resolve? name with
        | none => eng.raise (.type (.unknownType name span)) span
        | some full => do
          let c ← eng.classOf (.cls full args) span
          EvalM.modifyScope fun s => s.remember name (.args args) c
          return c

def resolveTypes : List TypeExpr → EvalM F (List Ty)
  | [] => return []
  | t :: rest => do
    let c ← resolveType t
    let tys ← resolveTypes rest
    return c.asTy :: tys

end

/-- The static view that a bare name means in the current scope. -/
def staticClass (name : String) (span : Span) : EvalM F (Option (RuntimeClass F)) := do
  match (← EvalM.scope).cached name .static with
  | some c => return some c
  | none =>
    match eng.table.imports.resolve? name with
    | none => return none
    | some full => do
      let c ← eng.staticView full span
      EvalM.modifyScope fun s => s.remember name .static c
      return some c

/-! ## Values with classes -/

/-- A value with the class it has by itself. -/
def typedValue (value : Value F) (span : Span) : EvalM F (Variable F) :=
  match value with
  | .object o => return ⟨o.cls, value⟩
  | .cls c => return ⟨c, value⟩
  | .int _ => do return ⟨← eng.classOf .int span, value⟩
  | .float _ => do return ⟨← eng.classOf .float span, value⟩
  | .bool _ => do return ⟨← eng.classOf .boolean span, value⟩
  | .str _ => do return ⟨← eng.classOf .string span, value⟩
  | .null | .namespace _ => do return ⟨← eng.classOf .object span, value⟩

/-- The value of a literal. -/
def literalValue : Literal → Value F
  | .int n => .int n
  | .float x => .float x
  | .bool b => .bool b
  | .string s => .str s
  | .null => .null

/-! ## Native functions -/

/-- Carries out a program of the host on behalf of a call. -/
def runHost {α : Type} (span : Span) : HostProgram F α → EvalM F α
  | .done a => return a
  | .fail (.message text) => eng.invalid (.host text) span
  | .fail (.nullDereference member) => eng.raise (.nullDereference member) span
  | .write text next => do
    match ← eng.write text with
    | some e => eng.invalid (.host ("failed to write output: " ++ e)) span
    | none => runHost span next
  | .classOf ty next => do runHost span (next (← eng.classOf ty span))
  | .allocate c next => do runHost span (next (← eng.allocate c span))
  | .construct c args next => do
    runHost span (next (← calls.construct c args (declaredTypes args) span))
  | .getState o next => do runHost span (next ((← EvalM.contents o).bind Instance.host))
  | .setState o state next => do
    EvalM.modifyContents o fun i => { i with host := some state }
    runHost span next
  | .depth next => do runHost span (next (← EvalM.depth))

/-- Calls a native function. -/
def callHost (function : F) (call : HostCall F) : EvalM F (Value F) :=
  eng.runHost calls call.span (HostFunctions.perform function call)

/-! ## Static fields -/

/-- The nearest class with a static field of a name. -/
def staticFieldOwner? (c : RuntimeClass F) (name : String) : List (Layer F) →
    Option (RuntimeClass F × NativeField F)
  | [] => none
  | layer :: rest =>
    match layer.template.native?.bind (·.staticField? name) with
    | some f => some (⟨c.isStaticView, layer, rest⟩, f)
    | none => staticFieldOwner? c name rest

/-- The variable of a static field, made when it is first read. -/
def staticField (c : RuntimeClass F) (name : String) (span : Span) : EvalM F (Variable F) := do
  match staticFieldOwner? c name c.layers with
  | none => eng.raise (.undefinedVariable (c.name ++ "." ++ name)) span
  | some (owner, field) =>
    let key := (owner.name, field.name)
    match (← get).statics.lookup key with
    | some v => return v
    | none => do
      let ty ← eng.types (eng.table.lower [] field.ty)
      let cls ← eng.classOf ty span
      let value ← eng.callHost calls field.init ⟨owner, .null, [], span⟩
      let v : Variable F := ⟨cls, value⟩
      modify fun m => { m with statics := (key, v) :: m.statics }
      return v

/-! ## Names and fields -/

/-- What a bare name stands for: `this`, a variable, a field, a class or a namespace. -/
def lookup (name : Identifier) : EvalM F (Variable F) := do
  let scope ← EvalM.scope
  if name.name = "this" then
    match scope.context.this? with
    | some v => return v
    | none => eng.raise (.undefinedVariable name.name) name.span
  else
    match scope.lookup name.name with
    | some v => return v
    | none => do
      let field? ← match scope.context.instance? with
        | some o => EvalM.field? o name.name
        | none => pure none
      match field? with
      | some v => return v
      | none => do
        match ← eng.staticClass name.name name.span with
        | some c => return ⟨c, .cls c⟩
        | none =>
          match eng.table.natives.namespace? name.name with
          | some _ => eng.typedValue (.namespace name.name) name.span
          | none => eng.raise (.undefinedVariable name.name) name.span

/-- Stops because a value has no field of a name. -/
def undefinedField {α : Type} (receiver : Value F) (field : Identifier) : EvalM F α :=
  let owner :=
    match receiver with
    | .object o => o.cls.name
    | other => other.shown
  eng.raise (.undefinedVariable (owner ++ "." ++ field.name)) field.span

/-- What a name behind a dot stands for. -/
def fieldValue (receiver : Value F) (field : Identifier) (span : Span) :
    EvalM F (Variable F) :=
  match receiver with
  | .namespace path =>
    let child := path ++ "." ++ field.name
    match eng.table.natives.lookup child with
    | some (.namespace _) => eng.typedValue (.namespace child) span
    | some (.cls _) => do
      let c ← eng.staticView child span
      return ⟨c, .cls c⟩
    | none => eng.raise (.undefinedVariable child) field.span
  | .cls c => eng.staticField calls c field.name span
  | .object o => do
    match ← EvalM.field? o field.name with
    | some v => return v
    | none => eng.undefinedField receiver field
  | .null => eng.raise (.nullDereference field.name) span
  | _ => eng.undefinedField receiver field

/-! ## Assignment -/

/-- Gives a bare name another value: a variable, or else a field of the running instance. -/
def store (target : Identifier) (value : Value F) : EvalM F Unit := do
  if target.name = "this" then eng.invalid .assignmentToThis target.span
  else
    let scope ← EvalM.scope
    match scope.assign target.name value with
    | some scope => EvalM.modifyScope fun _ => scope
    | none => do
      let stored ← match scope.context.instance? with
        | some o => EvalM.setField o target.name value
        | none => pure false
      if stored then return () else eng.raise (.undefinedVariable target.name) target.span

/-- The value that an assignment stores: the given one, or that of its operator on the current one. -/
def combine (op : AssignOp) (current : EvalM F (Value F)) (value : Value F) (span : Span) :
    EvalM F (Value F) :=
  match op.binary? with
  | none => return value
  | some binary => do
    let now ← current
    eng.operators span (binary.apply now value)

/-- Gives a field of a value another value. -/
def storeField (receiver : Value F) (field : Identifier) (op : AssignOp) (value : Value F)
    (span : Span) : EvalM F Unit :=
  match receiver with
  | .object o => do
    let current : EvalM F (Value F) := do
      match ← EvalM.field? o field.name with
      | some v => return v.value
      | none => eng.undefinedField receiver field
    let value ← eng.combine op current value span
    if ← EvalM.setField o field.name value then return ()
    else eng.undefinedField receiver field
  | .null => eng.raise (.nullDereference field.name) span
  | .cls c => eng.invalid (.staticFieldReadOnly c.name field.name) span
  | _ => eng.undefinedField receiver field

/-! ## Calls -/

/-- The class whose methods a call looks at, and whether it looks at static ones. -/
def callTarget (receiver : Variable F) (method : String) (span : Span) :
    EvalM F (RuntimeClass F × Bool) :=
  match receiver.value with
  | .null => eng.raise (.nullDereference method) span
  | .object o => return (o.cls, false)
  | .cls c => return (c, true)
  | .str _ => do return (← eng.classOf .string span, false)
  | .int _ | .float _ | .bool _ => return (receiver.cls, false)
  | .namespace path => eng.invalid (.namespaceAsValue path) span

/-- Calls a method of a value, its arguments being evaluated. -/
def callMethod (receiver : Variable F) (method : Identifier) (args : List (Variable F))
    (argTypes : List Ty) (span : Span) : EvalM F (Option (Variable F)) := do
  let (c, isStatic) ← eng.callTarget receiver method.name span
  let this := if isStatic then .null else receiver.value
  calls.dispatch c this method.name isStatic args argTypes span

/-- Whether a value is of a type: a string by its own type, other values by their runtime type. -/
def isInstance (v : Variable F) (target : RuntimeClass F) : Bool :=
  match v.value with
  | .null => false
  | .str _ => eng.table.check .string target.asTy
  | _ => eng.table.check v.runtimeTy target.asTy

/-- The variable that a step gives: the new value in front of its target, the old one behind it. -/
def stepped (before : Bool) (current : Variable F) (next : Value F) : Variable F :=
  ⟨current.cls, if before then next else current.value⟩

mutual

/-- Evaluates an expression. -/
def eval : Expr → EvalM F (Variable F)
  | .literal value span => do
    let c ← eng.classOf value.ty span
    return ⟨c, literalValue value⟩
  | .var name => eng.lookup name
  | .binary lhs op rhs span => do
    let l ← eval lhs
    let r ← eval rhs
    let value ← eng.operators span (op.apply l.value r.value)
    eng.typedValue value span
  | .unary op operand span => do
    let v ← eval operand
    let value ← eng.operators span (op.apply v.value)
    eng.typedValue value span
  | .step op before target span =>
    match target with
    | .var name => do
      let current ← eng.lookup name
      let next ← eng.operators span (op.apply current.value)
      eng.store name next
      return stepped before current next
    | .field receiver field _ => do
      let r ← eval receiver
      let current ← eng.fieldValue calls r.value field span
      let next ← eng.operators span (op.apply current.value)
      eng.storeField r.value field .set next span
      return stepped before current next
    | _ => eng.invalid (.stepTarget op) span
  | .ternary condition thenValue elseValue span => do
    match (← eval condition).value with
    | .bool true => eval thenValue
    | .bool false => eval elseValue
    | other => eng.invalid (.condition other) span
  | .new ty arguments span => do
    let c ← eng.resolveType ty
    let args ← evalAll arguments
    let o ← calls.construct c args (argumentTypes arguments args) span
    return ⟨c, .object o⟩
  | .field receiver field span => do
    let r ← eval receiver
    eng.fieldValue calls r.value field span
  | .call receiver method arguments span => do
    let r ← eval receiver
    let args ← evalAll arguments
    match ← eng.callMethod calls r method args (argumentTypes arguments args) span with
    | some v => return v
    | none => do return ⟨← eng.classOf .object span, .null⟩
  | .cast ty expression _ => do
    let c ← eng.resolveType ty
    let v ← eval expression
    return ⟨c, v.value⟩
  | .instanceOf expression ty span => do
    let target ← eng.resolveType ty
    let v ← eval expression
    eng.typedValue (.bool (eng.isInstance v target)) span
  | .group expression _ => eval expression

/-- Evaluates expressions from left to right. -/
def evalAll : List Expr → EvalM F (List (Variable F))
  | [] => return []
  | e :: rest => do
    let v ← eval e
    let vs ← evalAll rest
    return v :: vs

end

end Engine

end Middleweight
