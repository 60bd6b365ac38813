import Middleweight.Engine.Basic
import Middleweight.Proofs.Engine.Parts

/-!
# How computations are built

Every computation of an engine is put together from a few steps: it reads the machine, changes it
without touching open calls, events and the declared fields of objects, tells of a statement, stops,
or runs a part of itself inside a call, a scope or a level of its own. What all steps keep, whole
runs keep, by induction on `Engine.Built`.

* `Engine.built_eval`, `Engine.built_exec` : expressions and statements
* `Calls.built_atDepth` : calls, by induction on the depth
* `Engine.built_run`, `Engine.built_callStatic`, `Engine.built_constructObject` : what a host can do
-/

namespace Middleweight

variable {F : Type}

/-! ## Declared fields -/

/-- The fields of an object with their declared classes. -/
def Instance.declared (i : Instance F) : List (String × RuntimeClass F) :=
  i.fields.map fun f => (f.1, f.2.cls)

/-- Another value leaves the declared classes of fields as they are. -/
theorem Instance.declared_setField (i : Instance F) (name : String) (value : Value F) :
    (i.setField name value).declared = i.declared := by
  show (setIn name value i.fields).map _ = i.fields.map _
  induction i.fields with
  | nil => rfl
  | cons f rest ih =>
    obtain ⟨key, v⟩ := f
    rw [setIn]
    split
    · rfl
    · rw [List.map_cons, ih, List.map_cons]

/-- The declared fields of all objects, in order. -/
def Machine.layouts (m : Machine F) : List (List (String × RuntimeClass F)) :=
  m.heap.toList.map Instance.declared

/-- A change that keeps the declared fields of each object keeps all of them. -/
theorem Machine.layouts_modify (m : Machine F) (n : Nat) {f : Instance F → Instance F}
    (hf : ∀ i, (f i).declared = i.declared) :
    Machine.layouts { m with heap := m.heap.modify n f } = m.layouts := by
  show (m.heap.modify n f).toList.map _ = m.heap.toList.map _
  rw [Array.toList_modify]
  refine List.ext_getElem? fun k => ?_
  rw [List.getElem?_map, List.getElem?_map, List.getElem?_modify]
  cases m.heap.toList[k]? with
  | none => rfl
  | some i =>
    by_cases hk : n = k
    · simp [hk, hf]
    · simp [hk]

/-- A new object adds its declared fields behind those of the others. -/
theorem Machine.layouts_push (m : Machine F) (i : Instance F) :
    Machine.layouts { m with heap := m.heap.push i } = m.layouts ++ [i.declared] := by
  show (m.heap.push i).toList.map _ = m.heap.toList.map _ ++ _
  rw [Array.toList_push, List.map_append]
  rfl

/-! ## Steps -/

namespace Engine

/-- A computation that is put together from the steps of an engine. -/
inductive Built (eng : Engine F) : {α : Type} → EvalM F α → Prop
  | pure {α : Type} (a : α) : Built eng (Pure.pure a : EvalM F α)
  | bind {α β : Type} {x : EvalM F α} {f : α → EvalM F β} :
      Built eng x → (∀ a, Built eng (f a)) → Built eng (x >>= f)
  | raise {α : Type} (fault : Fault F) (span : Span) : Built eng (eng.raise fault span : EvalM F α)
  | exhausted {α : Type} : Built eng (EvalM.exhausted : EvalM F α)
  | read : Built eng (get : EvalM F (Machine F))
  | change {f : Machine F → Machine F} : (∀ m, (f m).stack = m.stack) →
      (∀ m, (f m).events = m.events) → (∀ m, m.layouts <+: (f m).layouts) →
      Built eng (modify f : EvalM F PUnit)
  | statement (span : Span) : Built eng (eng.tellStatement span)
  | withFrame {α : Type} {x : EvalM F α} (frame : Frame) :
      Built eng x → Built eng (eng.withFrame frame x)
  | withScope {α : Type} {x : EvalM F α} (scope : Scope F) :
      Built eng x → Built eng (EvalM.withScope scope x)
  | nested {α : Type} {x : EvalM F α} : Built eng x → Built eng (EvalM.nested x)

variable {eng : Engine F} {α β : Type}

/-! ## Stops, classes and the heap -/

namespace Built

theorem map {x : EvalM F α} (hx : eng.Built x) (f : α → β) :
    eng.Built (do return f (← x)) :=
  .bind hx fun a => .pure (f a)

theorem invalid (op : InvalidOperation F) (span : Span) :
    eng.Built (eng.invalid op span : EvalM F α) :=
  .raise _ span

theorem types (x : Except TypeError α) : eng.Built (eng.types x) := by
  cases x with
  | ok a => exact .pure a
  | error e => exact .raise _ _

theorem operators (span : Span) (x : Except (OperatorError F) α) :
    eng.Built (eng.operators span x) := by
  cases x with
  | ok a => exact .pure a
  | error e => exact .invalid _ _

theorem scope : eng.Built (EvalM.scope : EvalM F (Scope F)) := map .read _

theorem modifyScope (f : Scope F → Scope F) : eng.Built (EvalM.modifyScope f) :=
  .change (fun _ => rfl) (fun _ => rfl) fun _ => List.prefix_refl _

theorem depth : eng.Built (EvalM.depth : EvalM F Nat) := map .read _

theorem contents (o : ObjectRef F) : eng.Built (EvalM.contents o) := map .read _

theorem field? (o : ObjectRef F) (name : String) : eng.Built (EvalM.field? o name) :=
  map (contents o) _

/-- Contents of an object change without its declared fields. -/
theorem modifyContents (o : ObjectRef F) {f : Instance F → Instance F}
    (hf : ∀ i, (f i).declared = i.declared) : eng.Built (EvalM.modifyContents o f) :=
  .change (fun _ => rfl) (fun _ => rfl) fun m => (m.layouts_modify o.id hf).symm ▸ List.prefix_refl _

/-- A value is stored in a field as the field is declared. -/
theorem setField (o : ObjectRef F) (name : String) (value : Value F) :
    eng.Built (EvalM.setField o name value) := by
  refine .bind (field? o name) fun v => ?_
  cases v with
  | none => exact .pure _
  | some v =>
    exact .bind (modifyContents o fun i => i.declared_setField name value) fun _ => .pure _

theorem newObject (c : RuntimeClass F) (fields : List (String × Variable F)) :
    eng.Built (EvalM.newObject c fields) :=
  .bind .read fun _ => .bind (.change (fun _ => rfl) (fun _ => rfl) fun m =>
    (m.layouts_push _).symm ▸ List.prefix_append _ _) fun _ => .pure _

end Built

open Built

/-- A class is made in the registry only. -/
theorem built_register (make : Registry F → Except TypeError (RuntimeClass F × Registry F)) :
    eng.Built (eng.register make) :=
  .bind .read fun _ => .bind (.types _) fun _ =>
    .bind (.change (fun _ => rfl) (fun _ => rfl) fun _ => List.prefix_refl _) fun _ => .pure _

theorem built_classOf (ty : Ty) (span : Span) : eng.Built (eng.classOf ty span) :=
  built_register _

theorem built_staticView (name : String) (span : Span) : eng.Built (eng.staticView name span) :=
  built_register _

theorem built_newFields (span : Span) (slots : List FieldSlot) :
    ∀ made : List (String × Variable F), eng.Built (eng.newFields span slots made) := by
  induction slots with
  | nil => exact fun made => .pure _
  | cons slot rest ih =>
    intro made
    unfold newFields
    cases made.lookup slot.name with
    | some v => exact ih made
    | none => exact .bind (built_classOf slot.ty span) fun c => ih _

/-- An allocation makes the classes of all fields, and then the object. -/
theorem built_allocate (c : RuntimeClass F) (span : Span) : eng.Built (eng.allocate c span) :=
  .bind (built_newFields span _ _) fun _ => newObject _ _

theorem built_write (text : String) : eng.Built (eng.write text) := by
  unfold write
  split
  · exact .pure _
  · exact .bind (.change (fun _ => rfl) (fun _ => rfl) fun _ => List.prefix_refl _) fun _ => .pure _

/-! ## Written types and names -/

mutual

/--
A written type is resolved by looking at the scope, the memory of its levels and the registry.
-/
theorem built_resolveType : ∀ e : TypeExpr, eng.Built (eng.resolveType e)
  | ⟨name, generics, span⟩ => by
    rw [resolveType]
    refine .bind scope fun s => ?_
    split
    · exact built_classOf _ span
    · refine .bind (built_resolveTypes generics) fun args => .bind scope fun s => ?_
      split
      · exact .pure _
      · split
        · exact .raise _ _
        · exact .bind (built_classOf _ span) fun c => .bind (modifyScope _) fun _ => .pure _

theorem built_resolveTypes : ∀ es : List TypeExpr, eng.Built (eng.resolveTypes es)
  | [] => by
    rw [resolveTypes]
    exact .pure _
  | e :: rest => by
    rw [resolveTypes]
    exact .bind (built_resolveType e) fun c => map (built_resolveTypes rest) _

end

theorem built_staticClass (name : String) (span : Span) :
    eng.Built (eng.staticClass name span) := by
  refine .bind scope fun s => ?_
  split
  · exact .pure _
  · split
    · exact .pure _
    · exact .bind (built_staticView _ span) fun c => .bind (modifyScope _) fun _ => .pure _

theorem built_typedValue (v : Value F) (span : Span) : eng.Built (eng.typedValue v span) := by
  cases v with
  | object o => exact .pure _
  | cls c => exact .pure _
  | _ => exact map (built_classOf _ span) _

theorem built_ownField? (context : Context F) (name : String) :
    eng.Built (EvalM.ownField? context name) := by
  unfold EvalM.ownField?
  split
  · exact field? _ name
  · exact .pure _

theorem built_lookupClass (name : Identifier) : eng.Built (eng.lookupClass name) := by
  refine .bind (built_staticClass _ _) fun c => ?_
  cases c with
  | some c => exact .pure _
  | none =>
    dsimp only
    split
    · exact built_typedValue _ _
    · exact .raise _ _

/-- A name is looked up in the scope, and then among fields and classes. -/
theorem built_lookup (name : Identifier) : eng.Built (eng.lookup name) := by
  rw [lookup_eq]
  refine .bind scope fun s => ?_
  unfold lookupIn
  split
  · split
    · exact .pure _
    · exact .raise _ _
  · split
    · exact .pure _
    · refine .bind (built_ownField? _ _) fun v => ?_
      cases v with
      | some v => exact .pure _
      | none => exact built_lookupClass name

theorem built_undefinedField (receiver : Value F) (field : Identifier) :
    eng.Built (eng.undefinedField receiver field : EvalM F α) :=
  .raise _ _

/-! ## Assignment -/

theorem built_setOwnField (context : Context F) (name : String) (value : Value F) :
    eng.Built (EvalM.setOwnField context name value) := by
  unfold EvalM.setOwnField
  split
  · exact setField _ name value
  · exact .pure _

theorem built_store (target : Identifier) (value : Value F) :
    eng.Built (eng.store target value) := by
  rw [store_eq]
  split
  · exact .invalid _ _
  · refine .bind scope fun s => ?_
    unfold storeIn
    split
    · exact modifyScope _
    · refine .bind (built_setOwnField _ _ _) fun b => ?_
      unfold storedOr
      split
      · exact .pure _
      · exact .raise _ _

theorem built_combine (op : AssignOp) {current : EvalM F (Value F)} (h : eng.Built current)
    (value : Value F) (span : Span) : eng.Built (eng.combine op current value span) := by
  unfold combine
  split
  · exact .pure _
  · exact .bind h fun now => Built.operators span _

theorem built_fieldNow (o : ObjectRef F) (field : Identifier) :
    eng.Built (eng.fieldNow o field) := by
  refine .bind (field? o _) fun v => ?_
  cases v with
  | some v => exact .pure _
  | none => exact built_undefinedField _ _

/-- A field is stored with the class that it is declared with. -/
theorem built_storeField (receiver : Value F) (field : Identifier) (op : AssignOp)
    (value : Value F) (span : Span) :
    eng.Built (eng.storeField receiver field op value span) := by
  cases receiver with
  | object o =>
    refine .bind (built_combine op (built_fieldNow o field) value span) fun v => ?_
    refine .bind (setField o _ _) fun b => ?_
    split
    · exact .pure _
    · exact built_undefinedField _ _
  | null => exact .raise _ _
  | cls c => exact .invalid _ _
  | int n => exact built_undefinedField (.int n) field
  | float x => exact built_undefinedField (.float x) field
  | bool b => exact built_undefinedField (.bool b) field
  | str s => exact built_undefinedField (.str s) field
  | «namespace» path => exact built_undefinedField (.namespace path) field

/-! ## Native functions -/

end Engine

/-- Calls of other members that are put together from the steps of an engine. -/
structure Calls.Built (eng : Engine F) (calls : Calls F) : Prop where
  dispatch : ∀ c this name isStatic args argTypes span,
    eng.Built (calls.dispatch c this name isStatic args argTypes span)
  construct : ∀ c args argTypes span, eng.Built (calls.construct c args argTypes span)

namespace Engine

open Built

variable {eng : Engine F} {α : Type} {calls : Calls F}

/-- What a native function asks for is done step by step. -/
theorem built_runHost (hcalls : calls.Built eng) (span : Span) (p : HostProgram F α) :
    eng.Built (eng.runHost calls span p) := by
  induction p with
  | done a => exact .pure a
  | fail fault =>
    cases fault with
    | message text => exact .invalid _ _
    | nullDereference member => exact .raise _ _
  | write text next ih =>
    refine .bind (built_write text) fun e => ?_
    cases e with
    | some e => exact .invalid _ _
    | none => exact ih
  | classOf ty next ih => exact .bind (built_classOf ty span) ih
  | allocate c next ih => exact .bind (built_allocate c span) ih
  | construct c args next ih => exact .bind (hcalls.construct c args _ span) ih
  | getState o next ih => exact .bind (contents o) fun i => ih _
  | setState o state next ih => exact .bind (modifyContents o fun _ => rfl) fun _ => ih
  | depth next ih => exact .bind depth ih

variable [HostFunctions F]

theorem built_callHost (hcalls : calls.Built eng) (function : F) (call : HostCall F) :
    eng.Built (eng.callHost calls function call) :=
  built_runHost hcalls _ _

theorem built_staticField (hcalls : calls.Built eng) (c : RuntimeClass F) (name : String)
    (span : Span) :
    eng.Built (eng.staticField calls c name span) := by
  unfold staticField
  split
  · exact .raise _ _
  · refine .bind .read fun m => ?_
    split
    · exact .pure _
    · refine .bind (.types _) fun ty => .bind (built_classOf ty span) fun cls => ?_
      refine .bind (built_callHost hcalls _ _) fun value => ?_
      exact .bind (.change (fun _ => rfl) (fun _ => rfl) fun _ => List.prefix_refl _) fun _ => .pure _

theorem built_fieldValue (hcalls : calls.Built eng) (receiver : Value F) (field : Identifier)
    (span : Span) :
    eng.Built (eng.fieldValue calls receiver field span) := by
  cases receiver with
  | «namespace» path =>
    unfold fieldValue
    dsimp only
    split
    · exact built_typedValue _ _
    · exact map (built_staticView _ span) _
    · exact .raise _ _
  | cls c => exact built_staticField hcalls c _ span
  | object o =>
    refine .bind (field? o _) fun v => ?_
    cases v with
    | some v => exact .pure _
    | none => exact built_undefinedField _ _
  | null => exact .raise _ _
  | int n => exact built_undefinedField (.int n) field
  | float x => exact built_undefinedField (.float x) field
  | bool b => exact built_undefinedField (.bool b) field
  | str s => exact built_undefinedField (.str s) field

omit [HostFunctions F] in
theorem built_callTarget (receiver : Variable F) (method : String) (span : Span) :
    eng.Built (eng.callTarget receiver method span) := by
  obtain ⟨c, v⟩ := receiver
  cases v with
  | null => exact .raise _ _
  | str s => exact map (built_classOf _ span) _
  | «namespace» path => exact .invalid _ _
  | _ => exact .pure _

omit [HostFunctions F] in
theorem built_callMethod (hcalls : calls.Built eng) (receiver : Variable F) (method : Identifier)
    (args : List (Variable F)) (argTypes : List Ty) (span : Span) :
    eng.Built (eng.callMethod calls receiver method args argTypes span) :=
  .bind (built_callTarget receiver _ span) fun _ => hcalls.dispatch _ _ _ _ _ _ _

/-! ## Expressions -/

mutual

/-- Expressions are built from their parts, and from calls that are built. -/
theorem built_eval (hcalls : calls.Built eng) : ∀ e : Expr, eng.Built (eng.eval calls e)
  | .literal value span => by
    rw [eval]
    exact map (built_classOf _ span) _
  | .var name => by
    rw [eval]
    exact built_lookup name
  | .binary lhs op rhs span => by
    rw [eval]
    refine .bind (built_eval hcalls lhs) fun l => .bind (built_eval hcalls rhs) fun r => ?_
    exact .bind (.operators span _) fun v => built_typedValue v span
  | .unary op operand span => by
    rw [eval]
    exact .bind (built_eval hcalls operand) fun v => .bind (.operators span _) fun v =>
      built_typedValue v span
  | .step op before (.var name) span => by
    rw [eval]
    refine .bind (built_lookup name) fun current => .bind (.operators span _) fun next => ?_
    exact .bind (built_store name next) fun _ => .pure _
  | .step op before (.field receiver field _) span => by
    rw [eval]
    refine .bind (built_eval hcalls receiver) fun r => ?_
    refine .bind (built_fieldValue hcalls r.value field span) fun current => ?_
    refine .bind (.operators span _) fun next => ?_
    exact .bind (built_storeField _ field .set next span) fun _ => .pure _
  | .step op before (.literal _ _) span => by simp only [eval]; exact .invalid _ _
  | .step op before (.binary _ _ _ _) span => by simp only [eval]; exact .invalid _ _
  | .step op before (.unary _ _ _) span => by simp only [eval]; exact .invalid _ _
  | .step op before (.step _ _ _ _) span => by simp only [eval]; exact .invalid _ _
  | .step op before (.ternary _ _ _ _) span => by simp only [eval]; exact .invalid _ _
  | .step op before (.new _ _ _) span => by simp only [eval]; exact .invalid _ _
  | .step op before (.call _ _ _ _) span => by simp only [eval]; exact .invalid _ _
  | .step op before (.cast _ _ _) span => by simp only [eval]; exact .invalid _ _
  | .step op before (.instanceOf _ _ _) span => by simp only [eval]; exact .invalid _ _
  | .step op before (.group _ _) span => by simp only [eval]; exact .invalid _ _
  | .ternary condition thenValue elseValue span => by
    rw [eval]
    refine .bind (built_eval hcalls condition) fun v => ?_
    split
    · exact built_eval hcalls thenValue
    · exact built_eval hcalls elseValue
    · exact .invalid _ _
  | .new ty arguments span => by
    rw [eval]
    refine .bind (built_resolveType ty) fun c => ?_
    exact .bind (built_evalAll hcalls arguments) fun args => map (hcalls.construct c args _ span) _
  | .field receiver field span => by
    rw [eval]
    exact .bind (built_eval hcalls receiver) fun r => built_fieldValue hcalls r.value field span
  | .call receiver method arguments span => by
    rw [eval]
    refine .bind (built_eval hcalls receiver) fun r => ?_
    refine .bind (built_evalAll hcalls arguments) fun args => ?_
    refine .bind (built_callMethod hcalls r method args _ span) fun v => ?_
    cases v with
    | some v => exact .pure _
    | none => exact map (built_classOf _ span) _
  | .cast ty expression _ => by
    rw [eval]
    exact .bind (built_resolveType ty) fun c => map (built_eval hcalls expression) _
  | .instanceOf expression ty span => by
    rw [eval]
    exact .bind (built_resolveType ty) fun target => .bind (built_eval hcalls expression) fun v =>
      built_typedValue _ span
  | .group expression _ => by
    rw [eval]
    exact built_eval hcalls expression

theorem built_evalAll (hcalls : calls.Built eng) :
    ∀ es : List Expr, eng.Built (eng.evalAll calls es)
  | [] => by
    rw [evalAll]
    exact .pure _
  | e :: rest => by
    rw [evalAll]
    exact .bind (built_eval hcalls e) fun v => map (built_evalAll hcalls rest) _

end

/-! ## Statements -/

omit [HostFunctions F] in
/-- A loop is built from its test, its body and its update. -/
theorem built_rounds {test : EvalM F Bool} {body : EvalM F (Flow F)} {update : EvalM F Unit}
    (htest : eng.Built test) (hbody : eng.Built body) (hupdate : eng.Built update) (n : Nat) :
    eng.Built (rounds test body update n) := by
  induction n with
  | zero => exact .exhausted
  | succ n ih =>
    refine .bind htest fun b => ?_
    split
    · refine .bind hbody fun flow => ?_
      cases flow with
      | returned v => exact .pure _
      | normal => exact .bind hupdate fun _ => ih
    · exact .pure _

theorem built_condition (hcalls : calls.Built eng) (e : Expr) :
    eng.Built (eng.condition calls e) := by
  refine .bind (built_eval hcalls e) fun v => ?_
  split
  · exact .pure _
  · exact .invalid _ _

theorem built_initialValue (hcalls : calls.Built eng) (c : RuntimeClass F) (e : Option Expr) :
    eng.Built (eng.initialValue calls c e) := by
  cases e with
  | none => exact .pure _
  | some e => exact map (built_eval hcalls e) _

theorem built_assignName (hcalls : calls.Built eng) (target : Identifier) (op : AssignOp)
    (e : Expr) (span : Span) :
    eng.Built (eng.assignName calls target op e span) :=
  .bind (built_eval hcalls e) fun v =>
    .bind (built_combine op (map (built_lookup target) _) v.value span) fun _ =>
      built_store target _

theorem built_assignField (hcalls : calls.Built eng) (receiver : Expr) (field : Identifier)
    (op : AssignOp) (e : Expr)
    (span : Span) : eng.Built (eng.assignField calls receiver field op e span) :=
  .bind (built_eval hcalls receiver) fun _ => .bind (built_eval hcalls e) fun _ =>
    built_storeField _ field op _ span

theorem built_returnValue (hcalls : calls.Built eng) (e : Option Expr) :
    eng.Built (eng.returnValue calls e) := by
  cases e with
  | none => exact .pure _
  | some e => exact map (built_eval hcalls e) _

mutual

/-- Statements are built from their parts. -/
theorem built_exec (hcalls : calls.Built eng) : ∀ s : Stmt, eng.Built (eng.exec calls s)
  | .localVariable ty name value span => by
    rw [exec]
    refine .bind (.statement _) fun _ => .bind (built_resolveType ty) fun c => ?_
    exact .bind (built_initialValue hcalls c value) fun v =>
      .bind (modifyScope _) fun _ => .pure _
  | .assign target op e span => by
    rw [exec]
    exact .bind (.statement _) fun _ => .bind (built_assignName hcalls target op e span) fun _ =>
      .pure _
  | .fieldAssign receiver field op e span => by
    rw [exec]
    exact .bind (.statement _) fun _ =>
      .bind (built_assignField hcalls receiver field op e span) fun _ => .pure _
  | .expression e span => by
    rw [exec]
    exact .bind (.statement _) fun _ => .bind (built_eval hcalls e) fun _ => .pure _
  | .ifElse test thenBranch none span => by
    rw [exec]
    refine .bind (.statement _) fun _ => .bind (built_condition hcalls test) fun b => ?_
    split
    · exact .nested (built_execBlock hcalls thenBranch)
    · exact .pure _
  | .ifElse test thenBranch (some elseBranch) span => by
    rw [exec]
    refine .bind (.statement _) fun _ => .bind (built_condition hcalls test) fun b => ?_
    split
    · exact .nested (built_execBlock hcalls thenBranch)
    · exact .nested (built_execBlock hcalls elseBranch)
  | .whileLoop test body span => by
    rw [exec]
    exact .bind (.statement _) fun _ => built_rounds (built_condition hcalls test)
      (.nested (built_execBlock hcalls body)) (.pure _) _
  | .forLoop init test update body span => by
    rw [exec]
    refine .bind (.statement _) fun _ => .nested (.bind (built_exec hcalls init) fun _ => ?_)
    exact built_rounds (built_condition hcalls test) (.nested (built_execBlock hcalls body))
      (.bind (built_exec hcalls update) fun _ => .pure _) _
  | .returns value span => by
    rw [exec]
    exact .bind (.statement _) fun _ => map (built_returnValue hcalls value) _
  | .block body span => by
    rw [exec]
    exact .bind (.statement _) fun _ => .nested (built_execBlock hcalls body)

theorem built_execBlock (hcalls : calls.Built eng) :
    ∀ ss : List Stmt, eng.Built (eng.execBlock calls ss)
  | [] => by
    rw [execBlock]
    exact .pure _
  | s :: rest => by
    rw [execBlock]
    refine .bind (built_exec hcalls s) fun flow => ?_
    cases flow with
    | returned v => exact .pure _
    | normal => exact built_execBlock hcalls rest

end

/-! ## Members -/

omit [HostFunctions F] in
/-- Parameters are declared one after the other in the scope of the call. -/
theorem built_bindParameters (bindings : Bindings) (span : Span) (ps : List Param) :
    ∀ vs : List (Variable F), eng.Built (eng.bindParameters bindings span ps vs) := by
  induction ps with
  | nil =>
    intro vs
    rw [bindParameters]
    · exact .pure _
    · simp
  | cons p ps ih =>
    intro vs
    cases vs with
    | nil =>
      rw [bindParameters]
      · exact .pure _
      · simp
    | cons v vs =>
      rw [bindParameters]
      exact .bind (built_classOf _ span) fun c => .bind (modifyScope _) fun _ => ih vs

theorem built_methodValue (hcalls : calls.Built eng) (s : Selected F (RuntimeClass F))
    (bindings : Bindings) (this : Value F)
    (args : List (Variable F)) (span : Span) :
    eng.Built (eng.methodValue calls s bindings this args span) := by
  unfold methodValue
  split
  · exact map (built_callHost hcalls _ _) _
  · refine .withScope _ (.bind (built_bindParameters bindings span _ _) fun _ => ?_)
    refine .bind (built_execBlock hcalls _) fun flow => ?_
    cases flow with
    | returned v => exact .pure _
    | normal => exact .pure _

/-- A method runs in a frame and a scope of its own. -/
theorem built_invoke (hcalls : calls.Built eng) (s : Selected F (RuntimeClass F)) (this : Value F)
    (args : List (Variable F)) (span : Span) :
    eng.Built (eng.invoke calls s this args span) := by
  refine .withFrame _ (.bind (built_methodValue hcalls s _ this args span) fun result => ?_)
  split
  · exact map (built_classOf _ span) _
  · exact .pure _

theorem built_dispatch (hcalls : calls.Built eng) (c : RuntimeClass F) (this : Value F)
    (name : String) (isStatic : Bool)
    (args : List (Variable F)) (argTypes : List Ty) (span : Span) :
    eng.Built (eng.dispatch calls c this name isStatic args argTypes span) := by
  refine .bind (.types _) fun resolution => ?_
  cases resolution with
  | found s => exact built_invoke hcalls s this args span
  | ambiguous a => exact .raise _ _
  | missing m => exact .raise _ _
  | defaultConstructor => exact .pure _

theorem built_runConstructor (hcalls : calls.Built eng) (s : Selected F (RuntimeClass F))
    (o : ObjectRef F)
    (args : List (Variable F)) (span : Span)
    {base : Option (List (Variable F) → List Ty → Span → EvalM F Unit)}
    (hbase : ∀ construct ∈ base, ∀ vs tys sp, eng.Built (construct vs tys sp)) :
    eng.Built (eng.runConstructor calls s o args span base) := by
  refine .withFrame _ ?_
  split
  · exact .bind (built_callHost hcalls _ _) fun _ => .pure _
  · refine .withScope _ (.bind (built_bindParameters _ span _ _) fun _ => ?_)
    cases base with
    | none => exact .bind (built_execBlock hcalls _) fun _ => .pure _
    | some construct =>
      refine .bind (built_evalAll hcalls _) fun superArgs => ?_
      exact .bind (hbase construct rfl _ _ _) fun _ => .bind (built_execBlock hcalls _) fun _ =>
        .pure _

/-- The constructors of all levels are built, by induction on the levels. -/
theorem built_runConstructors (hcalls : calls.Built eng) (o : ObjectRef F) (isStaticView : Bool)
    (layers : List (Layer F)) :
    ∀ args argTypes span,
      eng.Built (eng.runConstructors calls o isStaticView layers args argTypes span) := by
  induction layers with
  | nil => exact fun _ _ _ => .pure _
  | cons layer rest ih =>
    intro args argTypes span
    refine .bind (.types _) fun resolution => ?_
    cases resolution with
    | found s =>
      refine built_runConstructor hcalls s o args span fun construct hc => ?_
      split at hc
      · cases hc
      · cases hc
        exact ih
    | ambiguous a => exact .raise _ _
    | missing m => exact .raise _ _
    | defaultConstructor => exact ih [] [] span

theorem built_construct (hcalls : calls.Built eng) (c : RuntimeClass F) (args : List (Variable F))
    (argTypes : List Ty)
    (span : Span) : eng.Built (eng.construct calls c args argTypes span) :=
  .bind (built_allocate c span) fun o =>
    .bind (built_runConstructors hcalls o _ _ args argTypes span) fun _ => .pure _

end Engine

/-- Calls are put together from the steps of the engine at every depth. -/
theorem Calls.built_atDepth [HostFunctions F] (eng : Engine F) (n : Nat) :
    (Calls.atDepth eng n).Built eng := by
  induction n with
  | zero => exact ⟨fun _ _ _ _ _ _ _ => .exhausted, fun _ _ _ _ => .exhausted⟩
  | succ n ih =>
    rw [Calls.atDepth]
    exact ⟨Engine.built_dispatch ih, Engine.built_construct ih⟩

/-! ## What a host can do -/

namespace Engine

variable [HostFunctions F] (eng : Engine F)

/-- What an engine calls is built, however deep. -/
theorem built_calls : eng.calls.Built eng := Calls.built_atDepth eng eng.budget

theorem built_callStatic (className method : String) (args : List (Variable F)) (span : Span) :
    eng.Built (eng.callStatic className method args span) := by
  unfold callStatic
  split
  · exact .raise _ _
  · exact .bind (built_staticView _ span) fun view => eng.built_calls.dispatch _ _ _ _ _ _ _

theorem built_constructObject (c : RuntimeClass F) (args : List (Variable F)) (span : Span) :
    eng.Built (eng.constructObject c args span) :=
  eng.built_calls.construct c args _ span

omit [HostFunctions F] in
theorem built_flush : eng.Built eng.flush := by
  unfold flush
  split
  · exact .invalid _ _
  · exact .pure _

/-- A run of a program is built. -/
theorem built_run : eng.Built eng.run := by
  refine .withFrame _ ?_
  split
  · exact .raise _ _
  · exact .bind (eng.built_callStatic _ _ _ _) fun _ => eng.built_flush

end Engine

end Middleweight
