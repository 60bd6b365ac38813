import Middleweight.Proofs.World.FormedMachines

/-!
# Bodies keep machines formed

Native functions, expressions and statements leave formed machines, given that the calls of other
members in them do.

* `Engine.forms_callHost`, `Engine.forms_staticField` : native functions
* `Engine.forms_eval`, `Engine.forms_exec` : expressions and statements
-/

namespace Middleweight

variable {F α β : Type}

/-! ## Calls of other members -/

/-- The arguments of a call, with the types that they have for resolution. -/
structure AreArguments (t : ClassTable F) (args : List (Variable F)) (argTypes : List Ty) : Prop where
  formed : ∀ v ∈ args, v.Formed t
  length : argTypes.length = args.length
  types : ∀ ty ∈ argTypes, t.ArgumentType ty

/-- A call of a method: its receiver is an object only where the class is one of a formed type. -/
structure IsFormedCall (t : ClassTable F) (c : RuntimeClass F) (this : Value F) (isStatic : Bool)
    (args : List (Variable F)) (argTypes : List Ty) : Prop where
  serves : t.Serves isStatic c
  value : this.Formed t
  receiver : ∀ o, this = .object o → t.Admits c
  arguments : AreArguments t args argTypes

/-- Calls of other members that leave formed machines. -/
structure Calls.Formed (eng : Engine F) (calls : Calls F) : Prop where
  dispatch : ∀ {c : RuntimeClass F} {this : Value F} {isStatic : Bool} {args : List (Variable F)}
    {argTypes : List Ty} (name : String) (span : Span),
    IsFormedCall eng.table c this isStatic args argTypes →
    eng.Forms (calls.dispatch c this name isStatic args argTypes span)
      fun r => ∀ v, r = some v → v.Placed eng.table
  construct : ∀ {c : RuntimeClass F} {args : List (Variable F)} {argTypes : List Ty} (span : Span),
    eng.table.Admits c → AreArguments eng.table args argTypes →
    eng.Forms (calls.construct c args argTypes span) fun o => o.cls = c

namespace AreArguments

variable {t : ClassTable F} {args : List (Variable F)}

theorem nil : AreArguments t [] [] :=
  ⟨fun _ hv => absurd hv List.not_mem_nil, rfl, fun _ hty => absurd hty List.not_mem_nil⟩

theorem declared (h : ∀ v ∈ args, v.Formed t) : AreArguments t args (declaredTypes args) := by
  refine ⟨h, length_declaredTypes args, fun ty hty => ?_⟩
  obtain ⟨v, hv, rfl⟩ := List.mem_map.mp hty
  exact (h v hv).argumentType

theorem ofExpressions (h : ∀ v ∈ args, v.Formed t) {es : List Expr}
    (hlength : args.length = es.length) : AreArguments t args (argumentTypes es args) := by
  refine ⟨h, length_argumentTypes hlength, ?_⟩
  clear hlength
  induction es generalizing args with
  | nil => exact fun _ hty => absurd hty List.not_mem_nil
  | cons e rest ih =>
    cases args with
    | nil => exact fun _ hty => absurd hty List.not_mem_nil
    | cons v args =>
      obtain ⟨hv, hargs⟩ := List.forall_mem_cons.mp h
      refine List.forall_mem_cons.mpr ⟨?_, ih hargs⟩
      split
      · exact .named _
      · exact hv.argumentType

end AreArguments

/-- A call of a static method by the name of its class. -/
theorem IsFormedCall.ofView {t : ClassTable F} {view : RuntimeClass F} (hview : t.Shows view)
    {args : List (Variable F)} (hargs : ∀ v ∈ args, v.Formed t) :
    IsFormedCall t view .null true args (declaredTypes args) :=
  ⟨.shown hview rfl, trivial, (fun _ ho => nomatch ho), .declared hargs⟩

/-- What a method is called on: the class that it is looked up in, and whether it is static. -/
def IsFormedTarget (t : ClassTable F) (receiver : Variable F) (target : RuntimeClass F × Bool) :
    Prop :=
  t.Serves target.2 target.1 ∧
    (target.2 = false → ∀ o, receiver.value = .object o → t.Admits target.1)

/-- A call of a method on a value, or on a class. -/
theorem IsFormedCall.ofTarget {t : ClassTable F} {receiver : Variable F} (hr : receiver.Formed t)
    {c : RuntimeClass F} {isStatic : Bool} (htarget : IsFormedTarget t receiver (c, isStatic))
    {args : List (Variable F)} {argTypes : List Ty} (hargs : AreArguments t args argTypes) :
    IsFormedCall t c (if isStatic then .null else receiver.value) isStatic args argTypes := by
  cases isStatic with
  | true => exact ⟨htarget.1, trivial, (fun _ ho => nomatch ho), hargs⟩
  | false => exact ⟨htarget.1, hr.value, htarget.2 rfl, hargs⟩

/-! ## Programs of the host -/

/-- A program that asks for classes by their names, and for objects of formed types. -/
inductive HostProgram.Formed (t : ClassTable F) (Q : α → Prop) : HostProgram F α → Prop
  | done {a : α} : Q a → Formed t Q (.done a)
  | fail (fault : HostFault) : Formed t Q (.fail fault)
  | write (text : String) {next : HostProgram F α} : Formed t Q next → Formed t Q (.write text next)
  | classOf (name : String) {next : RuntimeClass F → HostProgram F α} :
      (∀ c, t.Admits c → Formed t Q (next c)) → Formed t Q (.classOf (.named name) next)
  | allocate {c : RuntimeClass F} {next : ObjectRef F → HostProgram F α} : t.Admits c →
      (∀ o, o.cls = c → Formed t Q (next o)) → Formed t Q (.allocate c next)
  | construct {c : RuntimeClass F} {args : List (Variable F)} {next : ObjectRef F → HostProgram F α} :
      t.Admits c → (∀ v ∈ args, v.Formed t) → (∀ o, o.cls = c → Formed t Q (next o)) →
      Formed t Q (.construct c args next)
  | getState (o : ObjectRef F) {next : Option (HostState F) → HostProgram F α} :
      (∀ s, (∀ x, s = some x → x.Formed t) → Formed t Q (next s)) → Formed t Q (.getState o next)
  | setState (o : ObjectRef F) {s : HostState F} {next : HostProgram F α} : s.Formed t →
      Formed t Q next → Formed t Q (.setState o s next)
  | depth {next : Nat → HostProgram F α} : (∀ n, Formed t Q (next n)) → Formed t Q (.depth next)

namespace HostProgram.Formed

variable {t : ClassTable F} {Q : α → Prop} {R : β → Prop}

theorem bind {p : HostProgram F α} (h : p.Formed t Q) {f : α → HostProgram F β}
    (hf : ∀ a, Q a → (f a).Formed t R) : (p >>= f).Formed t R := by
  show (p.bind f).Formed t R
  induction h with
  | done ha => exact hf _ ha
  | fail fault => exact .fail fault
  | write text _ ih => exact .write text ih
  | classOf name _ ih => exact .classOf name ih
  | allocate hc _ ih => exact .allocate hc ih
  | construct hc hargs _ ih => exact .construct hc hargs ih
  | getState o _ ih => exact .getState o ih
  | setState o hs _ ih => exact .setState o hs ih
  | depth _ ih => exact .depth ih

/-- A program that makes nothing asks for nothing. -/
theorem of_plain {p : HostProgram F α} (h : p.Plain Q) : p.Formed t Q := by
  induction h with
  | done ha => exact .done ha
  | fail fault => exact .fail fault
  | write text _ ih => exact .write text ih

end HostProgram.Formed

/-! ## The standard library -/

/-- A call of a native function: a receiver that is an object comes with a class of a formed type. -/
structure HostCall.Formed (t : ClassTable F) (call : HostCall F) : Prop where
  receiver : ∀ o, call.this = .object o → t.Admits call.cls
  args : ∀ v ∈ call.args, v.Formed t

namespace HostCall.Formed

variable {t : ClassTable F} {call : HostCall F}

theorem arg (h : call.Formed t) (i : Nat) : (call.arg i).Formed t fun v => v.Formed t := by
  unfold HostCall.arg
  split
  · next v hv => exact .done (h.args v (List.mem_of_getElem? hv))
  · exact .fail _

theorem receiverObject (h : call.Formed t) : call.receiver.Formed t fun _ => t.Admits call.cls := by
  unfold HostCall.receiver
  split
  · next o ho => exact .done (h.receiver o ho)
  · exact .fail _

/-- The items that the receiver keeps. -/
theorem items (h : call.Formed t) :
    call.items.Formed t fun r => t.Admits call.cls ∧ ∀ x ∈ r.2, x.Formed t := by
  refine h.receiverObject.bind fun o hc => .getState o fun s hs => ?_
  split
  · next xs => exact .done ⟨hc, hs _ rfl⟩
  · exact .fail _

end HostCall.Formed

namespace StandardFn

open HostProgram

variable {t : ClassTable F}

/-- What is found among formed items is formed. -/
theorem formed_getElem? {xs : List (Variable F)} (h : ∀ x ∈ xs, x.Formed t) {i : Nat}
    {x : Variable F} (hx : xs[i]? = some x) : x.value.Formed t :=
  (h x (List.mem_of_getElem? hx)).value

/-- A function of the standard library gives a formed value and keeps formed items. -/
theorem formed_perform {f : StandardFn} {call : HostCall F} (h : call.Formed t) :
    (f.perform call).Formed t fun v => v.Formed t := by
  cases f with
  | stringLength => exact (Formed.of_plain call.plain_thisStr).bind fun _ _ => .done trivial
  | stringEquals =>
    refine (Formed.of_plain call.plain_thisStr).bind fun s _ => ?_
    refine (Formed.of_plain (call.plain_arg 0)).bind fun v _ => ?_
    split
    · exact .done trivial
    · exact .done trivial
  | integerToString =>
    exact (Formed.of_plain (call.plain_intArg 0)).bind fun _ _ => .done trivial
  | integerParse =>
    refine (Formed.of_plain (call.plain_strArg 0)).bind fun text _ => ?_
    split
    · exact .done trivial
    · exact .fail _
  | floatToString =>
    exact (Formed.of_plain (call.plain_floatArg 0)).bind fun _ _ => .done trivial
  | floatParse =>
    refine (Formed.of_plain (call.plain_strArg 0)).bind fun text _ => ?_
    split
    · exact .done trivial
    · exact .fail _
  | booleanToString =>
    exact (Formed.of_plain (call.plain_boolArg 0)).bind fun _ _ => .done trivial
  | systemOut =>
    refine .classOf "java.io.PrintStream" fun c hc => ?_
    refine .construct hc (fun _ hv => absurd hv List.not_mem_nil) fun o ho => .done ?_
    show t.Admits o.cls
    rwa [ho]
  | print =>
    exact (Formed.of_plain (call.plain_strArg 0)).bind fun text _ => .write text (.done trivial)
  | println =>
    exact (Formed.of_plain (call.plain_strArg 0)).bind fun text _ => .write _ (.done trivial)
  | newline => exact .write _ (.done trivial)
  | listNew =>
    refine Formed.bind (Q := fun _ => True) ?_ fun _ _ => .done trivial
    refine h.receiverObject.bind fun o _ => .setState o ?_ (.done trivial)
    exact fun _ hx => absurd hx List.not_mem_nil
  | listAdd =>
    refine (h.arg 0).bind fun x hx => h.items.bind fun r hr => ?_
    refine .setState r.1 (fun y hy => ?_) (.done trivial)
    rcases List.mem_append.mp hy with hy | hy
    · exact hr.2 y hy
    · rwa [List.mem_singleton.mp hy]
  | listClear =>
    refine h.items.bind fun r _ => .setState r.1 ?_ (.done trivial)
    exact fun _ hx => absurd hx List.not_mem_nil
  | listContains => exact (h.arg 0).bind fun x _ => h.items.bind fun r _ => .done trivial
  | listGet =>
    refine (Formed.of_plain (call.plain_intArg 0)).bind fun n _ => h.items.bind fun r hr => ?_
    dsimp only
    split
    · next x hx =>
      obtain ⟨i, -, hx⟩ := Option.bind_eq_some_iff.mp hx
      exact .done (formed_getElem? hr.2 hx)
    · exact .fail _
  | listSize => exact h.items.bind fun _ _ => .done trivial
  | listSet =>
    refine (Formed.of_plain (call.plain_intArg 0)).bind fun n _ => (h.arg 1).bind fun y hy => ?_
    refine h.items.bind fun r hr => ?_
    dsimp only
    split
    · split
      · next x hx =>
        refine .setState r.1 (fun z hz => ?_) (.done (formed_getElem? hr.2 hx))
        rcases List.mem_or_eq_of_mem_set hz with hz | rfl
        · exact hr.2 z hz
        · exact hy
      · exact .fail _
    · exact .fail _
  | listSubList =>
    refine (Formed.of_plain (call.plain_intArg 0)).bind fun n _ => ?_
    refine (Formed.of_plain (call.plain_intArg 1)).bind fun k _ => h.items.bind fun r hr => ?_
    dsimp only
    split
    · refine .allocate hr.1 fun o ho => .setState o (fun x hx => ?_) (.done ?_)
      · exact hr.2 x (List.mem_of_mem_take (List.mem_of_mem_drop hx))
      · show t.Admits o.cls
        rw [ho]
        exact hr.1
    · exact .fail _
  | listRemove =>
    refine (Formed.of_plain (call.plain_intArg 0)).bind fun n _ => h.items.bind fun r hr => ?_
    dsimp only
    split
    · split
      · next x hx =>
        refine .setState r.1 (fun z hz => ?_) (.done (formed_getElem? hr.2 hx))
        exact hr.2 z (List.mem_of_mem_eraseIdx hz)
      · exact .fail _
    · exact .fail _
  | listIsEmpty => exact h.items.bind fun _ _ => .done trivial

end StandardFn

/-! ## Carrying native functions out -/

namespace Engine

theorem forms_runHost {eng : Engine F} {calls : Calls F} (ht : eng.table.Complete)
    (hcalls : calls.Formed eng) {Q : α → Prop} (span : Span) {p : HostProgram F α}
    (h : p.Formed eng.table Q) : eng.Forms (eng.runHost calls span p) Q := by
  induction h with
  | done ha => exact .pure ha
  | fail fault =>
    cases fault with
    | message text => exact .invalid _ span
    | nullDereference member => exact .raise _ span
  | write text _ ih =>
    refine (forms_write text).bind fun e _ => ?_
    cases e with
    | none => exact ih
    | some e => exact .invalid _ span
  | classOf name _ ih => exact (forms_named name span).bind ih
  | allocate hc _ ih => exact (forms_allocate ht hc span).bind ih
  | construct hc hargs _ ih => exact (hcalls.construct span hc (.declared hargs)).bind ih
  | getState o _ ih =>
    refine (forms_contents o).bind fun i hi => ih _ fun s hs => ?_
    obtain ⟨x, rfl, hx⟩ := Option.bind_eq_some_iff.mp hs
    exact (hi x rfl).host s hx
  | setState o hs _ ih => exact (forms_modifyContents o fun i hi => hi.setHost hs).bind fun _ _ => ih
  | depth _ ih => exact Forms.read.bind fun m _ => ih _

variable {eng : Engine StandardFn} {calls : Calls StandardFn}

section Bodies

variable (ht : eng.table.Complete) (hcalls : calls.Formed eng)

include ht hcalls

theorem forms_callHost (f : StandardFn) {call : HostCall StandardFn} (h : call.Formed eng.table) :
    eng.Forms (eng.callHost calls f call) fun v => v.Formed eng.table :=
  forms_runHost ht hcalls call.span (StandardFn.formed_perform h)

/-- Static fields are read without a receiver. -/
theorem forms_staticField (c : RuntimeClass StandardFn) (name : String) (span : Span) :
    eng.Forms (eng.staticField calls c name span) fun v => v.Placed eng.table := by
  cases howner : staticFieldOwner? c name c.layers with
  | none =>
    rw [staticField_of_none _ _ howner]
    exact .raise _ span
  | some r =>
    obtain ⟨owner, field⟩ := r
    rw [staticField_eq _ _ howner]
    refine Forms.read.bind fun m hm => ?_
    cases hread : m.statics.lookup (owner.name, field.name) with
    | some v => exact .pure (hm.statics _ (mem_of_lookup hread))
    | none =>
      unfold staticOr initStatic
      refine (Forms.types (Q := fun ty => ty.Formed eng.table.arity? [])
        fun ty hty => ClassTable.formed_of_lower hty).bind fun ty hty => ?_
      have harg : eng.table.ArgumentType ty.resolved :=
        .inl (by rwa [Ty.resolved_of_isGround hty.isGround])
      refine (forms_classOf harg span).bind fun cls hcls => ?_
      have hcall : HostCall.Formed eng.table ⟨owner, .null, [], span⟩ := by
        refine ⟨fun o ho => ?_, fun _ hv => absurd hv List.not_mem_nil⟩
        cases ho
      refine (forms_callHost ht hcalls field.init hcall).bind fun value hvalue => ?_
      have hplaced : Variable.Placed eng.table ⟨cls, value⟩ := ⟨hcls.1, hvalue⟩
      exact (Forms.change fun m hm => hm.withStatic hplaced).bind fun _ _ => .pure hplaced

/-! ## Calls of methods -/

omit ht hcalls in
theorem forms_callTarget {receiver : Variable StandardFn} (hr : receiver.Formed eng.table)
    (method : String) (span : Span) :
    eng.Forms (eng.callTarget receiver method span) (IsFormedTarget eng.table receiver) := by
  obtain ⟨c, v⟩ := receiver
  have hvalue := hr.value
  -- A value that is neither an object nor a class is looked at through its declared class.
  have hdeclared : (∀ o, v ≠ .object o) → ¬ v.IsClass → eng.table.Serves false c ∧
      (false = false → ∀ o, v = .object o → eng.table.Admits c) := fun hobject hclass =>
    ⟨(hr.admits hclass).serves false, fun _ o ho => absurd ho (hobject o)⟩
  cases v with
  | null => exact .raise _ _
  | object o => exact .pure ⟨hvalue.serves false, fun _ _ _ => hvalue⟩
  | cls d => exact .pure ⟨.shown hvalue rfl, fun h => nomatch h⟩
  | str s => exact (forms_named _ span).map fun d hd => ⟨hd.serves false, fun _ _ _ => hd⟩
  | int n => exact .pure (hdeclared (fun _ h => nomatch h) fun h => h)
  | float x => exact .pure (hdeclared (fun _ h => nomatch h) fun h => h)
  | bool b => exact .pure (hdeclared (fun _ h => nomatch h) fun h => h)
  | «namespace» path => exact .invalid _ _

omit ht in
theorem forms_callMethod {receiver : Variable StandardFn} (hr : receiver.Formed eng.table)
    (method : Identifier) {args : List (Variable StandardFn)} {argTypes : List Ty}
    (hargs : AreArguments eng.table args argTypes) (span : Span) :
    eng.Forms (eng.callMethod calls receiver method args argTypes span)
      fun r => ∀ v, r = some v → v.Placed eng.table := by
  exact (forms_callTarget hr method.name span).bind fun target htarget =>
    hcalls.dispatch _ _ (.ofTarget hr htarget hargs)

theorem forms_fieldValue {receiver : Value StandardFn} (hr : receiver.Formed eng.table)
    (field : Identifier) (span : Span) :
    eng.Forms (eng.fieldValue calls receiver field span) fun v => v.Formed eng.table := by
  cases receiver with
  | «namespace» path =>
    unfold fieldValue
    dsimp only
    split
    · exact forms_typedValue (v := .namespace (path ++ "." ++ field.name)) trivial _
    · exact (forms_staticView _ span).map fun c hc => ⟨.inr ⟨hc, trivial⟩, hc⟩
    · exact .raise _ _
  | cls c => exact (forms_staticField ht hcalls c _ span).mono fun _ hv => hv.formed
  | object o =>
    refine (forms_field? o field.name).bind fun v hv => ?_
    cases v with
    | some v => exact .pure (hv v rfl).formed
    | none => exact .raise _ _
  | _ => exact .raise _ _

/-! ## Expressions -/

omit ht hcalls in
/-- A step leaves the declared class as it is; what can be stepped is no class. -/
theorem formed_stepped {op : StepOp} (before : Bool) {current : Variable StandardFn}
    (hv : current.Formed eng.table) {next : Value StandardFn}
    (hnext : op.apply current.value = .ok next) :
    (stepped before current next).Formed eng.table where
  cls := by
    refine .inl (hv.admits fun hclass => ?_)
    cases hvalue : current.value with
    | cls c =>
      rw [hvalue] at hnext
      cases op <;> cases hnext
    | _ =>
      rw [hvalue] at hclass
      exact hclass.elim
  value := by
    cases before with
    | true => exact (StepOp.isPlain_apply hnext).formed _
    | false => exact hv.value

end Bodies

mutual

/-- An expression leaves a formed machine and evaluates to something formed. -/
theorem forms_eval (ht : eng.table.Complete) (hcalls : calls.Formed eng) : ∀ e : Expr,
    eng.Forms (eng.eval calls e) fun v => v.Formed eng.table
  | .literal value span => by
    rw [eval]
    have hplain : (literalValue value : Value StandardFn).IsPlain := by cases value <;> trivial
    cases value <;> exact forms_withClass hplain _ span
  | .var name => by
    rw [eval]
    exact forms_lookup name
  | .binary lhs op rhs span => by
    rw [eval]
    refine (forms_eval ht hcalls lhs).bind fun l _ => ?_
    refine (forms_eval ht hcalls rhs).bind fun r _ => ?_
    refine (Forms.operators span fun v hv => BinaryOp.isPlain_apply hv).bind fun v hv => ?_
    exact forms_typedValue (hv.formed _) span
  | .unary op operand span => by
    rw [eval]
    refine (forms_eval ht hcalls operand).bind fun v _ => ?_
    refine (Forms.operators span fun v hv => UnaryOp.isPlain_apply hv).bind fun v hv => ?_
    exact forms_typedValue (hv.formed _) span
  | .step op before (.var name) span => by
    rw [eval]
    refine (forms_lookup name).bind fun current hc => ?_
    refine (Forms.operators (Q := fun v => op.apply current.value = .ok v) span
      fun v hv => hv).bind fun next hnext => ?_
    exact (forms_store name ((StepOp.isPlain_apply hnext).formed _)).bind fun _ _ =>
      .pure (formed_stepped before hc hnext)
  | .step op before (.field receiver field _) span => by
    rw [eval]
    refine (forms_eval ht hcalls receiver).bind fun r hr => ?_
    refine (forms_fieldValue ht hcalls hr.value field span).bind fun current hc => ?_
    refine (Forms.operators (Q := fun v => op.apply current.value = .ok v) span
      fun v hv => hv).bind fun next hnext => ?_
    exact (forms_storeField r.value field .set ((StepOp.isPlain_apply hnext).formed _) span).bind
      fun _ _ => .pure (formed_stepped before hc hnext)
  | .step op before (.literal _ _) span => by simp only [eval]; exact .invalid _ _
  | .step op before (.binary _ _ _ _) span => by simp only [eval]; exact .invalid _ _
  | .step op before (.unary _ _ _) span => by simp only [eval]; exact .invalid _ _
  | .step op before (.step _ _ _ _) span => by simp only [eval]; exact .invalid _ _
  | .step op before (.ternary _ _ _ _) span => by simp only [eval]; exact .invalid _ _
  | .step op before (.new _ _ _) span => by simp only [eval]; exact .invalid _ _
  | .step op before (.call _ _ _ _) span => by simp only [eval]; exact .invalid _ _
  | .step op before (.cast _ _ _) span => by simp only [eval]; exact .invalid _ _
  | .step op before (.instanceOf _ _ _) span => by simp only [eval]; exact .invalid _ _
  | .step op before (.group _ _) span => by simp only [eval]; exact .invalid _ _
  | .ternary condition thenValue elseValue span => by
    rw [eval]
    refine (forms_eval ht hcalls condition).bind fun v _ => ?_
    split
    · exact forms_eval ht hcalls thenValue
    · exact forms_eval ht hcalls elseValue
    · exact .invalid _ _
  | .new ty arguments span => by
    rw [eval]
    refine (forms_resolveType ty).bind fun c hc => ?_
    refine (forms_arguments ht hcalls arguments).bind fun args hargs => ?_
    refine (hcalls.construct span hc hargs).map fun o ho => ⟨.inl hc, ?_⟩
    show eng.table.Admits o.cls
    rwa [ho]
  | .field receiver field span => by
    rw [eval]
    refine (forms_eval ht hcalls receiver).bind fun r hr => ?_
    exact forms_fieldValue ht hcalls hr.value field span
  | .call receiver method arguments span => by
    rw [eval]
    refine (forms_eval ht hcalls receiver).bind fun r hr => ?_
    refine (forms_arguments ht hcalls arguments).bind fun args hargs => ?_
    refine (forms_callMethod hcalls hr method hargs span).bind fun v hv => ?_
    cases v with
    | some v => exact .pure (hv v rfl).formed
    | none => exact forms_withClass (v := .null) trivial _ span
  | .cast ty expression _ => by
    rw [eval]
    refine (forms_resolveType ty).bind fun c hc => ?_
    exact (forms_eval ht hcalls expression).map fun v hv => ⟨.inl hc, hv.value⟩
  | .instanceOf expression ty span => by
    rw [eval]
    refine (forms_resolveType ty).bind fun c _ => ?_
    refine (forms_eval ht hcalls expression).bind fun v _ => ?_
    exact forms_typedValue (v := .bool _) trivial span
  | .group expression _ => by
    rw [eval]
    exact forms_eval ht hcalls expression

theorem forms_evalAll (ht : eng.table.Complete) (hcalls : calls.Formed eng) : ∀ es : List Expr,
    eng.Forms (eng.evalAll calls es) fun vs => ∀ v ∈ vs, v.Formed eng.table
  | [] => by
    rw [evalAll]
    exact .pure fun _ hv => absurd hv List.not_mem_nil
  | e :: rest => by
    rw [evalAll]
    refine (forms_eval ht hcalls e).bind fun v hv => ?_
    exact (forms_evalAll ht hcalls rest).map fun vs hvs => List.forall_mem_cons.mpr ⟨hv, hvs⟩

/-- The arguments of a call, evaluated from left to right. -/
theorem forms_arguments (ht : eng.table.Complete) (hcalls : calls.Formed eng) (es : List Expr) :
    eng.Forms (eng.evalAll calls es) fun vs => AreArguments eng.table vs (argumentTypes es vs) :=
  ((forms_evalAll ht hcalls es).and fun _ _ _ h => length_evalAll h).mono fun _ hvs =>
    .ofExpressions hvs.1 hvs.2

end

/-! ## Statements -/

/-- How a statement ended: what it returned, if anything, is formed. -/
def ReturnsFormed (t : ClassTable StandardFn) : Flow StandardFn → Prop
  | .normal => True
  | .returned v => ∀ w, v = some w → w.Formed t

theorem forms_rounds {test : EvalM StandardFn Bool} {body : EvalM StandardFn (Flow StandardFn)}
    {update : EvalM StandardFn Unit} (htest : eng.Forms test fun _ => True)
    (hbody : eng.Forms body (ReturnsFormed eng.table)) (hupdate : eng.Forms update fun _ => True)
    (n : Nat) : eng.Forms (rounds test body update n) (ReturnsFormed eng.table) := by
  induction n with
  | zero => exact .exhausted
  | succ n ih =>
    refine htest.bind fun b _ => ?_
    split
    · refine hbody.bind fun flow hflow => ?_
      cases flow with
      | returned v => exact .pure hflow
      | normal => exact hupdate.bind fun _ _ => ih
    · exact .pure trivial

section Statements

variable (ht : eng.table.Complete) (hcalls : calls.Formed eng)

include ht hcalls

theorem forms_condition (e : Expr) : eng.Forms (eng.condition calls e) fun _ => True := by
  refine (forms_eval ht hcalls e).bind fun v _ => ?_
  split
  · exact .pure trivial
  · exact .invalid _ _

theorem forms_initialValue (c : RuntimeClass StandardFn) (e : Option Expr) :
    eng.Forms (eng.initialValue calls c e) fun v => v.Formed eng.table := by
  cases e with
  | none => exact .pure ((Value.isPlain_defaultFor c).formed _)
  | some e => exact (forms_eval ht hcalls e).map fun _ hv => hv.value

theorem forms_assignName (target : Identifier) (op : AssignOp) (e : Expr) (span : Span) :
    eng.Forms (eng.assignName calls target op e span) fun _ => True := by
  refine (forms_eval ht hcalls e).bind fun v hv => ?_
  have hcurrent : eng.Forms (do return (← eng.lookup target).value) fun _ => True :=
    (forms_lookup target).map fun _ _ => trivial
  exact (forms_combine op hcurrent hv.value span).bind fun value hvalue => forms_store target hvalue

theorem forms_assignField (receiver : Expr) (field : Identifier) (op : AssignOp) (e : Expr)
    (span : Span) : eng.Forms (eng.assignField calls receiver field op e span) fun _ => True := by
  refine (forms_eval ht hcalls receiver).bind fun r _ => ?_
  exact (forms_eval ht hcalls e).bind fun v hv => forms_storeField r.value field op hv.value span

theorem forms_returnValue (e : Option Expr) :
    eng.Forms (eng.returnValue calls e) fun v => ∀ w, v = some w → w.Formed eng.table := by
  cases e with
  | none => exact .pure fun _ hw => nomatch hw
  | some e =>
    refine (forms_eval ht hcalls e).map fun v hv w hw => ?_
    cases hw
    exact hv

end Statements

mutual

/-- A statement leaves a formed machine and returns something formed, if it returns something. -/
theorem forms_exec (ht : eng.table.Complete) (hcalls : calls.Formed eng) : ∀ s : Stmt,
    eng.Forms (eng.exec calls s) (ReturnsFormed eng.table)
  | .localVariable ty name value span => by
    rw [exec]
    refine (forms_tellStatement _).bind fun _ _ => ?_
    refine (forms_resolveType ty).bind fun c hc => ?_
    refine (forms_initialValue ht hcalls c value).bind fun v hv => ?_
    have hplaced : Variable.Placed eng.table ⟨c, v⟩ := ⟨hc, hv⟩
    exact (Forms.modifyScope fun _ hs => hs.define name.name hplaced).bind fun _ _ => .pure trivial
  | .assign target op e span => by
    rw [exec]
    refine (forms_tellStatement _).bind fun _ _ => ?_
    exact (forms_assignName ht hcalls target op e span).bind fun _ _ => .pure trivial
  | .fieldAssign receiver field op e span => by
    rw [exec]
    refine (forms_tellStatement _).bind fun _ _ => ?_
    exact (forms_assignField ht hcalls receiver field op e span).bind fun _ _ => .pure trivial
  | .expression e span => by
    rw [exec]
    refine (forms_tellStatement _).bind fun _ _ => ?_
    exact (forms_eval ht hcalls e).bind fun _ _ => .pure trivial
  | .ifElse test thenBranch none span => by
    rw [exec]
    refine (forms_tellStatement _).bind fun _ _ => ?_
    refine (forms_condition ht hcalls test).bind fun b _ => ?_
    split
    · exact .nested (forms_execBlock ht hcalls thenBranch)
    · exact .pure trivial
  | .ifElse test thenBranch (some elseBranch) span => by
    rw [exec]
    refine (forms_tellStatement _).bind fun _ _ => ?_
    refine (forms_condition ht hcalls test).bind fun b _ => ?_
    split
    · exact .nested (forms_execBlock ht hcalls thenBranch)
    · exact .nested (forms_execBlock ht hcalls elseBranch)
  | .whileLoop test body span => by
    rw [exec]
    refine (forms_tellStatement _).bind fun _ _ => ?_
    exact forms_rounds (forms_condition ht hcalls test) (.nested (forms_execBlock ht hcalls body))
      (.pure trivial) _
  | .forLoop init test update body span => by
    rw [exec]
    refine (forms_tellStatement _).bind fun _ _ => .nested ?_
    refine (forms_exec ht hcalls init).bind fun _ _ => ?_
    exact forms_rounds (forms_condition ht hcalls test) (.nested (forms_execBlock ht hcalls body))
      ((forms_exec ht hcalls update).bind fun _ _ => .pure trivial) _
  | .returns value span => by
    rw [exec]
    refine (forms_tellStatement _).bind fun _ _ => ?_
    exact (forms_returnValue ht hcalls value).map fun _ hv => hv
  | .block body span => by
    rw [exec]
    refine (forms_tellStatement _).bind fun _ _ => ?_
    exact .nested (forms_execBlock ht hcalls body)

theorem forms_execBlock (ht : eng.table.Complete) (hcalls : calls.Formed eng) : ∀ ss : List Stmt,
    eng.Forms (eng.execBlock calls ss) (ReturnsFormed eng.table)
  | [] => by
    rw [execBlock]
    exact .pure trivial
  | s :: rest => by
    rw [execBlock]
    refine (forms_exec ht hcalls s).bind fun flow hflow => ?_
    cases flow with
    | returned v => exact .pure hflow
    | normal => exact forms_execBlock ht hcalls rest

end

end Engine

end Middleweight
