import Middleweight.Proofs.World.Host

/-!
# Bodies sustain validity

Expressions and statements sustain validity, given that the calls they make do.

* `Engine.sustains_eval` : expressions
* `Engine.sustains_exec` : statements
-/

namespace Middleweight

namespace Engine

variable {eng : Engine StandardFn} {strict : Prop} {W : World StandardFn} {calls : Calls StandardFn}
  {p : Program}

/-! ## Calls of methods -/

/-- The types that arguments have for resolution are ground. -/
theorem allGround_argumentTypes {F : Type} {t : ClassTable F} {W : World F} : ∀ {es : List Expr}
    {vs : List (Variable F)}, (∀ v ∈ vs, v.Passed t W) → Ty.AllGround (argumentTypes es vs) := by
  intro es
  induction es with
  | nil => exact fun _ => Ty.allGround_nil
  | cons e rest ih =>
    intro vs hvs
    cases vs with
    | nil => exact Ty.allGround_nil
    | cons v vs =>
      refine Ty.allGround_cons.mpr ⟨?_, ih fun w hw => hvs w (List.mem_cons_of_mem _ hw)⟩
      split
      · exact Ty.isGround_cls.mpr Ty.allGround_nil
      · exact (hvs v List.mem_cons_self).cls.isGround

/-- The class whose methods a call looks at, and whether it looks at static ones. -/
structure IsTarget {F : Type} (t : ClassTable F) (strict : Prop) (receiver : Value F)
    (target : RuntimeClass F × Bool) : Prop where
  cls : t.Offers target.1
  made : strict → t.Makes target.1 ∨ target.2 = true
  receiver : target.2 = false → ∀ o, receiver = .object o → o.cls = target.1

/--
A call of a method that the receiver has, with arguments in order, is one that `Sustained` speaks
of.
-/
theorem IsTarget.isCall {F : Type} {t : ClassTable F} {strict : Prop} {W : World F}
    {receiver : Value F} {c : RuntimeClass F} {isStatic : Bool}
    (h : IsTarget t strict receiver (c, isStatic)) (hr : receiver.Valid t W)
    {args : List (Variable F)} (hargs : ∀ v ∈ args, v.Passed t W) {argTypes : List Ty}
    (htypes : Ty.AllGround argTypes) :
    IsCall t strict W c (if isStatic then .null else receiver) isStatic args argTypes := by
  refine ⟨h.cls, h.made, ?_, ?_, hargs, htypes⟩
  · cases isStatic with
    | true => trivial
    | false => exact hr
  · cases isStatic with
    | true => exact fun o ho => nomatch ho
    | false => exact h.receiver rfl

/--
The class a call looks its method up in: that of the instance, the class the receiver names, or for
other values the class they are declared at or belong to.
-/
theorem sustains_callTarget (ht : eng.table.Closed) {receiver : Variable StandardFn}
    (hr : receiver.Valid eng.table strict W) (method : String) (span : Span) :
    eng.Sustains strict W (eng.callTarget receiver method span)
      fun _ target => IsTarget eng.table strict receiver.value target := by
  obtain ⟨c, v⟩ := receiver
  obtain ⟨hcls, hvalue⟩ := hr
  -- A value that is neither an object nor a class is looked at through its declared class.
  have hdeclared : (∀ o, v ≠ .object o) → (strict → ¬ v.IsClass) →
      IsTarget eng.table strict v (c, false) := fun hobject hclass =>
    ⟨hcls.imp_right And.left,
      fun hs => .inl (hcls.resolve_right fun hshows => hclass hs (hshows.2 hs)),
      fun _ o ho => absurd ho (hobject o)⟩
  cases v with
  | null => exact .raise _ fun _ => rfl
  | object o =>
    refine .assuming fun hobjects => .pure ⟨(hobjects o hvalue).offers, fun hs =>
      .inl ((hobjects o hvalue).makes hs), fun _ o' ho' => ?_⟩
    cases ho'
    rfl
  | cls d => exact .pure ⟨hvalue, fun _ => .inr rfl, fun h => nomatch h⟩
  | str s =>
    have hground : Ty.string.IsGround := Ty.isGround_cls.mpr Ty.allGround_nil
    exact (sustains_classOf ht (fun _ => Ty.firstUnbound?_of_isGround hground) span).map
      fun _ _ _ hd => ⟨.inl hd.1, fun _ => .inl hd.1, fun _ o ho => nomatch ho⟩
  | int n => exact .pure (hdeclared (fun _ h => nomatch h) fun _ h => h)
  | float x => exact .pure (hdeclared (fun _ h => nomatch h) fun _ h => h)
  | bool b => exact .pure (hdeclared (fun _ h => nomatch h) fun _ h => h)
  | «namespace» path => exact .invalid _ _

/-- A call of a method ends with a value in order. -/
theorem sustains_callMethod (ht : eng.table.Closed) (hcalls : calls.Sustained eng strict)
    {receiver : Variable StandardFn} (hr : receiver.Valid eng.table strict W) (method : Identifier)
    {args : List (Variable StandardFn)} (hargs : ∀ v ∈ args, v.Passed eng.table W)
    {argTypes : List Ty} (htypes : Ty.AllGround argTypes) (span : Span) :
    eng.Sustains strict W (eng.callMethod calls receiver method args argTypes span)
      fun V r => ∀ v, r = some v → v.Stored eng.table V := by
  refine (sustains_callTarget ht hr method.name span).bind fun V target hV htarget => ?_
  exact hcalls.dispatch _ _
    (htarget.isCall (hr.value.mono hV) (fun v hv => (hargs v hv).mono hV) htypes)

/--
A field is read from the instance, or from the class the receiver names, which may have to be
initialised first.
-/
theorem sustains_fieldValue (h : ClassTable.build p .standard = .ok eng.table)
    (hcalls : calls.Sustained eng strict) {receiver : Value StandardFn}
    (hr : receiver.Valid eng.table W) (field : Identifier) (span : Span) :
    eng.Sustains strict W (eng.fieldValue calls receiver field span)
      fun V v => v.Valid eng.table strict V := by
  have ht := ClassTable.closed_of_build h
  cases receiver with
  | «namespace» path =>
    unfold fieldValue
    dsimp only
    split
    · exact sustains_typedValue ht (v := .namespace (path ++ "." ++ field.name)) trivial _
    · exact (sustains_staticView _ span).map fun V c _ hc =>
        ⟨.inr ⟨hc, fun _ => trivial⟩, .inr hc⟩
    · exact .raise _ fun _ => rfl
  | cls c => exact (sustains_staticField h hcalls hr _ span).mono fun _ _ _ hv => hv.valid
  | object o =>
    refine (sustains_field? hr field.name).bind fun V v _ hv => ?_
    cases v with
    | some v => exact .pure (hv v rfl).valid
    | none => exact sustains_undefinedField _ _
  | null => exact .raise _ fun _ => rfl
  | int n => exact sustains_undefinedField (.int n) field
  | float x => exact sustains_undefinedField (.float x) field
  | bool b => exact sustains_undefinedField (.bool b) field
  | str s => exact sustains_undefinedField (.str s) field

/-! ## Expressions -/

/-- A step leaves the declared class as it is; what can be stepped is no class. -/
theorem valid_stepped {op : StepOp} (before : Bool) {current : Variable StandardFn}
    (hv : current.Valid eng.table strict W) {next : Value StandardFn}
    (hnext : op.apply current.value = .ok next) :
    (stepped before current next).Valid eng.table strict W where
  cls := by
    refine hv.cls.imp_right fun hshows => ⟨hshows.1, fun hs => ?_⟩
    have hclass := hshows.2 hs
    cases hvalue : current.value with
    | cls c =>
      rw [hvalue] at hnext
      cases op <;> cases hnext
    | _ =>
      rw [hvalue] at hclass
      exact hclass.elim
  value := by
    cases before with
    | true => exact (StepOp.isPlain_apply hnext).valid _ _
    | false => exact hv.value

mutual

/-- An expression evaluates to something valid. -/
theorem sustains_eval (h : ClassTable.build p .standard = .ok eng.table)
    (hcalls : calls.Sustained eng strict) : ∀ (e : Expr) {W : World StandardFn},
    eng.Sustains strict W (eng.eval calls e)
      fun V v => v.Valid eng.table strict V
  | .literal value span, W => by
    rw [eval]
    have hplain : (literalValue value : Value StandardFn).IsPlain := by cases value <;> trivial
    have hground : value.ty.IsGround := by
      cases value <;> exact Ty.isGround_cls.mpr Ty.allGround_nil
    exact sustains_withClass (ClassTable.closed_of_build h) hplain hground span
  | .var name, W => by
    rw [eval]
    exact sustains_lookup (ClassTable.closed_of_build h) name
  | .binary lhs op rhs span, W => by
    rw [eval]
    refine (sustains_eval h hcalls lhs).bind fun V l _ _ => ?_
    refine (sustains_eval h hcalls rhs).bind fun U r _ _ => ?_
    refine (Sustains.operators (Q := fun _ v => v.IsPlain) span
      fun v hv => BinaryOp.isPlain_apply hv).bind fun T v _ hv => ?_
    exact sustains_typedValue (ClassTable.closed_of_build h) (hv.valid _ _) span
  | .unary op operand span, W => by
    rw [eval]
    refine (sustains_eval h hcalls operand).bind fun V l _ _ => ?_
    refine (Sustains.operators (Q := fun _ v => v.IsPlain) span
      fun v hv => UnaryOp.isPlain_apply hv).bind fun T v _ hv => ?_
    exact sustains_typedValue (ClassTable.closed_of_build h) (hv.valid _ _) span
  | .step op before (.var name) span, W => by
    rw [eval]
    refine (sustains_lookup (ClassTable.closed_of_build h) name).bind fun V current _ hc => ?_
    refine (Sustains.operators (Q := fun _ v => op.apply current.value = .ok v) span
      fun v hv => hv).bind fun U next hU hnext => ?_
    refine (sustains_store name ((StepOp.isPlain_apply hnext).valid _ _)).bind fun T _ hT _ => ?_
    exact .pure (valid_stepped before (hc.mono (hU.trans hT)) hnext)
  | .step op before (.field receiver field _) span, W => by
    rw [eval]
    refine (sustains_eval h hcalls receiver).bind fun V r _ hr => ?_
    refine (sustains_fieldValue h hcalls hr.value field span).bind fun U current hU hc => ?_
    refine (Sustains.operators (Q := fun _ v => op.apply current.value = .ok v) span
      fun v hv => hv).bind fun T next hT hnext => ?_
    refine (sustains_storeField (hr.value.mono (hU.trans hT)) field .set
      ((StepOp.isPlain_apply hnext).valid _ _) span).bind fun S _ hS _ => ?_
    exact .pure (valid_stepped before (hc.mono (hT.trans hS)) hnext)
  | .step op before (.literal _ _) span, W => by simp only [eval]; exact .invalid _ _
  | .step op before (.binary _ _ _ _) span, W => by simp only [eval]; exact .invalid _ _
  | .step op before (.unary _ _ _) span, W => by simp only [eval]; exact .invalid _ _
  | .step op before (.step _ _ _ _) span, W => by simp only [eval]; exact .invalid _ _
  | .step op before (.ternary _ _ _ _) span, W => by simp only [eval]; exact .invalid _ _
  | .step op before (.new _ _ _) span, W => by simp only [eval]; exact .invalid _ _
  | .step op before (.call _ _ _ _) span, W => by simp only [eval]; exact .invalid _ _
  | .step op before (.cast _ _ _) span, W => by simp only [eval]; exact .invalid _ _
  | .step op before (.instanceOf _ _ _) span, W => by simp only [eval]; exact .invalid _ _
  | .step op before (.group _ _) span, W => by simp only [eval]; exact .invalid _ _
  | .ternary condition thenValue elseValue span, W => by
    rw [eval]
    refine (sustains_eval h hcalls condition).bind fun V v _ _ => ?_
    split
    · exact sustains_eval h hcalls thenValue
    · exact sustains_eval h hcalls elseValue
    · exact .invalid _ _
  | .new ty arguments span, W => by
    rw [eval]
    refine (sustains_resolveType (ClassTable.closed_of_build h) ty).bind fun V c _ hc => ?_
    refine (sustains_evalAll h hcalls arguments).bind fun U args _ hargs => ?_
    have hpassed : ∀ v ∈ args, v.Passed eng.table U := fun v hv => (hargs v hv).passed
    refine (hcalls.construct span ⟨.inl hc, hpassed, allGround_argumentTypes hpassed⟩).map
      fun T o _ ho => ⟨.inl hc, ho.1⟩
  | .field receiver field span, W => by
    rw [eval]
    refine (sustains_eval h hcalls receiver).bind fun V r _ hr => ?_
    exact sustains_fieldValue h hcalls hr.value field span
  | .call receiver method arguments span, W => by
    rw [eval]
    refine (sustains_eval h hcalls receiver).bind fun V r _ hr => ?_
    refine (sustains_evalAll h hcalls arguments).bind fun U args hU hargs => ?_
    have hpassed : ∀ v ∈ args, v.Passed eng.table U := fun v hv => (hargs v hv).passed
    refine (sustains_callMethod (ClassTable.closed_of_build h) hcalls (hr.mono hU) method hpassed
      (allGround_argumentTypes hpassed) span).bind fun T v _ hv => ?_
    cases v with
    | some v => exact .pure (hv v rfl).valid
    | none =>
      exact sustains_withClass (ClassTable.closed_of_build h) (v := .null) trivial
        (Ty.isGround_cls.mpr Ty.allGround_nil) span
  | .cast ty expression _, W => by
    rw [eval]
    refine (sustains_resolveType (ClassTable.closed_of_build h) ty).bind fun V c _ hc => ?_
    exact (sustains_eval h hcalls expression).map fun U v _ hv => ⟨.inl hc, hv.value⟩
  | .instanceOf expression ty span, W => by
    rw [eval]
    refine (sustains_resolveType (ClassTable.closed_of_build h) ty).bind fun V c _ _ => ?_
    refine (sustains_eval h hcalls expression).bind fun U v _ _ => ?_
    exact sustains_typedValue (ClassTable.closed_of_build h) (v := .bool _) trivial span
  | .group expression _, W => by
    rw [eval]
    exact sustains_eval h hcalls expression

theorem sustains_evalAll (h : ClassTable.build p .standard = .ok eng.table)
    (hcalls : calls.Sustained eng strict) : ∀ (es : List Expr) {W : World StandardFn},
    eng.Sustains strict W (eng.evalAll calls es)
      fun V vs => ∀ v ∈ vs, v.Valid eng.table strict V
  | [], W => by
    rw [evalAll]
    exact .pure fun _ hv => absurd hv List.not_mem_nil
  | e :: rest, W => by
    rw [evalAll]
    refine (sustains_eval h hcalls e).bind fun V v _ hv => ?_
    refine (sustains_evalAll h hcalls rest).map fun U vs hU hvs w hw => ?_
    rcases List.mem_cons.mp hw with rfl | hw
    · exact hv.mono hU
    · exact hvs w hw

end

/-! ## Statements -/

/-- How a statement ended: what it returned, if anything, is valid. -/
def ReturnsValid (t : ClassTable StandardFn) (strict : Prop) (W : World StandardFn) :
    Flow StandardFn → Prop
  | .normal => True
  | .returned v => ∀ w, v = some w → w.Valid t strict W

/-- A loop sustains what its test, its body and its update do: by induction on the rounds left. -/
theorem sustains_rounds {test : EvalM StandardFn Bool} {body : EvalM StandardFn (Flow StandardFn)}
    {update : EvalM StandardFn Unit}
    (htest : ∀ {V}, eng.Sustains strict V test fun _ _ => True)
    (hbody : ∀ {V}, eng.Sustains strict V body (ReturnsValid eng.table strict))
    (hupdate : ∀ {V}, eng.Sustains strict V update fun _ _ => True) (n : Nat) :
    ∀ {W}, eng.Sustains strict W (rounds test body update n) (ReturnsValid eng.table strict) := by
  induction n with
  | zero => exact .exhausted
  | succ n ih =>
    refine htest.bind fun V b _ _ => ?_
    split
    · refine hbody.bind fun U flow _ hflow => ?_
      cases flow with
      | returned v => exact .pure hflow
      | normal => exact hupdate.bind fun _ _ _ _ => ih
    · exact .pure trivial

section Statements

variable (h : ClassTable.build p .standard = .ok eng.table) (hcalls : calls.Sustained eng strict)

include h hcalls

theorem sustains_condition (e : Expr) :
    eng.Sustains strict W (eng.condition calls e) fun _ _ => True := by
  refine (sustains_eval h hcalls e).bind fun V v _ _ => ?_
  split
  · exact .pure trivial
  · exact .invalid _ _

theorem sustains_initialValue (c : RuntimeClass StandardFn) (e : Option Expr) :
    eng.Sustains strict W (eng.initialValue calls c e) fun V v => v.Valid eng.table V := by
  cases e with
  | none => exact .pure (Value.valid_defaultFor c)
  | some e => exact (sustains_eval h hcalls e).map fun _ _ _ hv => hv.value

theorem sustains_assignName (target : Identifier) (op : AssignOp) (e : Expr) (span : Span) :
    eng.Sustains strict W (eng.assignName calls target op e span) fun _ _ => True := by
  refine (sustains_eval h hcalls e).bind fun V v _ hv => ?_
  have hcurrent : eng.Sustains strict V (do return (← eng.lookup target).value) fun _ _ => True :=
    (sustains_lookup (ClassTable.closed_of_build h) target).map fun _ _ _ _ => trivial
  exact (sustains_combine op hcurrent hv.value span).bind fun U value _ hvalue =>
    sustains_store target hvalue

theorem sustains_assignField (receiver : Expr) (field : Identifier) (op : AssignOp) (e : Expr)
    (span : Span) :
    eng.Sustains strict W (eng.assignField calls receiver field op e span) fun _ _ => True := by
  refine (sustains_eval h hcalls receiver).bind fun V r _ hr => ?_
  refine (sustains_eval h hcalls e).bind fun U v hU hv => ?_
  exact sustains_storeField (hr.value.mono hU) field op hv.value span

theorem sustains_returnValue (e : Option Expr) :
    eng.Sustains strict W (eng.returnValue calls e)
      fun V v => ∀ w, v = some w → w.Valid eng.table strict V := by
  cases e with
  | none => exact .pure fun _ hw => nomatch hw
  | some e =>
    refine (sustains_eval h hcalls e).map fun V v _ hv w hw => ?_
    cases hw
    exact hv

end Statements

mutual

/-- A statement returns something valid, if it returns something. -/
theorem sustains_exec (h : ClassTable.build p .standard = .ok eng.table)
    (hcalls : calls.Sustained eng strict) : ∀ (s : Stmt) {W : World StandardFn},
    eng.Sustains strict W (eng.exec calls s) (ReturnsValid eng.table strict)
  | .localVariable ty name value span, W => by
    rw [exec]
    refine (sustains_tellStatement _).bind fun V _ _ _ => ?_
    refine (sustains_resolveType (ClassTable.closed_of_build h) ty).bind fun U c _ hc => ?_
    refine (sustains_initialValue h hcalls c value).bind fun T v _ hv => ?_
    exact (sustains_define name.name ⟨hc, hv⟩).bind fun _ _ _ _ => .pure trivial
  | .assign target op e span, W => by
    rw [exec]
    refine (sustains_tellStatement _).bind fun V _ _ _ => ?_
    exact (sustains_assignName h hcalls target op e span).bind fun _ _ _ _ => .pure trivial
  | .fieldAssign receiver field op e span, W => by
    rw [exec]
    refine (sustains_tellStatement _).bind fun V _ _ _ => ?_
    exact (sustains_assignField h hcalls receiver field op e span).bind fun _ _ _ _ =>
      .pure trivial
  | .expression e span, W => by
    rw [exec]
    refine (sustains_tellStatement _).bind fun V _ _ _ => ?_
    exact (sustains_eval h hcalls e).bind fun _ _ _ _ => .pure trivial
  | .ifElse test thenBranch none span, W => by
    rw [exec]
    refine (sustains_tellStatement _).bind fun V _ _ _ => ?_
    refine (sustains_condition h hcalls test).bind fun U b _ _ => ?_
    split
    · exact .nested (sustains_execBlock h hcalls thenBranch)
    · exact .pure trivial
  | .ifElse test thenBranch (some elseBranch) span, W => by
    rw [exec]
    refine (sustains_tellStatement _).bind fun V _ _ _ => ?_
    refine (sustains_condition h hcalls test).bind fun U b _ _ => ?_
    split
    · exact .nested (sustains_execBlock h hcalls thenBranch)
    · exact .nested (sustains_execBlock h hcalls elseBranch)
  | .whileLoop test body span, W => by
    rw [exec]
    refine (sustains_tellStatement _).bind fun V _ _ _ => ?_
    exact sustains_rounds (sustains_condition h hcalls test)
      (.nested (sustains_execBlock h hcalls body)) (.pure trivial) _
  | .forLoop init test update body span, W => by
    rw [exec]
    refine (sustains_tellStatement _).bind fun V _ _ _ => .nested ?_
    refine (sustains_exec h hcalls init).bind fun U _ _ _ => ?_
    exact sustains_rounds (sustains_condition h hcalls test)
      (.nested (sustains_execBlock h hcalls body))
      ((sustains_exec h hcalls update).bind fun _ _ _ _ => .pure trivial) _
  | .returns value span, W => by
    rw [exec]
    refine (sustains_tellStatement _).bind fun V _ _ _ => ?_
    exact (sustains_returnValue h hcalls value).map fun _ _ _ hv => hv
  | .block body span, W => by
    rw [exec]
    refine (sustains_tellStatement _).bind fun V _ _ _ => ?_
    exact .nested (sustains_execBlock h hcalls body)

theorem sustains_execBlock (h : ClassTable.build p .standard = .ok eng.table)
    (hcalls : calls.Sustained eng strict) : ∀ (ss : List Stmt) {W : World StandardFn},
    eng.Sustains strict W (eng.execBlock calls ss) (ReturnsValid eng.table strict)
  | [], W => by
    rw [execBlock]
    exact .pure trivial
  | s :: rest, W => by
    rw [execBlock]
    refine (sustains_exec h hcalls s).bind fun V flow _ hflow => ?_
    cases flow with
    | returned v => exact .pure hflow
    | normal => exact sustains_execBlock h hcalls rest

end

end Engine

end Middleweight
