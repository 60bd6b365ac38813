import Middleweight.Proofs.Engine.HostAgreement
import Middleweight.Proofs.Engine.Parts
import Middleweight.Proofs.Syntax.Retyped

/-!
# Evaluation agrees

Operators see nothing of values that could differ, names lead to corresponding things, and so two
expressions whose types mean matching classes have corresponding values.

* `EnginePair.operated_binary`, `EnginePair.operated_unary`, `EnginePair.operated_step` : operators
* `EnginePair.agree_lookup`, `EnginePair.agree_fieldValue`, `EnginePair.agree_store` : names and fields
* `EnginePair.agree_eval` : expressions
-/

namespace Middleweight

variable {F : Type}

namespace EnginePair

variable {P : EnginePair F} {W : Pairing} {g : List String}

/-! ## Operators -/

/-- Results of operators: values that correspond, or errors with one message. -/
inductive Operated (P : EnginePair F) (W : Pairing) : Except (OperatorError F) (Value F) →
    Except (OperatorError F) (Value F) → Prop
  | ok {v v' : Value F} : P.Values W v v' → Operated P W (.ok v) (.ok v')
  | error {e e' : OperatorError F} : e'.message = e.message → Operated P W (.error e) (.error e')

/-- Operators that end alike in both engines agree as computations. -/
theorem agree_operators (span : Span) {x x' : Except (OperatorError F) (Value F)}
    (h : P.Operated W x x') :
    P.Agree W g P.Values (P.left.operators span x) (P.right.operators span x') := by
  cases h with
  | ok hv => exact Agree.pure hv
  | @error e e' he =>
    have hmessage : (InvalidOperation.operator e').message = (InvalidOperation.operator e).message :=
      he
    exact Agree.invalid hmessage span

/-- The messages of operators show their operands. -/
theorem operated_error_binary (op : BinaryOp) {l l' r r' : Value F} (hl : P.Values W l l')
    (hr : P.Values W r r') : P.Operated W (.error (.binary op l r)) (.error (.binary op l' r')) := by
  refine .error ?_
  unfold OperatorError.message
  dsimp only
  rw [hl.shown_eq, hr.shown_eq]

theorem operated_error_unary (op : UnaryOp) {v v' : Value F} (hv : P.Values W v v') :
    P.Operated W (.error (.unary op v)) (.error (.unary op v')) := by
  refine .error ?_
  unfold OperatorError.message
  dsimp only
  rw [hv.shown_eq]

theorem operated_error_step {v v' : Value F} (hv : P.Values W v v') :
    P.Operated W (.error (.step v)) (.error (.step v')) := by
  refine .error ?_
  unfold OperatorError.message
  dsimp only
  rw [hv.shown_eq]

/-- On integers both engines do the same, whatever they make of classes. -/
theorem operated_onInts {op : BinaryOp} {a b : Int64} {x : Except (OperatorError F) (Value F)}
    (h : op.onInts a b = some x) : P.Operated W x x := by
  cases op with
  | div =>
    cases h
    split
    · exact .error rfl
    · exact .ok (.int _)
  | rem =>
    cases h
    split
    · exact .error rfl
    · exact .ok (.int _)
  | lt | gt | le | ge => cases h; exact .ok (.bool _)
  | eq | ne | and | or => cases h
  | _ => cases h; exact .ok (.int _)

theorem values_onFloats {op : BinaryOp} {a b : Float} {v : Value F}
    (h : op.onFloats a b = some v) : P.Values W v v := by
  cases op with
  | add | sub | mul | div | rem => cases h; exact .float _
  | lt | gt | le | ge => cases h; exact .bool _
  | _ => cases h

theorem values_onStrings {op : BinaryOp} {a b : String} {v : Value F}
    (h : op.onStrings a b = some v) : P.Values W v v := by
  cases op with
  | add => cases h; exact .str _
  | lt | gt | le | ge => cases h; exact .bool _
  | _ => cases h

theorem values_onBools {op : BinaryOp} {a b : Bool} {v : Value F}
    (h : op.onBools a b = some v) : P.Values W v v := by
  cases op with
  | and | or => cases h; exact .bool _
  | _ => cases h

/-- Operators other than equality work on values that are the same on both sides, or on none. -/
theorem onValues_cases (op : BinaryOp) {l l' r r' : Value F} (hl : P.Values W l l')
    (hr : P.Values W r r') :
    (op.onValues l r = none ∧ op.onValues l' r' = none) ∨
    (∃ x, op.onValues l r = some x ∧ op.onValues l' r' = some x ∧ P.Operated W x x) := by
  have hoption : ∀ o : Option (Value F), (∀ v, o = some v → P.Values W v v) →
      ((o.map Except.ok = (none : Option (Except (OperatorError F) (Value F))) ∧
        o.map Except.ok = (none : Option (Except (OperatorError F) (Value F)))) ∨
      ∃ x : Except (OperatorError F) (Value F), o.map Except.ok = some x ∧
        o.map Except.ok = some x ∧ P.Operated W x x) := by
    intro o ho
    cases o with
    | none => exact .inl ⟨rfl, rfl⟩
    | some v => exact .inr ⟨.ok v, rfl, rfl, .ok (ho v rfl)⟩
  cases hl with
  | int a =>
    cases hr with
    | int b =>
      cases h : (op.onInts a b : Option (Except (OperatorError F) (Value F))) with
      | none => exact .inl ⟨h, h⟩
      | some x => exact .inr ⟨x, h, h, operated_onInts h⟩
    | _ => exact .inl ⟨rfl, rfl⟩
  | float a =>
    cases hr with
    | float b => exact hoption (op.onFloats a b) fun v => values_onFloats
    | _ => exact .inl ⟨rfl, rfl⟩
  | str a =>
    cases hr with
    | str b => exact hoption (op.onStrings a b) fun v => values_onStrings
    | _ => exact .inl ⟨rfl, rfl⟩
  | bool a =>
    cases hr with
    | bool b => exact hoption (op.onBools a b) fun v => values_onBools
    | _ => exact .inl ⟨rfl, rfl⟩
  | _ => exact .inl ⟨rfl, rfl⟩

/-- An operator on values that stand for each other ends alike. -/
theorem operated_binary (op : BinaryOp) {l l' r r' : Value F} (hl : P.Values W l l')
    (hr : P.Values W r r') : P.Operated W (op.apply l r) (op.apply l' r') := by
  have hother : P.Operated W ((op.onValues l r).getD (.error (.binary op l r)))
      ((op.onValues l' r').getD (.error (.binary op l' r'))) := by
    rcases onValues_cases op hl hr with ⟨h1, h2⟩ | ⟨x, h1, h2, hx⟩
    · rw [h1, h2]
      exact operated_error_binary op hl hr
    · rw [h1, h2]
      exact hx
  cases op with
  | eq =>
    rw [BinaryOp.apply, BinaryOp.apply, hl.equals_eq hr]
    exact .ok (.bool _)
  | ne =>
    rw [BinaryOp.apply, BinaryOp.apply, hl.equals_eq hr]
    exact .ok (.bool _)
  | _ => exact hother

theorem operated_unary (op : UnaryOp) {v v' : Value F} (hv : P.Values W v v') :
    P.Operated W (op.apply v) (op.apply v') := by
  have hnone := fun op => operated_error_unary op hv
  cases op with
  | plus =>
    cases hv with
    | int a => exact .ok (.int a)
    | float x => exact .ok (.float x)
    | _ => exact hnone _
  | minus =>
    cases hv with
    | int a => exact .ok (.int _)
    | float x => exact .ok (.float _)
    | _ => exact hnone _
  | not =>
    cases hv with
    | bool b => exact .ok (.bool _)
    | _ => exact hnone _
  | bitNot =>
    cases hv with
    | int a => exact .ok (.int _)
    | _ => exact hnone _

theorem operated_step (op : StepOp) {v v' : Value F} (hv : P.Values W v v') :
    P.Operated W (op.apply v) (op.apply v') := by
  have hnone := operated_error_step hv
  cases op <;> cases hv with
  | int a => exact .ok (.int _)
  | float x => exact .ok (.float _)
  | _ => exact hnone

/-! ## Values with classes -/

/-- Values that stand for each other get classes that do. -/
theorem agree_typedValue {v v' : Value F} (hv : P.Values W v v') (span : Span) :
    P.Agree W g P.Variables (P.left.typedValue v span) (P.right.typedValue v' span) := by
  have hclass : ∀ (ty : Ty) (w w' : Value F), P.Values W w w' →
      P.Agree W g P.Variables (do return ⟨← P.left.classOf ty span, w⟩)
        (do return ⟨← P.right.classOf ty span, w'⟩) := fun ty w w' hw =>
    Agree.bind (agree_classOf ty span) fun V hV c c' hc => Agree.pure ⟨hc, hw.mono hV⟩
  cases hv with
  | object ho => exact Agree.pure ⟨ho.cls, .object ho⟩
  | cls hc => exact Agree.pure ⟨hc.cls, .cls hc⟩
  | null => exact hclass _ _ _ .null
  | int n => exact hclass _ _ _ (.int n)
  | float x => exact hclass _ _ _ (.float x)
  | bool b => exact hclass _ _ _ (.bool b)
  | str s => exact hclass _ _ _ (.str s)
  | «namespace» path => exact hclass _ _ _ (.namespace path)

theorem values_literal (value : Literal) :
    P.Values W (Engine.literalValue value) (Engine.literalValue value) := by
  cases value with
  | int n => exact .int n
  | float x => exact .float x
  | bool b => exact .bool b
  | string s => exact .str s
  | null => exact .null

/-! ## Names and fields -/

theorem agree_undefinedField {α : Type} {R : Pairing → α → α → Prop} {v v' : Value F}
    (hv : P.Values W v v') (field : Identifier) :
    P.Agree W g R (P.left.undefinedField v field) (P.right.undefinedField v' field) := by
  have howner : ∀ owner owner' : String, owner' = owner →
      P.Agree W g R (P.left.raise (.undefinedVariable (owner ++ "." ++ field.name)) field.span)
        (P.right.raise (.undefinedVariable (owner' ++ "." ++ field.name)) field.span) := by
    rintro owner _ rfl
    exact Agree.raise rfl _
  cases hv with
  | object ho => exact howner _ _ ho.cls.name_eq
  | cls hc => exact howner _ _ (Values.cls (W := W) hc).shown_eq
  | _ => exact howner _ _ rfl

theorem agree_lookupClass (name : Identifier) :
    P.Agree W g P.Variables (P.left.lookupClass name) (P.right.lookupClass name) := by
  refine Agree.bind (agree_staticClass name.name name.span) fun V _ c c' hc => ?_
  rcases rel_elim hc with ⟨rfl, rfl⟩ | ⟨d, d', rfl, rfl, hd⟩
  · rw [P.tables.natives]
    cases P.left.table.natives.namespace? name.name with
    | none => exact Agree.raise rfl _
    | some _ => exact agree_typedValue (.namespace name.name) name.span
  · exact Agree.pure ⟨hd.cls, .cls hd⟩

/-- A name stands for variables that agree. -/
theorem agree_lookup (name : Identifier) :
    P.Agree W g P.Variables (P.left.lookup name) (P.right.lookup name) := by
  refine Agree.bind agree_scope fun V hV s s' ⟨hs, _⟩ => ?_
  by_cases hthis : name.name = "this"
  · rw [if_pos hthis, if_pos hthis]
    rcases rel_elim hs.this? with ⟨h1, h2⟩ | ⟨v, v', h1, h2, hv⟩
    · rw [h1, h2]
      exact Agree.raise rfl _
    · rw [h1, h2]
      exact Agree.pure hv
  · rw [if_neg hthis, if_neg hthis]
    rcases rel_elim (hs.lookup name.name) with ⟨h1, h2⟩ | ⟨v, v', h1, h2, hv⟩
    · rw [h1, h2]
      -- What a name stands for when it is no variable and, so far, no field.
      have hrest : ∀ {U : Pairing} {x x' : Option (Variable F)}, Option.Rel (P.Variables U) x x' →
          P.Agree U g P.Variables (P.left.lookupField name x) (P.right.lookupField name x') := by
        intro U x x' hx
        rcases rel_elim hx with ⟨rfl, rfl⟩ | ⟨v, v', rfl, rfl, hv⟩
        · exact agree_lookupClass name
        · exact Agree.pure hv
      rcases rel_elim hs.instance? with ⟨h3, h4⟩ | ⟨o, o', h3, h4, ho⟩
      · rw [h3, h4]
        exact hrest .none
      · rw [h3, h4]
        exact Agree.bind (agree_field? ho name.name) fun U _ x x' hx => hrest hx
    · rw [h1, h2]
      exact Agree.pure hv

/-- The class that owns a static field is found at the same level of both. -/
theorem staticFieldOwner?_rel {c c' : RuntimeClass F} (hc : P.Classes c c') (name : String)
    {ls ls' : List (Layer F)}
    (hls : List.Forall₂ (Layer.Matches P.left.table.lowering P.bodies) ls ls') :
    Option.Rel (fun a b => P.Classes a.1 b.1 ∧ b.2 = a.2) (Engine.staticFieldOwner? c name ls)
      (Engine.staticFieldOwner? c' name ls') := by
  induction hls with
  | nil => exact .none
  | @cons l l' rest rest' hl hrest ih =>
    have hnative : l'.template.native? = l.template.native? := by
      unfold Template.native?
      rw [hl.template.origin]
    rw [Engine.staticFieldOwner?, Engine.staticFieldOwner?, hnative]
    cases l.template.native?.bind fun c => c.staticField? name with
    | none => exact ih
    | some f => exact .some ⟨⟨hc.isStaticView, hl, hrest⟩, rfl⟩

variable {calls calls' : Calls F}

theorem agree_initStatic [HostFunctions F] (hhost : P.HostRespects)
    (hcalls : P.CallsAgree calls calls') {owner owner' : RuntimeClass F}
    (howner : P.Classes owner owner') (field : NativeField F) (span : Span) :
    P.Agree W g P.Variables (P.left.initStatic calls owner field span)
      (P.right.initStatic calls' owner' field span) := by
  unfold Engine.initStatic
  refine Agree.bind (Agree.types (R := Eq) ?_) fun V hV ty ty' hty => ?_
  · rw [P.tables.lower_eq]
    cases P.left.table.lower [] field.ty with
    | error e => exact .error e
    | ok ty => exact .ok rfl
  · subst hty
    refine Agree.bind (agree_classOf ty span) fun V₁ hV₁ k k' hk => ?_
    have hcall : P.HostCalls V₁ ⟨owner, .null, [], span⟩ ⟨owner', .null, [], span⟩ :=
      ⟨howner, .null, .nil, rfl⟩
    refine Agree.bind (agree_callHost hhost hcalls field.init hcall) fun V₂ hV₂ v v' hv => ?_
    rw [howner.name_eq]
    refine Agree.bind (R := Same) ?_ fun V₃ hV₃ _ _ _ => Agree.pure ⟨hk, hv.mono hV₃⟩
    exact fun _ _ hm => .ok (le_refl _) rfl (hm.withStatic _ ⟨hk, hv⟩)

/-- A static field is read with values that agree, and its initial value is computed alike. -/
theorem agree_staticField [HostFunctions F] (hhost : P.HostRespects)
    (hcalls : P.CallsAgree calls calls') {c c' : RuntimeClass F} (hview : P.Views c c')
    (name : String) (span : Span) :
    P.Agree W g P.Variables (P.left.staticField calls c name span)
      (P.right.staticField calls' c' name span) := by
  have hc := hview.cls
  unfold Engine.staticField
  rcases rel_elim (staticFieldOwner?_rel hc name hc.layers) with
    ⟨h1, h2⟩ | ⟨⟨owner, field⟩, ⟨owner', field'⟩, h1, h2, howner, hfield⟩
  · rw [h1, h2, hc.name_eq]
    exact Agree.raise rfl _
  · rw [h1, h2]
    dsimp only at howner hfield ⊢
    cases hfield
    intro m m' hm
    show P.Outcomes W g P.Variables
      (P.left.staticOr calls owner field span (m.statics.lookup (owner.name, field.name)) m)
      (P.right.staticOr calls' owner' field span (m'.statics.lookup (owner'.name, field.name)) m')
    rw [howner.name_eq]
    have hstatics := hm.statics (owner.name, field.name)
    generalize hread : m.statics.lookup (owner.name, field.name) = x,
      hread' : m'.statics.lookup (owner.name, field.name) = x' at hstatics
    cases hstatics with
    | unread => exact agree_initStatic hhost hcalls howner field span m m' hm
    | read hv => exact .ok (le_refl W) hv hm
    | spare hspare =>
      rcases hcalls.spare span hview.shows h1 hspare.spare hm.remembers_left with
        ⟨hearly, m₁, hinit⟩ | ⟨k, r, hk, hr, hinit⟩
      · rw [show P.left.staticOr calls owner field span none m = _ from hinit]
        exact .left hearly
      · obtain ⟨V, hV, hv, hm₁⟩ := hm.readSpare hspare hk hr
        rw [show P.left.staticOr calls owner field span none m = _ from hinit]
        exact .ok hV hv (hm₁ hread')

/-- A field is read from values that agree. -/
theorem agree_fieldValue [HostFunctions F] (hhost : P.HostRespects) (hcalls : P.CallsAgree calls calls')
    {v v' : Value F} (hv : P.Values W v v') (field : Identifier) (span : Span) :
    P.Agree W g P.Variables (P.left.fieldValue calls v field span)
      (P.right.fieldValue calls' v' field span) := by
  cases hv with
  | «namespace» path =>
    unfold Engine.fieldValue
    dsimp only
    rw [P.tables.natives]
    cases P.left.table.natives.lookup (path ++ "." ++ field.name) with
    | none => exact Agree.raise rfl _
    | some entry =>
      cases entry with
      | «namespace» n => exact agree_typedValue (.namespace _) span
      | cls k =>
        exact Agree.bind (agree_staticView _ span) fun V _ c c' hc => Agree.pure ⟨hc.cls, .cls hc⟩
  | cls hc => exact agree_staticField hhost hcalls hc field.name span
  | object ho =>
    refine Agree.bind (agree_field? ho field.name) fun V hV x x' hx => ?_
    rcases rel_elim hx with ⟨rfl, rfl⟩ | ⟨v, v', rfl, rfl, hv⟩
    · exact agree_undefinedField (.object (ho.mono hV)) field
    · exact Agree.pure hv
  | null => exact Agree.raise rfl _
  | int n => exact agree_undefinedField (.int n) field
  | float x => exact agree_undefinedField (.float x) field
  | bool b => exact agree_undefinedField (.bool b) field
  | str s => exact agree_undefinedField (.str s) field

/-! ## Assignment -/

theorem typeParams_assign {s s₁ : Scope F} {name : String} {v : Value F}
    (h : s.assign name v = some s₁) : s₁.typeParams = s.typeParams := by
  have hlevels : ∀ {ls ks : List (Level F)}, Scope.assignIn name v ls = some ks →
      ks.flatMap Level.generics = ls.flatMap Level.generics := by
    intro ls
    induction ls with
    | nil => intro ks h; cases h
    | cons l rest ih =>
      intro ks h
      rw [Scope.assignIn] at h
      split at h
      · cases h
        rfl
      · obtain ⟨ks', hks, rfl⟩ := Option.map_eq_some_iff.mp h
        rw [List.flatMap_cons, List.flatMap_cons, ih hks]
  unfold Scope.assign at h
  split at h
  · next current outer hin =>
    cases h
    exact congrArg (· ++ s.context.typeParams) (hlevels hin)
  · cases h

/-- Storing in a variable goes to the same place in both. -/
theorem agree_store (target : Identifier) {v v' : Value F} (hv : P.Values W v v') :
    P.Agree W g Same (P.left.store target v) (P.right.store target v') := by
  unfold Engine.store
  by_cases hthis : target.name = "this"
  · rw [if_pos hthis, if_pos hthis]
    exact Agree.invalid rfl _
  · rw [if_neg hthis, if_neg hthis]
    refine Agree.bind agree_scope fun V hV s s' ⟨hs, hw⟩ => ?_
    rcases rel_elim (hs.assign target.name (hv.mono hV)) with ⟨h1, h2⟩ | ⟨s₁, s₁', h1, h2, hs₁⟩
    · rw [h1, h2]
      rcases rel_elim hs.instance? with ⟨h3, h4⟩ | ⟨o, o', h3, h4, ho⟩
      · rw [h3, h4]
        exact Agree.raise rfl _
      · rw [h3, h4]
        refine Agree.bind (agree_setField ho target.name (hv.mono hV)) fun U _ b b' hb => ?_
        cases hb
        cases b with
        | true => exact Agree.pure rfl
        | false => exact Agree.raise rfl _
    · rw [h1, h2]
      refine agree_modifyScope (fun _ => hs₁) fun _ _ => ?_
      rw [typeParams_assign h1]
      exact hw

theorem agree_combine (op : AssignOp) {now now' : EvalM F (Value F)}
    (hnow : P.Agree W g P.Values now now') {v v' : Value F} (hv : P.Values W v v') (span : Span) :
    P.Agree W g P.Values (P.left.combine op now v span) (P.right.combine op now' v' span) := by
  unfold Engine.combine
  cases op.binary? with
  | none => exact Agree.pure hv
  | some binary =>
    exact Agree.bind hnow fun V hV x x' hx =>
      agree_operators span (operated_binary binary hx (hv.mono hV))

/-- Storing in a field goes to objects that stand for each other. -/
theorem agree_storeField {v v' : Value F} (hv : P.Values W v v') (field : Identifier)
    (op : AssignOp) {w w' : Value F} (hw : P.Values W w w') (span : Span) :
    P.Agree W g Same (P.left.storeField v field op w span)
      (P.right.storeField v' field op w' span) := by
  cases hv with
  | @object o o' ho =>
    have hnow : P.Agree W g P.Values (P.left.fieldNow o field) (P.right.fieldNow o' field) := by
      refine Agree.bind (agree_field? ho field.name) fun V hV x x' hx => ?_
      rcases rel_elim hx with ⟨rfl, rfl⟩ | ⟨y, y', rfl, rfl, hy⟩
      · exact agree_undefinedField (.object (ho.mono hV)) field
      · exact Agree.pure hy.value
    refine Agree.bind (agree_combine op hnow hw span) fun V hV x x' hx => ?_
    refine Agree.bind (agree_setField (ho.mono hV) field.name hx) fun U hU b b' hb => ?_
    cases hb
    cases b with
    | true => exact Agree.pure rfl
    | false => exact agree_undefinedField (.object ((ho.mono hV).mono hU)) field
  | null => exact Agree.raise rfl _
  | @cls c c' hc =>
    have hmessage : (InvalidOperation.staticFieldReadOnly (F := F) c'.name field.name).message =
        (InvalidOperation.staticFieldReadOnly (F := F) c.name field.name).message := by
      rw [hc.cls.name_eq]
    exact Agree.invalid hmessage span
  | int n => exact agree_undefinedField (.int n) field
  | float x => exact agree_undefinedField (.float x) field
  | bool b => exact agree_undefinedField (.bool b) field
  | str s => exact agree_undefinedField (.str s) field
  | «namespace» path => exact agree_undefinedField (.namespace path) field

/-! ## Calls -/

/-- A call is directed to the class of the receiver, or to the class that it is. -/
theorem agree_callTarget {v v' : Variable F} (hv : P.Variables W v v') (method : String)
    (span : Span) :
    P.Agree W g (fun _ a b => P.Classes a.1 b.1 ∧ b.2 = a.2)
      (P.left.callTarget v method span) (P.right.callTarget v' method span) := by
  obtain ⟨c, x⟩ := v
  obtain ⟨c', x'⟩ := v'
  obtain ⟨hc, hx⟩ := hv
  change P.Classes c c' at hc
  change P.Values W x x' at hx
  cases hx with
  | null => exact Agree.raise rfl _
  | object ho => exact Agree.pure ⟨ho.cls, rfl⟩
  | cls hk => exact Agree.pure ⟨hk.cls, rfl⟩
  | str s => exact Agree.bind (agree_classOf .string span) fun V _ k k' hk => Agree.pure ⟨hk, rfl⟩
  | int n => exact Agree.pure ⟨hc, rfl⟩
  | float y => exact Agree.pure ⟨hc, rfl⟩
  | bool b => exact Agree.pure ⟨hc, rfl⟩
  | «namespace» path => exact Agree.invalid rfl _

/-- A call with arguments that agree gives results that agree. -/
theorem agree_callMethod [HostFunctions F] (hcalls : P.CallsAgree calls calls') {v v' : Variable F}
    (hv : P.Variables W v v') (method : Identifier) {args args' : List (Variable F)}
    (hargs : List.Forall₂ (P.Variables W) args args') (argTypes : List Ty) (span : Span) :
    P.Agree W g (fun V => Option.Rel (P.Variables V))
      (P.left.callMethod calls v method args argTypes span)
      (P.right.callMethod calls' v' method args' argTypes span) := by
  refine Agree.bind (agree_callTarget hv method.name span) fun V hV ⟨c, b⟩ ⟨c', b'⟩ ⟨hc, hb⟩ => ?_
  cases hb
  refine hcalls.dispatch method.name b argTypes span hc ?_ ?_ (variables_mono hV hargs)
  · cases b with
    | true => exact .null
    | false => exact hv.value.mono hV
  · rintro rfl
    rfl

/-- A test of the class of a value has the same answer. -/
theorem isInstance_eq {v v' : Variable F} (hv : P.Variables W v v') {c c' : RuntimeClass F}
    (hc : P.Classes c c') : P.right.isInstance v' c' = P.left.isInstance v c := by
  have htype := hv.runtimeTy_eq
  unfold Engine.isInstance
  simp only [P.tables.check_eq, hc.asTy_eq, htype]
  have hx := hv.value
  generalize v.value = x, v'.value = x' at hx
  cases hx <;> rfl

/-- Both engines take arguments for the same types. -/
theorem argumentTypes_eq {R : TypeExpr → TypeExpr → Prop} : ∀ {es es' : List Expr}
    {vs vs' : List (Variable F)}, Expr.AllRetyped R es es' → List.Forall₂ (P.Variables W) vs vs' →
    argumentTypes es' vs' = argumentTypes es vs
  | _, _, _, _, .nil, _ => rfl
  | _, _, _, _, .cons _ _, .nil => rfl
  | _, _, _, _, .cons he hes, .cons hv hvs => by
    rw [argumentTypes, argumentTypes, Expr.isNullLiteral_eq_of_retyped he, hv.ty_eq,
      argumentTypes_eq hes hvs]

theorem agree_condition {α : Type} {R : Pairing → α → α → Prop} {v v' : Value F}
    (hv : P.Values W v v') (span : Span) :
    P.Agree W g R (P.left.invalid (.condition v) span) (P.right.invalid (.condition v') span) := by
  refine Agree.invalid ?_ span
  unfold InvalidOperation.message
  dsimp only
  rw [hv.shown_eq]

theorem variables_stepped (before : Bool) {v v' : Variable F} (hv : P.Variables W v v')
    {x x' : Value F} (hx : P.Values W x x') :
    P.Variables W (Engine.stepped before v x) (Engine.stepped before v' x') := by
  refine ⟨hv.cls, ?_⟩
  cases before with
  | true => exact hx
  | false => exact hv.value

/-! ## Expressions -/

variable [HostFunctions F]

mutual

/-- Expressions whose types mean matching classes have corresponding values. -/
theorem agree_eval (hhost : P.HostRespects) (hcalls : P.CallsAgree calls calls') :
    ∀ {e e' : Expr} {W : Pairing}, e.Retyped (P.SameMeaning g) e' →
    P.Agree W g P.Variables (P.left.eval calls e) (P.right.eval calls' e')
  | _, _, W, .literal value span => by
    rw [Engine.eval, Engine.eval]
    exact Agree.bind (agree_classOf _ span) fun V _ c c' hc => Agree.pure ⟨hc, values_literal value⟩
  | _, _, W, .var name => by
    rw [Engine.eval, Engine.eval]
    exact agree_lookup name
  | _, _, W, .binary op span hl hr => by
    rw [Engine.eval, Engine.eval]
    refine Agree.bind (agree_eval hhost hcalls hl) fun V _ l l' hl => ?_
    refine Agree.bind (agree_eval hhost hcalls hr) fun U hU r r' hr => ?_
    refine Agree.bind (agree_operators span (operated_binary op (hl.value.mono hU) hr.value))
      fun _ _ v v' hv => agree_typedValue hv span
  | _, _, W, .unary op span he => by
    rw [Engine.eval, Engine.eval]
    refine Agree.bind (agree_eval hhost hcalls he) fun V _ v v' hv => ?_
    exact Agree.bind (agree_operators span (operated_unary op hv.value))
      fun _ _ v v' hv => agree_typedValue hv span
  | _, _, W, .step op before span ht => by
    cases ht with
    | var name =>
      rw [Engine.eval, Engine.eval]
      refine Agree.bind (agree_lookup name) fun V _ v v' hv => ?_
      refine Agree.bind (agree_operators span (operated_step op hv.value)) fun U hU x x' hx => ?_
      refine Agree.bind (agree_store name hx) fun U' hU' _ _ _ => Agree.pure ?_
      exact variables_stepped before ((hv.mono hU).mono hU') (hx.mono hU')
    | field field _ he =>
      rw [Engine.eval, Engine.eval]
      refine Agree.bind (agree_eval hhost hcalls he) fun V _ r r' hr => ?_
      refine Agree.bind (agree_fieldValue hhost hcalls hr.value field span) fun U hU v v' hv => ?_
      refine Agree.bind (agree_operators span (operated_step op hv.value)) fun U₁ hU₁ x x' hx => ?_
      refine Agree.bind (agree_storeField ((hr.value.mono hU).mono hU₁) field .set hx span)
        fun U₂ hU₂ _ _ _ => Agree.pure ?_
      exact variables_stepped before ((hv.mono hU₁).mono hU₂) (hx.mono hU₂)
    | _ =>
      simp only [Engine.eval]
      exact Agree.invalid rfl _
  | _, _, W, .ternary span hc ha hb => by
    rw [Engine.eval, Engine.eval]
    refine Agree.bind (agree_eval hhost hcalls hc) fun V _ ⟨k, v⟩ ⟨k', v'⟩ ⟨_, hv⟩ => ?_
    change P.Values V v v' at hv
    have hother : P.Agree V g P.Variables (P.left.invalid (.condition v) span)
        (P.right.invalid (.condition v') span) := agree_condition hv span
    cases hv with
    | bool b =>
      cases b with
      | true => exact agree_eval hhost hcalls ha
      | false => exact agree_eval hhost hcalls hb
    | _ => exact hother
  | _, _, W, .new span hty hes => by
    rw [Engine.eval, Engine.eval]
    refine Agree.bind (agree_resolveType hty) fun V _ c c' hc => ?_
    refine Agree.bind (agree_evalAll hhost hcalls hes) fun U _ vs vs' hvs => ?_
    rw [argumentTypes_eq hes hvs]
    exact Agree.bind (hcalls.construct _ span hc hvs) fun _ _ o o' ho => Agree.pure ⟨hc, .object ho⟩
  | _, _, W, .field field span he => by
    rw [Engine.eval, Engine.eval]
    exact Agree.bind (agree_eval hhost hcalls he) fun V _ r r' hr =>
      agree_fieldValue hhost hcalls hr.value field span
  | _, _, W, .call method span he hes => by
    rw [Engine.eval, Engine.eval]
    refine Agree.bind (agree_eval hhost hcalls he) fun V _ r r' hr => ?_
    refine Agree.bind (agree_evalAll hhost hcalls hes) fun U hU vs vs' hvs => ?_
    rw [argumentTypes_eq hes hvs]
    refine Agree.bind (agree_callMethod hcalls (hr.mono hU) method hvs _ span)
      fun U' _ x x' hx => ?_
    rcases rel_elim hx with ⟨rfl, rfl⟩ | ⟨v, v', rfl, rfl, hv⟩
    · exact Agree.bind (agree_classOf .object span) fun _ _ c c' hc => Agree.pure ⟨hc, .null⟩
    · exact Agree.pure hv
  | _, _, W, .cast _ hty he => by
    rw [Engine.eval, Engine.eval]
    refine Agree.bind (agree_resolveType hty) fun V _ c c' hc => ?_
    exact Agree.bind (agree_eval hhost hcalls he) fun U _ v v' hv => Agree.pure ⟨hc, hv.value⟩
  | _, _, W, .instanceOf span hty he => by
    rw [Engine.eval, Engine.eval]
    refine Agree.bind (agree_resolveType hty) fun V _ c c' hc => ?_
    refine Agree.bind (agree_eval hhost hcalls he) fun U _ v v' hv => ?_
    rw [isInstance_eq hv hc]
    exact agree_typedValue (.bool _) span
  | _, _, W, .group _ he => by
    rw [Engine.eval, Engine.eval]
    exact agree_eval hhost hcalls he

theorem agree_evalAll (hhost : P.HostRespects) (hcalls : P.CallsAgree calls calls') :
    ∀ {es es' : List Expr} {W : Pairing}, Expr.AllRetyped (P.SameMeaning g) es es' →
    P.Agree W g (fun V => List.Forall₂ (P.Variables V)) (P.left.evalAll calls es)
      (P.right.evalAll calls' es')
  | _, _, W, .nil => by
    rw [Engine.evalAll, Engine.evalAll]
    exact Agree.pure .nil
  | _, _, W, .cons he hes => by
    rw [Engine.evalAll, Engine.evalAll]
    refine Agree.bind (agree_eval hhost hcalls he) fun V _ v v' hv => ?_
    exact Agree.bind (agree_evalAll hhost hcalls hes) fun U hU vs vs' hvs =>
      Agree.pure (.cons (hv.mono hU) hvs)

end

end EnginePair

end Middleweight
