import Middleweight.Proofs.Engine.Safety

/-!
# Kinds of results

An operator that allows its operands gives a value of the kind that its rule names. So does a
function of the standard library that makes no objects: whatever it is called with, it gives a value
of the kind it declares, or fails with a message or at `null`.

* `BinaryOp.apply_sound`, `UnaryOp.apply_sound` : operators
* `StandardFn.plain_perform` : functions of the standard library
* `Engine.keeps_runHost` : carrying such a function out
-/

namespace Middleweight

variable {F : Type} {t : ClassTable F}

/-! ## Values of simple types -/

/-- The type of a kind is a class as which values of that kind only may pass. -/
theorem Kind.eq_of_mem_names {k k' : Kind} (h : k'.typeName ∈ k.names) : k' = k := by
  revert h
  cases k <;> cases k' <;> decide

theorem Value.Fits.null_or_kind {v : Value F} {k : Kind} (h : v.Fits t k.ty) :
    v = .null ∨ v.HasKind t k := by
  generalize hty : k.ty = ty at h
  cases h with
  | null => exact .inl rfl
  | kind args hk hname =>
    cases hty
    cases Kind.eq_of_mem_names hname
    exact .inr hk

theorem Value.HasKind.unique {v : Value F} {k k' : Kind} (h : v.HasKind t k)
    (h' : v.HasKind t k') : k = k' := by
  cases h <;> cases h' <;> rfl

/-! ## Binary operators -/

namespace BinaryOp

/-- The kind of the result on operands of a kind. -/
def resultKind (op : BinaryOp) (k : Kind) : Kind :=
  if op.rule.result.isSome then .boolean else k

theorem resultType_eq (op : BinaryOp) (k : Kind) :
    op.rule.resultType k.typeName = (op.resultKind k).ty := by
  cases op <;> rfl

/-- The operands of an operator are objects of any kind, or of one kind. -/
theorem operands_cases {op : BinaryOp} {x : String} (hx : x ∈ op.rule.operands) :
    op.rule.result = some Ty.booleanName ∨ ∃ k : Kind, x = k.typeName := by
  have h : ∀ x ∈ op.rule.operands, op.rule.result = some Ty.booleanName ∨
      x ∈ [Kind.int.typeName, Kind.float.typeName, Kind.boolean.typeName, Kind.string.typeName] := by
    cases op <;> decide
  refine (h x hx).imp_right fun hm => ?_
  simp only [List.mem_cons, List.not_mem_nil, or_false] at hm
  rcases hm with rfl | rfl | rfl | rfl
  · exact ⟨.int, rfl⟩
  · exact ⟨.float, rfl⟩
  · exact ⟨.boolean, rfl⟩
  · exact ⟨.string, rfl⟩

theorem hasKind_of_onInts {op : BinaryOp} {a b : Int64} {v : Value F}
    (h : op.onInts a b = some (.ok v)) : v.HasKind t (op.resultKind .int) := by
  cases op with
  | div =>
    simp only [onInts, Option.some.injEq] at h
    split at h
    · cases h
    · cases h
      exact .int _
  | rem =>
    simp only [onInts, Option.some.injEq] at h
    split at h
    · cases h
    · cases h
      exact .int _
  | _ => cases h <;> constructor

theorem hasKind_of_onFloats {op : BinaryOp} {a b : Float} {v : Value F}
    (h : op.onFloats a b = some v) : v.HasKind t (op.resultKind .float) := by
  cases op <;> cases h <;> constructor

theorem hasKind_of_onStrings {op : BinaryOp} {a b : String} {v : Value F}
    (h : op.onStrings a b = some v) : v.HasKind t (op.resultKind .string) := by
  cases op <;> cases h <;> constructor

theorem hasKind_of_onBools {op : BinaryOp} {a b : Bool} {v : Value F}
    (h : op.onBools a b = some v) : v.HasKind t (op.resultKind .boolean) := by
  cases op <;> cases h <;> constructor

/-- What an operator gives on values of one kind. -/
theorem hasKind_of_onValues {op : BinaryOp} {l r v : Value F}
    (h : op.onValues l r = some (.ok v)) :
    ∃ k, l.HasKind t k ∧ v.HasKind t (op.resultKind k) := by
  unfold onValues at h
  split at h
  · exact ⟨.int, .int _, hasKind_of_onInts h⟩
  · obtain ⟨w, hw, heq⟩ := Option.map_eq_some_iff.mp h
    cases heq
    exact ⟨.float, .float _, hasKind_of_onFloats hw⟩
  · obtain ⟨w, hw, heq⟩ := Option.map_eq_some_iff.mp h
    cases heq
    exact ⟨.string, .str _, hasKind_of_onStrings hw⟩
  · obtain ⟨w, hw, heq⟩ := Option.map_eq_some_iff.mp h
    cases heq
    exact ⟨.boolean, .bool _, hasKind_of_onBools hw⟩
  · cases h

/-- Values are compared, or they are of one kind. -/
theorem apply_ok {op : BinaryOp} {l r v : Value F} (h : op.apply l r = .ok v) :
    (op.rule.result.isSome = true ∧ ∃ b, v = .bool b) ∨ op.onValues l r = some (.ok v) := by
  have hvalues : (op.onValues l r).getD (.error (.binary op l r)) = .ok v →
      op.onValues l r = some (.ok v) := by
    cases op.onValues l r with
    | none => intro h; cases h
    | some x => intro h; exact congrArg some h
  unfold apply at h
  split at h
  · cases h
    exact .inl ⟨rfl, _, rfl⟩
  · cases h
    exact .inl ⟨rfl, _, rfl⟩
  · exact .inr (hvalues h)

/-- An operator that allows its operands gives a value of the type that its rule names. -/
theorem apply_sound {op : BinaryOp} {x : String} {l r v : Value F} (hx : x ∈ op.rule.operands)
    (hl : l.Fits t (.named x)) (h : op.apply l r = .ok v) :
    ∃ k, v.HasKind t k ∧ op.rule.resultType x = k.ty := by
  have hboolean : op.rule.result = some Ty.booleanName →
      op.rule.resultType x = Kind.boolean.ty := by
    intro hr
    rw [OperatorRule.resultType, hr]
    rfl
  rcases operands_cases hx with hr | ⟨k, rfl⟩
  · refine ⟨.boolean, ?_, hboolean hr⟩
    rcases apply_ok h with ⟨-, b, rfl⟩ | hvalues
    · exact .bool b
    · obtain ⟨k, -, hv⟩ := hasKind_of_onValues (t := t) hvalues
      rwa [resultKind, hr] at hv
  · refine ⟨op.resultKind k, ?_, resultType_eq op k⟩
    rcases apply_ok h with ⟨hr, b, rfl⟩ | hvalues
    · rw [resultKind, if_pos hr]
      exact .bool b
    · obtain ⟨k', hk', hv⟩ := hasKind_of_onValues (t := t) hvalues
      rcases hl.null_or_kind with rfl | hk
      · cases hk'
      · exact hk'.unique hk ▸ hv

end BinaryOp

/-! ## Unary operators and steps -/

/-- A unary operator keeps the kind of its operand. -/
theorem UnaryOp.hasKind_of_apply {op : UnaryOp} {v w : Value F} (h : op.apply v = .ok w) :
    ∃ k, v.HasKind t k ∧ w.HasKind t k := by
  unfold apply at h
  split at h
  · cases h; exact ⟨.int, .int _, .int _⟩
  · cases h; exact ⟨.float, .float _, .float _⟩
  · cases h; exact ⟨.int, .int _, .int _⟩
  · cases h; exact ⟨.float, .float _, .float _⟩
  · cases h; exact ⟨.boolean, .bool _, .bool _⟩
  · cases h; exact ⟨.int, .int _, .int _⟩
  · cases h

theorem UnaryOp.operands_kind {op : UnaryOp} {x : String} (hx : x ∈ op.rule.operands) :
    ∃ k : Kind, x = k.typeName ∧ op.rule.resultType x = k.ty := by
  have h : ∀ x ∈ op.rule.operands, x ∈ [Kind.int.typeName, Kind.float.typeName,
      Kind.boolean.typeName] ∧ op.rule.result = none := by
    cases op <;> decide
  obtain ⟨hm, hr⟩ := h x hx
  simp only [List.mem_cons, List.not_mem_nil, or_false] at hm
  rw [OperatorRule.resultType, hr]
  rcases hm with rfl | rfl | rfl
  · exact ⟨.int, rfl, rfl⟩
  · exact ⟨.float, rfl, rfl⟩
  · exact ⟨.boolean, rfl, rfl⟩

/-- A unary operator that allows its operand gives a value of the type that its rule names. -/
theorem UnaryOp.apply_sound {op : UnaryOp} {x : String} {v w : Value F}
    (hx : x ∈ op.rule.operands) (hv : v.Fits t (.named x)) (h : op.apply v = .ok w) :
    ∃ k, w.HasKind t k ∧ op.rule.resultType x = k.ty := by
  obtain ⟨k, rfl, hty⟩ := operands_kind hx
  obtain ⟨k', hk', hw⟩ := hasKind_of_apply (t := t) h
  rcases hv.null_or_kind with rfl | hk
  · cases hk'
  · exact ⟨k, hk'.unique hk ▸ hw, hty⟩

/-- A step keeps the kind of its value, which is a number. -/
theorem StepOp.hasKind_of_apply {op : StepOp} {v w : Value F} (h : op.apply v = .ok w) :
    ∃ k, (k = .int ∨ k = .float) ∧ v.HasKind t k ∧ w.HasKind t k := by
  unfold apply at h
  split at h
  · cases h; exact ⟨.int, .inl rfl, .int _, .int _⟩
  · cases h; exact ⟨.int, .inl rfl, .int _, .int _⟩
  · cases h; exact ⟨.float, .inr rfl, .float _, .float _⟩
  · cases h; exact ⟨.float, .inr rfl, .float _, .float _⟩
  · cases h

/-! ## Programs of the host that make nothing -/

/-- A program of the host that writes at most, and whose results have a property. -/
inductive HostProgram.Plain {α : Type} (P : α → Prop) : HostProgram F α → Prop
  | done {a : α} : P a → Plain P (.done a)
  | fail (fault : HostFault) : Plain P (.fail fault)
  | write (text : String) {next : HostProgram F α} : Plain P next → Plain P (.write text next)

namespace HostProgram.Plain

variable {α β : Type} {P : α → Prop} {Q : β → Prop}

theorem bind {x : HostProgram F α} (hx : x.Plain P) {f : α → HostProgram F β}
    (hf : ∀ a, P a → (f a).Plain Q) : (x >>= f).Plain Q := by
  show (x.bind f).Plain Q
  induction hx with
  | done ha => exact hf _ ha
  | fail fault => exact .fail fault
  | write text _ ih => exact .write text ih

end HostProgram.Plain

namespace HostCall

open HostProgram

variable (call : HostCall F)

theorem plain_arg (i : Nat) : (call.arg i).Plain fun _ => True := by
  unfold arg
  split
  · exact .done trivial
  · exact .fail _

theorem plain_intArg (i : Nat) : (call.intArg i).Plain fun _ => True :=
  (call.plain_arg i).bind fun v _ => by
    split
    · exact .done trivial
    · exact .fail _

theorem plain_floatArg (i : Nat) : (call.floatArg i).Plain fun _ => True :=
  (call.plain_arg i).bind fun v _ => by
    split
    · exact .done trivial
    · exact .fail _

theorem plain_boolArg (i : Nat) : (call.boolArg i).Plain fun _ => True :=
  (call.plain_arg i).bind fun v _ => by
    split
    · exact .done trivial
    · exact .fail _

theorem plain_strArg (i : Nat) : (call.strArg i).Plain fun _ => True :=
  (call.plain_arg i).bind fun v _ => by
    split
    · exact .done trivial
    · exact .fail _
    · exact .fail _

theorem plain_thisStr : call.thisStr.Plain fun _ => True := by
  unfold thisStr
  split
  · exact .done trivial
  · exact .fail _

end HostCall

/-! ## Functions of the standard library -/

namespace StandardFn

/-- The kind of value that a function gives, if it gives one and keeps nothing in objects. -/
def resultKind? : StandardFn → Option Kind
  | stringLength => some .int
  | stringEquals => some .boolean
  | integerToString => some .string
  | integerParse => some .int
  | floatToString => some .string
  | floatParse => some .float
  | booleanToString => some .string
  | _ => none

/-- The functions that do nothing but write and give a value. -/
def isPlain : StandardFn → Bool
  | print | println | newline => true
  | f => f.resultKind?.isSome

/-- Whatever such a function is called with, its result is of the kind that it declares. -/
theorem plain_perform {f : StandardFn} (hf : f.isPlain = true) (call : HostCall F) :
    (f.perform call).Plain fun v => ∀ k, f.resultKind? = some k → v.HasKind t k := by
  have hkind : ∀ {k : Kind} {v : Value F}, v.HasKind t k →
      ∀ k', some k = some k' → v.HasKind t k' := by
    intro k v hv k' hk
    cases hk
    exact hv
  cases f with
  | stringLength => exact call.plain_thisStr.bind fun s _ => .done (hkind (.int _))
  | stringEquals =>
    refine call.plain_thisStr.bind fun s _ => (call.plain_arg 0).bind fun v _ => ?_
    split
    · exact .done (hkind (.bool _))
    · exact .done (hkind (.bool _))
  | integerToString => exact (call.plain_intArg 0).bind fun n _ => .done (hkind (.str _))
  | integerParse =>
    refine (call.plain_strArg 0).bind fun text _ => ?_
    split
    · exact .done (hkind (.int _))
    · exact .fail _
  | floatToString => exact (call.plain_floatArg 0).bind fun x _ => .done (hkind (.str _))
  | floatParse =>
    refine (call.plain_strArg 0).bind fun text _ => ?_
    split
    · exact .done (hkind (.float _))
    · exact .fail _
  | booleanToString => exact (call.plain_boolArg 0).bind fun b _ => .done (hkind (.str _))
  | print =>
    exact (call.plain_strArg 0).bind fun text _ => .write text (.done fun _ hk => by cases hk)
  | println =>
    exact (call.plain_strArg 0).bind fun text _ => .write _ (.done fun _ hk => by cases hk)
  | newline => exact .write _ (.done fun _ hk => by cases hk)
  | _ => cases hf

end StandardFn

/-- A program of the host that makes nothing stops only where it may. -/
theorem Engine.keeps_runHost [HostFunctions F] {eng : Engine F} {calls : Calls F} {L : Locals}
    {α : Type} {P : α → Prop} (span : Span) {program : HostProgram F α} (h : program.Plain P) :
    eng.Keeps L (eng.runHost calls span program) P := by
  induction h with
  | done ha => exact Keeps.pure ha
  | fail fault =>
    cases fault with
    | message text => exact Safe.invalid _ span
    | nullDereference member => exact Safe.raise (.nullDereference member) span
  | write text _ ih =>
    refine Keeps.bind (keeps_write text) fun e? _ => ?_
    cases e? with
    | none => exact ih
    | some e => exact Safe.invalid _ span

end Middleweight
