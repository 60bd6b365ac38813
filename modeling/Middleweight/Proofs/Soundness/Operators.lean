import Middleweight.Proofs.Analysis.ExpandedRun
import Middleweight.Proofs.ClassTable.Hierarchy
import Middleweight.Proofs.Engine.ResultKinds
import Middleweight.Proofs.Soundness.Names

/-!
# Rules and operators

The checker knows the types on which there is an operator, and the engine the values. Where the rule
of an operator names types of values, the two agree: what the checker accepts has a result of the
type that it says, but for divisions by zero, and what it rejects fails.

They differ in two ways. The rule of `<`, `>`, `<=` and `>=` accepts whatever is an object, and the
engine orders numbers of one kind and strings only. And an object can pass for a number, a truth value
or a string without being one, when its class extends a primitive or is named like the type of the
null reference.

* `Value.IsOperand.check_iff` : what the checker takes the value of an operand for
* `BinaryOp.apply_of_mem_kinds`, `BinaryOp.apply_of_not_alike` : what the engine gives
* `operators_agree` : the two side by side
* `misjudged_operands` : accepted programs that stop at an operator
-/

namespace Middleweight

open NativeRegistry (standard)

variable {F : Type} {t : ClassTable F}

/-! ## Operands -/

/-- The kinds of values, objects apart. -/
def Kind.simple : List Kind := [int, float, boolean, string]

/-- Whether a value is an object that passes as the type of a kind. -/
def Value.PosesAs (t : ClassTable F) (v : Value F) (k : Kind) : Prop :=
  ∃ o, v = .object o ∧ t.check o.cls.asTy k.ty = true

/-- Whether a value is an object that passes as the type of values that are not. -/
def Value.Poses (t : ClassTable F) (v : Value F) : Prop := ∃ k ∈ Kind.simple, v.PosesAs t k

/--
A value other than `null` and a type it can be declared with: for numbers, truth values and strings
their type or its box, for objects their class.
-/
inductive Value.IsOperand (t : ClassTable F) : Value F → Ty → Prop
  | simple {v : Value F} {k : Kind} {a : String} : k ∈ Kind.simple → v.HasKind t k → a ∈ k.names →
      a ≠ Ty.objectName → IsOperand t v (.named a)
  | object {o : ObjectRef F} : t.check o.cls.asTy .object = true →
      IsOperand t (.object o) o.cls.asTy

theorem ClassTable.check_named {a b : String} {args : List Ty} :
    t.check (.cls a args) (.named b) =
      if a == Ty.nullName then (Primitive.ofName? b).isNone else t.related a b := by
  have hargs : t.checkAll args [] = true := by cases args <;> simp [checkAll]
  rw [Ty.named, check_cls, hargs, Bool.and_true]

namespace Value

/-- An object has no simple kind. -/
theorem HasKind.ne_object {v : Value F} {k : Kind} (hv : v.HasKind t k) (hk : k ∈ Kind.simple)
    (o : ObjectRef F) : v ≠ .object o := by
  rintro rfl
  cases hv
  exact absurd hk (by decide)

theorem PosesAs.not_hasKind {v : Value F} {k k' : Kind} (h : v.PosesAs t k)
    (hk' : k' ∈ Kind.simple) : ¬ v.HasKind t k' := by
  obtain ⟨o, rfl, -⟩ := h
  exact fun hv => hv.ne_object hk' o rfl

/-- What passes for a number, a truth value or a string without being one is of no simple kind. -/
theorem Poses.not_hasKind {v : Value F} {k : Kind} (h : v.Poses t) (hk : k ∈ Kind.simple) :
    ¬ v.HasKind t k := by
  obtain ⟨_, _, hposes⟩ := h
  exact hposes.not_hasKind hk

/-- Which objects pass for a number, a truth value or a string. -/
theorem poses_object_iff {o : ObjectRef F} : (object o).Poses t ↔
    o.cls.name = Ty.nullName ∨ ∃ k ∈ Kind.simple, t.related o.cls.name k.typeName = true := by
  have hcheck : ∀ k : Kind, t.check o.cls.asTy k.ty =
      if o.cls.name == Ty.nullName then (Primitive.ofName? k.typeName).isNone
      else t.related o.cls.name k.typeName := fun k => ClassTable.check_named
  constructor
  · rintro ⟨k, hk, _, heq, hpasses⟩
    cases heq
    rw [hcheck] at hpasses
    split at hpasses
    · next hnull => exact .inl (beq_iff_eq.mp hnull)
    · exact .inr ⟨k, hk, hpasses⟩
  · intro h
    by_cases hnull : o.cls.name = Ty.nullName
    · refine ⟨.string, by decide, o, rfl, ?_⟩
      rw [hcheck, if_pos (beq_iff_eq.mpr hnull)]
      decide
    · obtain ⟨k, hk, hrelated⟩ := h.resolve_left hnull
      refine ⟨k, hk, o, rfl, ?_⟩
      rw [hcheck, if_neg (by simpa using hnull)]
      exact hrelated

namespace IsOperand

variable {v : Value F} {ty : Ty}

/-- The objects of declared classes are operands. -/
theorem of_declared {p : Program} {natives : NativeRegistry F}
    (h : ClassTable.build p natives = .ok t) {d : ClassDecl} (hd : d ∈ p.classes)
    {o : ObjectRef F} (ho : o.cls.name = d.name.name) : (Value.object o).IsOperand t o.cls.asTy := by
  refine .object ?_
  obtain ⟨c, -, hc⟩ := ClassTable.get?_declared h hd
  obtain ⟨l, hl⟩ := ClassTable.ascends_of_declared h hd
  have hlast : Ty.objectName ∈ t.ancestors o.cls.name := by
    rw [ho, ClassTable.ancestors_of_ascends hl]
    exact List.mem_of_getLast? (ClassTable.getLast?_of_ascends h hl (.inr ⟨c, hc⟩))
  show t.check (.cls o.cls.name o.cls.ty.args) (.named Ty.objectName) = true
  rw [ClassTable.check_named]
  split
  · decide
  · rw [ClassTable.related, Bool.or_eq_true]
    exact .inl (List.contains_iff_mem.mpr hlast)

variable (hbasics : t.HasBasics) (hv : v.IsOperand t ty)

include hbasics hv

/-- Every operand is an object for the checker. -/
theorem check_object : t.check ty .object = true := by
  cases hv with
  | @simple _ k a _ _ ha hne =>
    rw [Ty.named, Ty.object, ClassTable.check_named,
      if_neg (by simpa using Kind.ne_nullName ha)]
    exact (hbasics.related_iff ha hne).mpr k.objectName_mem_names
  | object hpasses => exact hpasses

/-- The checker takes an operand for a value of a kind when it is one, or an object that poses. -/
theorem check_iff {k : Kind} (hk : k ∈ Kind.simple) :
    t.check ty k.ty = true ↔ v.HasKind t k ∨ v.PosesAs t k := by
  cases hv with
  | @simple _ k' a hk' hkind ha hne =>
    have hcheck : t.check (.named a) k.ty = true ↔ k.typeName ∈ k'.names := by
      rw [Ty.named, Kind.ty, ClassTable.check_named, if_neg (by simpa using Kind.ne_nullName ha)]
      exact hbasics.related_iff ha hne
    rw [hcheck]
    constructor
    · intro hmem
      rw [Kind.eq_of_mem_names hmem]
      exact .inl hkind
    · rintro (hkind' | ⟨o, rfl, -⟩)
      · rw [hkind'.unique hkind]
        exact k'.typeName_mem_names
      · exact absurd rfl (hkind.ne_object hk' o)
  | object hpasses =>
    constructor
    · exact fun hcheck => .inr ⟨_, rfl, hcheck⟩
    · rintro (hkind | ⟨o, heq, hcheck⟩)
      · exact absurd rfl (hkind.ne_object hk _)
      · cases heq
        exact hcheck

end IsOperand

end Value

/-! ## What the engine gives -/

namespace BinaryOp

/-- The kinds of values on which there is an operator other than `==` and `!=`. -/
def kinds : BinaryOp → List Kind
  | add | lt | gt | le | ge => [.int, .float, .string]
  | sub | mul | div | rem => [.int, .float]
  | bitAnd | bitOr | bitXor | shl | shr | ushr => [.int]
  | and | or => [.boolean]
  | eq | ne => []

/-- The operators that order their operands. -/
def isOrdering : BinaryOp → Bool
  | lt | gt | le | ge => true
  | _ => false

/-- Whether two values are of one kind, and one on which there is the operator. -/
def Alike (t : ClassTable F) (op : BinaryOp) (l r : Value F) : Prop :=
  ∃ k ∈ op.kinds, l.HasKind t k ∧ r.HasKind t k

theorem kinds_subset_simple (op : BinaryOp) : op.kinds ⊆ Kind.simple := by
  cases op <;> decide

/-- The rule of an operator names the types of its kinds, unless it orders or compares. -/
theorem rule_cases (op : BinaryOp) :
    (op.rule.operands = op.kinds.map Kind.typeName ∧ op.isOrdering = false ∧ op ≠ eq ∧ op ≠ ne) ∨
      (op.isOrdering = true ∨ op = eq ∨ op = ne) := by
  cases op <;> decide

/-- Then it names objects, and the result is a truth value. -/
theorem rule_objects {op : BinaryOp} (h : op.isOrdering = true ∨ op = eq ∨ op = ne) :
    op.rule.operands = [Ty.objectName] ∧ op.rule.result = some Ty.booleanName := by
  revert h
  cases op <;> decide

variable {op : BinaryOp} {l r : Value F}

theorem isSome_onInts {a b : Int64} :
    (op.onInts a b : Option (Except (OperatorError F) (Value F))).isSome = true ↔
      Kind.int ∈ op.kinds := by
  cases op <;> simp [onInts, kinds]

theorem isSome_onFloats {a b : Float} :
    (op.onFloats a b : Option (Value F)).isSome = true ↔ Kind.float ∈ op.kinds := by
  cases op <;> simp [onFloats, kinds]

theorem isSome_onStrings {a b : String} :
    (op.onStrings a b : Option (Value F)).isSome = true ↔ Kind.string ∈ op.kinds := by
  cases op <;> simp [onStrings, kinds]

theorem isSome_onBools {a b : Bool} :
    (op.onBools a b : Option (Value F)).isSome = true ↔ Kind.boolean ∈ op.kinds := by
  cases op <;> simp [onBools, kinds]

/-- The engine goes by the same kinds. -/
theorem isSome_onValues : (op.onValues l r).isSome = true ↔ op.Alike t l r := by
  constructor
  · intro h
    unfold onValues at h
    split at h
    · exact ⟨.int, isSome_onInts.mp h, .int _, .int _⟩
    · exact ⟨.float, isSome_onFloats.mp (Option.isSome_map.symm.trans h), .float _, .float _⟩
    · exact ⟨.string, isSome_onStrings.mp (Option.isSome_map.symm.trans h), .str _, .str _⟩
    · exact ⟨.boolean, isSome_onBools.mp (Option.isSome_map.symm.trans h), .bool _, .bool _⟩
    · cases h
  · rintro ⟨k, hk, hl, hr⟩
    cases hl with
    | int => cases hr; exact isSome_onInts.mpr hk
    | float => cases hr; exact Option.isSome_map.trans (isSome_onFloats.mpr hk)
    | str => cases hr; exact Option.isSome_map.trans (isSome_onStrings.mpr hk)
    | bool => cases hr; exact Option.isSome_map.trans (isSome_onBools.mpr hk)
    | object => exact absurd (kinds_subset_simple op hk) (by decide)

/-- What there is on values is a result, but for a division by zero. -/
theorem onValues_some {x : Except (OperatorError F) (Value F)} (h : op.onValues l r = some x) :
    (∃ v, x = .ok v) ∨ x = .error .divisionByZero := by
  have hmap : ∀ {y : Option (Value F)}, y.map Except.ok = some x → ∃ v, x = .ok v := by
    intro y hy
    obtain ⟨v, -, rfl⟩ := Option.map_eq_some_iff.mp hy
    exact ⟨v, rfl⟩
  unfold onValues at h
  split at h
  · cases op with
    | div | rem =>
      simp only [onInts, Option.some.injEq] at h
      split at h
      · exact .inr h.symm
      · exact .inl ⟨_, h.symm⟩
    | _ => cases h <;> exact .inl ⟨_, rfl⟩
  · exact .inl (hmap h)
  · exact .inl (hmap h)
  · exact .inl (hmap h)
  · cases h

theorem apply_eq_onValues (heq : op ≠ eq) (hne : op ≠ ne) :
    op.apply l r = (op.onValues l r).getD (.error (.binary op l r)) := by
  cases op <;> first | rfl | exact absurd rfl heq | exact absurd rfl hne

/-- Any two values can be compared. -/
theorem apply_compares (h : op = eq ∨ op = ne) : ∃ b, op.apply l r = .ok (.bool b) := by
  rcases h with rfl | rfl
  · exact ⟨_, rfl⟩
  · exact ⟨_, rfl⟩

/-- On values of one of its kinds an operator gives what its rule says, but for divisions by zero. -/
theorem apply_of_mem_kinds {k : Kind} (hk : k ∈ op.kinds) (hl : l.HasKind t k)
    (hr : r.HasKind t k) :
    (∃ v, op.apply l r = .ok v ∧ v.HasKind t (op.resultKind k)) ∨
      op.apply l r = .error .divisionByZero := by
  have hne : op ≠ eq ∧ op ≠ ne := by
    constructor
    · rintro rfl
      cases hk
    · rintro rfl
      cases hk
  obtain ⟨x, hx⟩ := Option.isSome_iff_exists.mp (isSome_onValues.mpr ⟨k, hk, hl, hr⟩)
  rw [apply_eq_onValues hne.1 hne.2, hx]
  rcases onValues_some hx with ⟨v, rfl⟩ | rfl
  · obtain ⟨k', hl', hv⟩ := hasKind_of_onValues (t := t) hx
    rw [hl'.unique hl] at hv
    exact .inl ⟨v, rfl, hv⟩
  · exact .inr rfl

/-- On other values it fails, unless it compares them. -/
theorem apply_of_not_alike (heq : op ≠ eq) (hne : op ≠ ne) (h : ¬ op.Alike t l r) :
    op.apply l r = .error (.binary op l r) := by
  rw [apply_eq_onValues heq hne, Option.not_isSome_iff_eq_none.mp (mt isSome_onValues.mp h)]
  rfl

/-- So it fails where an operand is an object that passes for something else. -/
theorem apply_of_poses (heq : op ≠ eq) (hne : op ≠ ne) (h : l.Poses t ∨ r.Poses t) :
    op.apply l r = .error (.binary op l r) := by
  refine apply_of_not_alike (t := t) heq hne ?_
  rintro ⟨k, hk, hl, hr⟩
  have hsimple := kinds_subset_simple op hk
  exact h.elim (fun hposes => hposes.not_hasKind hsimple hl) fun hposes =>
    hposes.not_hasKind hsimple hr

/-- Only integers are divided by zero. -/
theorem divisionByZero_iff : op.apply l r = .error .divisionByZero ↔
    (op = div ∨ op = rem) ∧ (∃ a, l = .int a) ∧ r = .int 0 := by
  constructor
  · intro h
    by_cases heq : op = eq ∨ op = ne
    · obtain ⟨b, hb⟩ := apply_compares (l := l) (r := r) heq
      rw [hb] at h
      cases h
    · obtain ⟨heq, hne⟩ := not_or.mp heq
      rw [apply_eq_onValues heq hne] at h
      have hx : op.onValues l r = some (.error .divisionByZero) := by
        cases hx : op.onValues l r with
        | none =>
          rw [hx] at h
          cases h
        | some x =>
          rw [hx] at h
          exact congrArg some h
      have hmap : ∀ {y : Option (Value F)}, y.map Except.ok ≠
          some (.error (.divisionByZero : OperatorError F)) := by
        intro y
        cases y <;> simp
      unfold onValues at hx
      split at hx
      · cases op <;> simp [onInts] at hx <;> simp [hx]
      · exact absurd hx hmap
      · exact absurd hx hmap
      · exact absurd hx hmap
      · cases hx
  · rintro ⟨rfl | rfl, ⟨a, rfl⟩, rfl⟩ <;> simp [apply, onValues, onInts]

end BinaryOp

/-- The kinds of values on which there is a unary operator. -/
def UnaryOp.kinds : UnaryOp → List Kind
  | .plus | .minus => [.int, .float]
  | .not => [.boolean]
  | .bitNot => [.int]

theorem UnaryOp.apply_of_mem_kinds {op : UnaryOp} {v : Value F} {k : Kind} (hk : k ∈ op.kinds)
    (hv : v.HasKind t k) : ∃ w, op.apply v = .ok w ∧ w.HasKind t k := by
  cases op <;> cases hv <;> first | exact ⟨_, rfl, by constructor⟩ | exact absurd hk (by decide)

theorem UnaryOp.apply_of_not_hasKind {op : UnaryOp} {v : Value F}
    (h : ∀ k ∈ op.kinds, ¬ v.HasKind t k) : op.apply v = .error (.unary op v) := by
  unfold apply
  split
  · exact absurd (.int _) (h .int (by decide))
  · exact absurd (.float _) (h .float (by decide))
  · exact absurd (.int _) (h .int (by decide))
  · exact absurd (.float _) (h .float (by decide))
  · exact absurd (.bool _) (h .boolean (by decide))
  · exact absurd (.int _) (h .int (by decide))
  · rfl

theorem UnaryOp.kinds_subset_simple (op : UnaryOp) : op.kinds ⊆ Kind.simple := by
  cases op <;> decide

theorem UnaryOp.apply_of_poses {op : UnaryOp} {v : Value F} (h : v.Poses t) :
    op.apply v = .error (.unary op v) :=
  op.apply_of_not_hasKind fun _ hk => h.not_hasKind (op.kinds_subset_simple hk)

/-- The kinds of values that can be stepped. -/
def StepOp.kinds : List Kind := [.int, .float]

theorem StepOp.apply_of_mem_kinds {op : StepOp} {v : Value F} {k : Kind} (hk : k ∈ StepOp.kinds)
    (hv : v.HasKind t k) : ∃ w, op.apply v = .ok w ∧ w.HasKind t k := by
  cases op <;> cases hv <;> first | exact ⟨_, rfl, by constructor⟩ | exact absurd hk (by decide)

theorem StepOp.apply_of_not_hasKind {op : StepOp} {v : Value F}
    (h : ∀ k ∈ StepOp.kinds, ¬ v.HasKind t k) : op.apply v = .error (.step v) := by
  unfold apply
  split
  · exact absurd (.int _) (h .int (by decide))
  · exact absurd (.int _) (h .int (by decide))
  · exact absurd (.float _) (h .float (by decide))
  · exact absurd (.float _) (h .float (by decide))
  · rfl

theorem StepOp.kinds_subset_simple : StepOp.kinds ⊆ Kind.simple := by decide

theorem StepOp.apply_of_poses {op : StepOp} {v : Value F} (h : v.Poses t) :
    op.apply v = .error (.step v) :=
  op.apply_of_not_hasKind fun _ hk => h.not_hasKind (StepOp.kinds_subset_simple hk)

/-! ## The two side by side -/

/--
What the checker says of an operator agrees with what comes of it: if it is accepted there is a result
of the accepted type, or an error that is excused, and if it is rejected the operator fails.
-/
structure OperatorsAgree (t : ClassTable F) (verdict : Checked Ty)
    (outcome : Except (OperatorError F) (Value F)) (failure : OperatorError F)
    (excused : OperatorError F → Prop) : Prop where
  accepted : ∀ {ty : Ty}, verdict = .ok ty →
    (∃ v k, outcome = .ok v ∧ v.HasKind t k ∧ ty = k.ty) ∨ ∃ e, outcome = .error e ∧ excused e
  rejected : ∀ {finding : Finding}, verdict = .error finding → outcome = .error failure

namespace BodyContext

variable {ctx : BodyContext F}

theorem applyRule_error {rule : OperatorRule} {symbol : String} {lhs rhs : Ty} {span : Span}
    {finding : Finding} (h : ctx.applyRule rule symbol lhs rhs span = .error finding) :
    ∀ x ∈ rule.operands, ctx.table.check lhs (.named x) = true →
      ¬ ctx.table.check rhs (.named x) = true := by
  unfold applyRule at h
  dsimp only at h
  split at h
  · cases h
  · next hnone =>
    intro x hx hl hr
    exact List.find?_eq_none.mp hnone x hx (Bool.and_eq_true_iff.mpr ⟨hl, hr⟩)

theorem applyUnaryRule_error {rule : OperatorRule} {symbol : String} {operand : Ty} {span : Span}
    {finding : Finding} (h : ctx.applyUnaryRule rule symbol operand span = .error finding) :
    ∀ x ∈ rule.operands, ¬ ctx.table.check operand (.named x) = true := by
  unfold applyUnaryRule at h
  split at h
  · cases h
  · next hnone => exact fun x hx => List.find?_eq_none.mp hnone x hx

section Agree

variable (hbasics : ctx.table.HasBasics) {l r : Value F} {lty rty : Ty}
  (hl : l.IsOperand ctx.table lty) (hr : r.IsOperand ctx.table rty) (symbol : String) (span : Span)

include hbasics hl hr

/-- A rule that lists the types of kinds, and an operator that the engine has on these kinds. -/
theorem agree_of_kinds {op : BinaryOp} (hoperands : op.rule.operands = op.kinds.map Kind.typeName)
    (heq : op ≠ .eq) (hne : op ≠ .ne) :
    OperatorsAgree ctx.table (ctx.applyRule op.rule symbol lty rty span) (op.apply l r)
      (.binary op l r) fun e =>
        e = .divisionByZero ∨ e = .binary op l r ∧ (l.Poses ctx.table ∨ r.Poses ctx.table) := by
  constructor
  · intro ty hty
    obtain ⟨x, hx, hlx, hrx, rfl⟩ := applyRule_ok hty
    rw [hoperands] at hx
    obtain ⟨k, hk, rfl⟩ := List.mem_map.mp hx
    have hsimple := BinaryOp.kinds_subset_simple op hk
    have hfails : l.Poses ctx.table ∨ r.Poses ctx.table → op.apply l r = .error (.binary op l r) :=
      BinaryOp.apply_of_poses heq hne
    rcases (hl.check_iff hbasics hsimple).mp hlx with hlk | hlp
    · rcases (hr.check_iff hbasics hsimple).mp hrx with hrk | hrp
      · rcases BinaryOp.apply_of_mem_kinds hk hlk hrk with ⟨v, hv, hkind⟩ | hzero
        · exact .inl ⟨v, _, hv, hkind, BinaryOp.resultType_eq op k⟩
        · exact .inr ⟨_, hzero, .inl rfl⟩
      · have hposes : r.Poses ctx.table := ⟨k, hsimple, hrp⟩
        exact .inr ⟨_, hfails (.inr hposes), .inr ⟨rfl, .inr hposes⟩⟩
    · have hposes : l.Poses ctx.table := ⟨k, hsimple, hlp⟩
      exact .inr ⟨_, hfails (.inl hposes), .inr ⟨rfl, .inl hposes⟩⟩
  · intro finding hfinding
    refine BinaryOp.apply_of_not_alike (t := ctx.table) heq hne ?_
    rintro ⟨k, hk, hlk, hrk⟩
    have hsimple := BinaryOp.kinds_subset_simple op hk
    exact applyRule_error hfinding k.typeName (hoperands ▸ List.mem_map_of_mem hk)
      ((hl.check_iff hbasics hsimple).mpr (.inl hlk)) ((hr.check_iff hbasics hsimple).mpr (.inl hrk))

/-- An operator that orders or compares is accepted on all operands. -/
theorem applyRule_objects {op : BinaryOp} (hop : op.isOrdering = true ∨ op = .eq ∨ op = .ne) :
    ctx.applyRule op.rule symbol lty rty span = .ok .boolean := by
  have hl' : ctx.table.check lty (.named Ty.objectName) = true := hl.check_object hbasics
  have hr' : ctx.table.check rty (.named Ty.objectName) = true := hr.check_object hbasics
  obtain ⟨hoperands, hresult⟩ := BinaryOp.rule_objects hop
  simp [applyRule, OperatorRule.resultType, hoperands, hresult, hl', hr', Ty.boolean]

/-- An operator that orders fails where the engine has no order. -/
theorem agree_of_isOrdering {op : BinaryOp} (hop : op.isOrdering = true) :
    OperatorsAgree ctx.table (ctx.applyRule op.rule symbol lty rty span) (op.apply l r)
      (.binary op l r) fun e => e = .binary op l r ∧ ¬ op.Alike ctx.table l r := by
  have haccepted := applyRule_objects hbasics hl hr symbol span (.inl hop)
  have hothers : op ≠ .eq ∧ op ≠ .ne ∧ ¬ (op = .div ∨ op = .rem) := by
    revert hop
    cases op <;> decide
  obtain ⟨heq, hne, hdivides⟩ := hothers
  refine ⟨fun hty => ?_, fun hfinding => ?_⟩
  · cases haccepted.symm.trans hty
    by_cases halike : op.Alike ctx.table l r
    · obtain ⟨k, hk, hlk, hrk⟩ := halike
      rcases BinaryOp.apply_of_mem_kinds hk hlk hrk with ⟨v, hv, hvk⟩ | hzero
      · rw [BinaryOp.resultKind, (BinaryOp.rule_objects (.inl hop)).2] at hvk
        exact .inl ⟨v, .boolean, hv, hvk, rfl⟩
      · exact absurd (BinaryOp.divisionByZero_iff.mp hzero).1 hdivides
    · exact .inr ⟨_, BinaryOp.apply_of_not_alike heq hne halike, rfl, halike⟩
  · cases haccepted.symm.trans hfinding

/-- Comparing gives a truth value. -/
theorem agree_of_compares {op : BinaryOp} (hop : op = .eq ∨ op = .ne) :
    OperatorsAgree ctx.table (ctx.applyRule op.rule symbol lty rty span) (op.apply l r)
      (.binary op l r) fun _ => False := by
  have haccepted := applyRule_objects hbasics hl hr symbol span (.inr hop)
  obtain ⟨b, hb⟩ := BinaryOp.apply_compares (l := l) (r := r) hop
  refine ⟨fun hty => ?_, fun hfinding => ?_⟩
  · cases haccepted.symm.trans hty
    exact .inl ⟨.bool b, .boolean, hb, .bool b, rfl⟩
  · cases haccepted.symm.trans hfinding

omit hr in
/-- The rule of an operator with one operand that lists the types of the engine's kinds. -/
theorem agreeUnary_of_kinds {rule : OperatorRule} {kinds : List Kind} (hkinds : kinds ⊆ Kind.simple)
    (hoperands : rule.operands = kinds.map Kind.typeName) (hresult : rule.result = none)
    {outcome : Except (OperatorError F) (Value F)} {failure : OperatorError F}
    (hgives : ∀ k ∈ kinds, l.HasKind ctx.table k →
      ∃ v, outcome = .ok v ∧ v.HasKind ctx.table k)
    (hfails : (∀ k ∈ kinds, ¬ l.HasKind ctx.table k) → outcome = .error failure) :
    OperatorsAgree ctx.table (ctx.applyUnaryRule rule symbol lty span) outcome failure
      fun e => e = failure ∧ l.Poses ctx.table := by
  constructor
  · intro ty hty
    obtain ⟨x, hx, hlx, rfl⟩ := applyUnaryRule_ok hty
    rw [hoperands] at hx
    obtain ⟨k, hk, rfl⟩ := List.mem_map.mp hx
    rcases (hl.check_iff hbasics (hkinds hk)).mp hlx with hlk | hlp
    · obtain ⟨v, hv, hvk⟩ := hgives k hk hlk
      refine .inl ⟨v, k, hv, hvk, ?_⟩
      rw [OperatorRule.resultType, hresult]
      rfl
    · have hfailure := hfails fun k' hk' => hlp.not_hasKind (hkinds hk')
      exact .inr ⟨failure, hfailure, rfl, k, hkinds hk, hlp⟩
  · intro finding hfinding
    refine hfails fun k hk hlk => ?_
    exact applyUnaryRule_error hfinding k.typeName (hoperands ▸ List.mem_map_of_mem hk)
      ((hl.check_iff hbasics (hkinds hk)).mpr (.inl hlk))

end Agree

end BodyContext

theorem OperatorsAgree.mono {verdict : Checked Ty} {outcome : Except (OperatorError F) (Value F)}
    {failure : OperatorError F} {excused excused' : OperatorError F → Prop}
    (h : OperatorsAgree t verdict outcome failure excused) (himp : ∀ e, excused e → excused' e) :
    OperatorsAgree t verdict outcome failure excused' := by
  refine ⟨fun hty => (h.accepted hty).imp_right ?_, h.rejected⟩
  rintro ⟨e, he, hexcused⟩
  exact ⟨e, he, himp e hexcused⟩

/--
The rules of the checker and the operators of the engine, on operands of the types they are declared
with, in a table where built-in classes extend the root class only. What is accepted has a result of
the accepted type, or divides an integer by zero; what is rejected fails. There are two exceptions. The
operators that order are accepted on all operands, and fail unless both are numbers of one kind or
strings. And where an operand is an object that passes for something else than an object, every
operator fails that does not compare its operands, whether it is accepted or not.
-/
theorem operators_agree {ctx : BodyContext F} (hbasics : ctx.table.HasBasics) {l r : Value F}
    {lty rty : Ty} (hl : l.IsOperand ctx.table lty) (hr : r.IsOperand ctx.table rty)
    (symbol : String) (span : Span) :
    (∀ op : BinaryOp,
      OperatorsAgree ctx.table (ctx.applyRule op.rule symbol lty rty span) (op.apply l r)
        (.binary op l r) (fun e => e = .divisionByZero ∨ e = .binary op l r ∧
          (op.isOrdering = true ∧ ¬ op.Alike ctx.table l r ∨
            l.Poses ctx.table ∨ r.Poses ctx.table)) ∧
      (op.isOrdering = true → ctx.applyRule op.rule symbol lty rty span = .ok .boolean) ∧
      (op ≠ .eq → op ≠ .ne →
        op.isOrdering = true ∧ ¬ op.Alike ctx.table l r ∨
          l.Poses ctx.table ∨ r.Poses ctx.table →
        op.apply l r = .error (.binary op l r))) ∧
    (∀ op : UnaryOp,
      OperatorsAgree ctx.table (ctx.applyUnaryRule op.rule symbol lty span) (op.apply l)
        (.unary op l) (fun e => e = .unary op l ∧ l.Poses ctx.table) ∧
      (l.Poses ctx.table → op.apply l = .error (.unary op l))) ∧
    ∀ op : StepOp,
      OperatorsAgree ctx.table (ctx.applyUnaryRule OperatorRule.step symbol lty span) (op.apply l)
        (.step l) (fun e => e = .step l ∧ l.Poses ctx.table) ∧
      (l.Poses ctx.table → op.apply l = .error (.step l)) := by
  refine ⟨fun op => ?_, fun op => ⟨?_, op.apply_of_poses⟩, fun op => ⟨?_, op.apply_of_poses⟩⟩
  · have haccepts : op.isOrdering = true →
        ctx.applyRule op.rule symbol lty rty span = .ok .boolean := fun hop =>
      BodyContext.applyRule_objects hbasics hl hr symbol span (.inl hop)
    have hfails : op ≠ .eq → op ≠ .ne →
        op.isOrdering = true ∧ ¬ op.Alike ctx.table l r ∨ l.Poses ctx.table ∨ r.Poses ctx.table →
        op.apply l r = .error (.binary op l r) := by
      rintro heq hne (⟨-, hunlike⟩ | hposes)
      · exact BinaryOp.apply_of_not_alike heq hne hunlike
      · exact BinaryOp.apply_of_poses heq hne hposes
    refine ⟨?_, haccepts, hfails⟩
    rcases op.rule_cases with ⟨hoperands, -, heq, hne⟩ | hop | hop
    · have hagree := BodyContext.agree_of_kinds hbasics hl hr symbol span hoperands heq hne
      exact hagree.mono fun _ => Or.imp_right (And.imp_right .inr)
    · have hagree := BodyContext.agree_of_isOrdering hbasics hl hr symbol span hop
      exact hagree.mono fun _ he => .inr ⟨he.1, .inl ⟨hop, he.2⟩⟩
    · have hagree := BodyContext.agree_of_compares hbasics hl hr symbol span hop
      exact hagree.mono fun _ => False.elim
  · have hrule : op.rule.operands = op.kinds.map Kind.typeName ∧ op.rule.result = none := by
      cases op <;> decide
    exact BodyContext.agreeUnary_of_kinds hbasics hl symbol span op.kinds_subset_simple hrule.1
      hrule.2 (fun _ hk hkind => op.apply_of_mem_kinds hk hkind) op.apply_of_not_hasKind
  · exact BodyContext.agreeUnary_of_kinds hbasics hl symbol span StepOp.kinds_subset_simple rfl rfl
      (fun _ hk hkind => op.apply_of_mem_kinds hk hkind) op.apply_of_not_hasKind

open Build in
/-- A program with a class of dogs. -/
def dogProgram : Program := program [{ name := ident "Dog" }]

/-- Whether the checker accepts `+` on operands of two types. -/
def BodyContext.adds (ctx : BodyContext F) (l r : Ty) : Bool :=
  (ctx.applyRule BinaryOp.add.rule "+" l r {}).isOk

/-- An `int` and an `Integer` can be added, and a dog and an `Integer` cannot. -/
theorem operators_agree_dog : ∃ (ctx : BodyContext StandardFn) (o : ObjectRef StandardFn),
    ClassTable.build dogProgram standard = .ok ctx.table ∧ o.cls.asTy = .named "Dog" ∧
    ctx.adds .int (.named Primitive.int.boxed) = true ∧
    (∃ v k, BinaryOp.add.apply (.int 1) (.int 2) = .ok v ∧ v.HasKind ctx.table k) ∧
    ctx.adds o.cls.asTy (.named Primitive.int.boxed) = false ∧
    BinaryOp.add.apply (.object o) (.int 2) = .error (.binary .add (.object o) (.int 2)) := by
  have htest : (ClassTable.build dogProgram standard).toOption.any (fun t =>
      (t.get? "Dog").any fun c =>
        let ctx := BodyContext.ofStatic t c none
        ctx.adds .int (.named Primitive.int.boxed) &&
          !ctx.adds (.named "Dog") (.named Primitive.int.boxed)) = true := by
    decide +kernel
  obtain ⟨t, hsome, htest⟩ := (Option.any_eq_true _ _).mp htest
  obtain ⟨c, -, htest⟩ := (Option.any_eq_true _ _).mp htest
  obtain ⟨hadds, hnot⟩ := Bool.and_eq_true_iff.mp htest
  rw [Bool.not_eq_true'] at hnot
  have ht := ok_of_toOption hsome
  let ctx := BodyContext.ofStatic t c none
  have hbasics : ctx.table.HasBasics := ClassTable.hasBasics_of_build ht
  let o : ObjectRef StandardFn := ⟨0, .ofTemplate c ⟨"Dog", []⟩ none⟩
  have hdog : (Value.object o).IsOperand ctx.table o.cls.asTy :=
    .of_declared ht (d := { name := Build.ident "Dog" }) (List.mem_singleton.mpr rfl) rfl
  have hone : (Value.int 1).IsOperand ctx.table .int :=
    .simple (by decide) (.int 1) Kind.int.typeName_mem_names (by decide)
  have htwo : (Value.int 2).IsOperand ctx.table (.named Primitive.int.boxed) :=
    .simple (k := .int) (by decide) (.int 2) (by decide) (by decide)
  refine ⟨ctx, o, ht, rfl, hadds, ?_, hnot, ?_⟩
  · have hagree := ((operators_agree hbasics hone htwo "+" {}).1 .add).1
    unfold BodyContext.adds at hadds
    cases hrule : ctx.applyRule BinaryOp.add.rule "+" .int (.named Primitive.int.boxed) {} with
    | error finding =>
      rw [hrule] at hadds
      cases hadds
    | ok ty =>
      rcases hagree.accepted hrule with ⟨v, k, hv, hk, -⟩ | ⟨e, he, -⟩
      · exact ⟨v, k, hv, hk⟩
      · cases he
  · have hagree := ((operators_agree hbasics hdog htwo "+" {}).1 .add).1
    unfold BodyContext.adds at hnot
    cases hrule : ctx.applyRule BinaryOp.add.rule "+" o.cls.asTy (.named Primitive.int.boxed) {} with
    | error finding => exact hagree.rejected hrule
    | ok ty =>
      have hok : (ctx.applyRule BinaryOp.add.rule "+" o.cls.asTy (.named Primitive.int.boxed) {}).isOk
          = false := hnot
      rw [hrule] at hok
      cases hok

open Build in
/-- Programs that store the result of an operator in a local. -/
def resultProgram (classes : List ClassDecl) (type : String) (e : Expr) : Program :=
  program (classes ++
    [{ name := ident "Main", methods := [mainMethod [localVariable type "result" (some e)]] }])

open Build in
/-- Accepted programs with operators that the engine does not have on their operands. -/
def misjudgedPrograms : List Program :=
  [ -- Truth values are not ordered.
    resultProgram [] "boolean" (binary (boolean true) .lt (boolean false)),
    -- Neither are numbers of different kinds.
    resultProgram [] "boolean" (binary (int 1) .le (float 2.0)),
    -- Objects of a class that extends a primitive pass as numbers.
    resultProgram [{ name := ident "Count", base := some (ty "int") }] "int"
      (binary (new "Count" []) .add (new "Count" [])),
    -- Objects of a class that is named like the type of the null reference pass as strings.
    resultProgram [{ name := ident Ty.nullName }] "String"
      (binary (new Ty.nullName []) .add (new Ty.nullName [])) ]

/-- Whether a fault is that the two operands of an operator do not allow it. -/
def Fault.isBinary : Fault F → Bool
  | .invalid (.operator (.binary _ _ _)) => true
  | _ => false

theorem Fault.isBinary_eq {fault : Fault F} (h : fault.isBinary = true) :
    ∃ op l r, fault = .invalid (.operator (.binary op l r)) := by
  unfold isBinary at h
  split at h
  · next op l r => exact ⟨op, l, r, rfl⟩
  · cases h

/-- Whether a run of the program stops with such a fault. -/
def Engine.stopsAtOperator (eng : Engine StandardFn) : Bool :=
  match eng.run {} with
  | .ok _ _ => false
  | .error .exhausted _ => false
  | .error (.error e) _ => e.fault.isBinary

theorem Engine.stopsAtOperator_fault {eng : Engine StandardFn} (h : eng.stopsAtOperator = true) :
    ∃ e m op l r, eng.run {} = .error (.error e) m ∧
      e.fault = .invalid (.operator (.binary op l r)) := by
  unfold stopsAtOperator at h
  split at h
  · cases h
  · cases h
  · next e m hrun =>
    obtain ⟨op, l, r, hfault⟩ := Fault.isBinary_eq h
    exact ⟨e, m, op, l, r, hrun, hfault⟩

/--
The checker accepts `<` on truth values, and the engine fails. So programs that are accepted stop at
operators, and not for a division by zero.
-/
theorem misjudged_operands :
    (∃ ctx : BodyContext StandardFn, ClassTable.build dogProgram standard = .ok ctx.table ∧
      ctx.applyRule BinaryOp.lt.rule "<" .boolean .boolean {} = .ok .boolean ∧
      BinaryOp.lt.apply (.bool true : Value StandardFn) (.bool false) =
        .error (.binary .lt (.bool true) (.bool false))) ∧
    misjudgedPrograms.Forall fun p => ∃ p' eng e m op l r,
      p.analyse standard = .ok p' ∧ Engine.new p' standard = .ok eng ∧
      eng.run {} = .error (.error e) m ∧ e.fault = .invalid (.operator (.binary op l r)) := by
  have hlaunches : ∀ p ∈ misjudgedPrograms,
      p.launches (fun _ => false) Engine.stopsAtOperator = true := by
    decide +kernel
  refine ⟨?_, List.forall_iff_forall_mem.mpr fun p hp => ?_⟩
  · obtain ⟨t, ht⟩ : ∃ t, ClassTable.build dogProgram standard = .ok t := by decide +kernel
    obtain ⟨c, -, -⟩ := ClassTable.get?_object ht
    have hboolean : ∀ b, (Value.bool b).IsOperand t .boolean := fun b =>
      .simple (by decide) (.bool b) Kind.boolean.typeName_mem_names (by decide)
    exact ⟨.ofStatic t c none, ht, BodyContext.applyRule_objects
      (ClassTable.hasBasics_of_build ht) (hboolean true) (hboolean false) "<" {} (.inl rfl), rfl⟩
  · obtain ⟨p', eng, hanalyse, hnew, hstops⟩ := Program.passes_of_launches (hlaunches p hp)
    obtain ⟨e, m, op, l, r, hrun, hfault⟩ := Engine.stopsAtOperator_fault hstops
    exact ⟨p', eng, e, m, op, l, r, hanalyse, hnew, hrun, hfault⟩

end Middleweight
