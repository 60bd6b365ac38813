import Middleweight.Proofs.ClassTable.Complete
import Middleweight.Proofs.ClassTable.Subtype
import Middleweight.Proofs.Syntax.Monomorphic
import Middleweight.Proofs.World.Basic

/-!
# Regular class tables

What a value may pass as is checked one step at a time: where it is stored, where it is read, where
it is passed on. For the steps to add up, a class table has to be regular. No class extends a
primitive, its box or a list, whose values may pass as classes that the class itself may not. A
field that a class declares again keeps its type, for an object has the field only once. A class
does not add a field under the name of a class or namespace, by which a body of its base class may
mean the latter. And a method that takes the place of one of a base class returns what that one
returns.

In the regular table of a monomorphic program, passing one type as another is transitive.

* `ClassTable.Regular` : regular tables
* `Program.WellTyped.check_trans` : passing as a type is transitive
* `Program.WellTyped.meetAll_of_checkAll` : parameters that some arguments fit
-/

namespace Middleweight

open NativeRegistry (standard)

variable {F : Type}

/-- The names of the classes that are not to be extended: primitives, their boxes, and lists. -/
def Ty.sealedNames : List String :=
  Ty.listName :: Primitive.all.flatMap fun q => [q.name, q.boxed]

theorem Primitive.name_mem_sealedNames (q : Primitive) : q.name ∈ Ty.sealedNames := by
  cases q <;> decide

theorem Primitive.boxed_mem_sealedNames (q : Primitive) : q.boxed ∈ Ty.sealedNames := by
  cases q <;> decide

/-- Whether a class is declared by the program. -/
def Template.isDeclared (c : Template F) : Bool :=
  match c.origin with
  | .declared => true
  | _ => false

namespace ClassTable

/-- Whether a class or one of its base classes has a field of a name. -/
def hasField (t : ClassTable F) (className field : String) : Bool :=
  (t.ancestors className).any fun a => (t.get? a).any fun c => (c.field? field).isSome

/--
Whether some argument fits two types: `null` fits what is not primitive, and what fits a primitive
fits all that the primitive fits.
-/
def meet (t : ClassTable F) (a b : Ty) : Bool :=
  (!a.isPrimitive && !b.isPrimitive) || t.check a b || t.check b a

/-- Whether some arguments fit two lists of types. -/
def meetAll (t : ClassTable F) : List Ty → List Ty → Bool
  | [], [] => true
  | a :: as, b :: bs => t.meet a b && t.meetAll as bs
  | _, _ => false

/-- What a method returns in the place of another. -/
def ReturnsAs (t : ClassTable F) (s s' : Signature) : Prop :=
  ∀ ty' ∈ s'.returnType, ∃ ty ∈ s.returnType, t.check ty ty' = true

/-- No class extends a list, a primitive or a box. -/
def BasesUnsealed (t : ClassTable F) : Prop :=
  ∀ c ∈ t.classes, ∀ base ∈ c.base, base.name ∉ Ty.sealedNames

/-- A field that is declared again has types that pass as each other. -/
def FieldsAlike (t : ClassTable F) : Prop :=
  ∀ c ∈ t.classes, ∀ d ∈ t.classes, t.inherits c.name d.name = true →
    ∀ f ∈ c.fields, ∀ g ∈ d.fields, f.name = g.name →
    t.check f.ty g.ty = true ∧ t.check g.ty f.ty = true

/-- The fields of a class hide no class and no namespace from the bodies that it inherits. -/
def NamesKept (t : ClassTable F) : Prop :=
  ∀ c ∈ t.classes, ∀ d ∈ t.classes, t.inherits c.name d.name = true →
    d.isDeclared = true → ∀ f ∈ c.fields, t.hasField d.name f.name = true ∨
      t.imports.resolve? f.name = none ∧ (t.natives.namespace? f.name).isNone = true

/-- A method that may stand in the place of another returns what that one returns. -/
def OverridesAlike (t : ClassTable F) : Prop :=
  ∀ c ∈ t.classes, ∀ d ∈ t.classes, t.inherits c.name d.name = true →
    c.name ≠ d.name → ∀ m ∈ c.methods, ∀ m' ∈ d.methods, m.name = m'.name →
    m.isStatic = m'.isStatic → ∀ s ∈ (t.signature m (TypeParams.unbound c.generics)).toOption,
    ∀ s' ∈ (t.signature m' (TypeParams.unbound d.generics)).toOption,
    t.meetAll s.paramTypes s'.paramTypes = true → t.ReturnsAs s s'

/-- A table in which values can be passed on step by step. -/
structure Regular (t : ClassTable F) : Prop where
  bases : t.BasesUnsealed
  fields : t.FieldsAlike
  names : t.NamesKept
  overrides : t.OverridesAlike

/-! ## Deciding -/

instance (t : ClassTable F) (s s' : Signature) : Decidable (t.ReturnsAs s s') :=
  inferInstanceAs (Decidable (∀ ty' ∈ s'.returnType, ∃ ty ∈ s.returnType, t.check ty ty' = true))

instance (t : ClassTable F) : Decidable t.BasesUnsealed :=
  inferInstanceAs (Decidable (∀ c ∈ t.classes, ∀ base ∈ c.base, base.name ∉ Ty.sealedNames))

instance (t : ClassTable F) : Decidable t.FieldsAlike :=
  inferInstanceAs (Decidable (∀ c ∈ t.classes, ∀ d ∈ t.classes, t.inherits c.name d.name = true →
    ∀ f ∈ c.fields, ∀ g ∈ d.fields, f.name = g.name →
    t.check f.ty g.ty = true ∧ t.check g.ty f.ty = true))

instance (t : ClassTable F) : Decidable t.NamesKept :=
  inferInstanceAs (Decidable (∀ c ∈ t.classes, ∀ d ∈ t.classes, t.inherits c.name d.name = true →
    d.isDeclared = true → ∀ f ∈ c.fields, t.hasField d.name f.name = true ∨
      t.imports.resolve? f.name = none ∧ (t.natives.namespace? f.name).isNone = true))

instance (t : ClassTable F) : Decidable t.OverridesAlike :=
  inferInstanceAs (Decidable (∀ c ∈ t.classes, ∀ d ∈ t.classes, t.inherits c.name d.name = true →
    c.name ≠ d.name → ∀ m ∈ c.methods, ∀ m' ∈ d.methods, m.name = m'.name →
    m.isStatic = m'.isStatic → ∀ s ∈ (t.signature m (TypeParams.unbound c.generics)).toOption,
    ∀ s' ∈ (t.signature m' (TypeParams.unbound d.generics)).toOption,
    t.meetAll s.paramTypes s'.paramTypes = true → t.ReturnsAs s s'))

instance (t : ClassTable F) : Decidable t.Regular :=
  decidable_of_iff (t.BasesUnsealed ∧ t.FieldsAlike ∧ t.NamesKept ∧ t.OverridesAlike)
    ⟨fun ⟨hb, hf, hn, ho⟩ => ⟨hb, hf, hn, ho⟩, fun h => ⟨h.bases, h.fields, h.names, h.overrides⟩⟩

end ClassTable

/-! ## Walks along base classes -/

namespace ClassTable

variable {t : ClassTable F}

theorem Climbs.ascends {name : String} {n : Nat} (h : t.Climbs name n) :
    ∃ l, Bases.Ascends t.baseName? name l := by
  induction h with
  | @root name c hg hb => exact ⟨[name], .last (by simp [baseName?, hg, hb])⟩
  | @step name c base n hg hb _ ih =>
    obtain ⟨l, hl⟩ := ih
    exact ⟨name :: l, .step (by simp [baseName?, hg, hb]) hl⟩

/-- The classes that a class extends are those on the walk from it. -/
theorem inherits_iff_of_ascends {a b : String} {l : List String}
    (h : Bases.Ascends t.baseName? a l) : t.inherits a b = true ↔ b ∈ l := by
  rw [inherits, ancestors_of_ascends h, List.contains_iff_mem]

end ClassTable

/-- A formed type without parameters is a class. -/
theorem Ty.exists_cls {arity : String → Option Nat} {ty : Ty} (h : ty.Formed arity []) :
    ∃ name args, ty = .cls name args := by
  cases ty with
  | cls name args => exact ⟨name, args, rfl⟩
  | unbound n => exact absurd (formed_unbound.mp h) List.not_mem_nil
  | bound n s => exact absurd h not_formed_bound

/-! ## Well-typed programs -/

/-- A monomorphic program that the checker accepts, with its own class table, which is regular. -/
structure Program.WellTyped (p : Program) (t : ClassTable StandardFn) : Prop where
  build : ClassTable.build p standard = .ok t
  monomorphic : p.IsMonomorphic
  regular : t.Regular
  check : p.check t = .ok ()

theorem NativeRegistry.generics_standard : ∀ n ∈ standard.classes,
    n.generics = [] ∨ n.fullName = Ty.listName ∧ n.generics = ["E"] := by
  have h : ∀ o ∈ outlines, o.2.1 = [] ∨ o.1 = Ty.listName ∧ o.2.1 = ["E"] := by decide
  exact fun n hn => h _ (outline_mem hn)

namespace Program.WellTyped

variable {p : Program} {t : ClassTable StandardFn} (h : p.WellTyped t)

include h

theorem complete : t.Complete := ClassTable.complete_of_build h.build

/-- Only lists are generic. -/
theorem generics_cases {name : String} {c : Template StandardFn} (hc : t.get? name = some c) :
    c.generics = [] ∨ name = Ty.listName ∧ c.generics = ["E"] := by
  have hname := ClassTable.get?_name hc
  rcases ClassTable.mem_classes_cases h.build (ClassTable.get?_mem hc) with
    ⟨q, rfl⟩ | ⟨n, hn, hmade⟩ | ⟨d, hd, hmade⟩
  · exact .inl rfl
  · obtain ⟨base, -, rfl⟩ := ClassTable.nativeTemplate_ok hmade
    exact (NativeRegistry.generics_standard n hn).imp_right fun hg => ⟨hname.symm.trans hg.1, hg.2⟩
  · obtain ⟨base, fields, -, -, rfl⟩ := ClassTable.declaredTemplate_ok hmade
    left
    show d.generics.map Identifier.name = []
    rw [(h.monomorphic.classes d hd).generics]
    rfl

theorem get?_null : t.get? Ty.nullName = none := by
  cases hc : t.get? Ty.nullName with
  | none => rfl
  | some c =>
    have hname := ClassTable.get?_name hc
    have houtlines : ∀ o ∈ NativeRegistry.outlines, o.1 ≠ Ty.nullName := by decide
    rcases ClassTable.mem_classes_cases h.build (ClassTable.get?_mem hc) with
      ⟨q, rfl⟩ | ⟨n, hn, hmade⟩ | ⟨d, hd, hmade⟩
    · exact absurd hname (by cases q <;> decide)
    · obtain ⟨base, -, rfl⟩ := ClassTable.nativeTemplate_ok hmade
      exact absurd hname (houtlines _ (NativeRegistry.outline_mem hn))
    · obtain ⟨base, fields, -, -, rfl⟩ := ClassTable.declaredTemplate_ok hmade
      exact absurd hname (h.monomorphic.classes d hd).name.2

/-! ## Formed types -/

/-- A formed type is a class without arguments, or a list. -/
theorem formed_cases {ty : Ty} (hty : ty.Formed t.arity? []) :
    (∃ name c, ty = .named name ∧ t.get? name = some c ∧ c.generics = []) ∨
    ∃ e, ty = .cls Ty.listName [e] ∧ e.Formed t.arity? [] := by
  cases ty with
  | unbound n => exact absurd (Ty.formed_unbound.mp hty) List.not_mem_nil
  | bound n s => exact absurd hty Ty.not_formed_bound
  | cls name args =>
    obtain ⟨harity, hargs⟩ := Ty.formed_cls.mp hty
    obtain ⟨c, hc, hlen⟩ := ClassTable.get?_of_arity? harity
    rcases h.generics_cases hc with hg | ⟨rfl, hone⟩
    · rw [hg] at hlen
      cases List.length_eq_zero_iff.mp hlen.symm
      exact .inl ⟨name, c, rfl, hc, hg⟩
    · rw [hone] at hlen
      obtain ⟨e, rfl⟩ := List.length_eq_one_iff.mp hlen.symm
      exact .inr ⟨e, rfl, (Ty.allFormed_cons.mp hargs).1⟩

omit h in
theorem formed_named {name : String} {c : Template StandardFn} (hc : t.get? name = some c)
    (hg : c.generics = []) : (Ty.named name).Formed t.arity? [] := by
  refine Ty.formed_cls.mpr ⟨?_, Ty.allFormed_nil⟩
  rw [ClassTable.arity?, hc, Option.map_some, hg]
  rfl

theorem formed_kind {k : Kind} {a : String} (ha : a ∈ k.names) :
    (Ty.named a).Formed t.arity? [] := by
  obtain ⟨c, hc, hg⟩ := ClassTable.get?_kind h.build ha
  exact formed_named hc hg

theorem formed_object : Ty.object.Formed t.arity? [] :=
  h.formed_kind Kind.int.objectName_mem_names

omit h in
/-- The class of a formed type is known. -/
theorem get?_of_formed {name : String} {args : List Ty}
    (hty : (Ty.cls name args).Formed t.arity? []) :
    ∃ c, t.get? name = some c ∧ c.generics.length = args.length :=
  ClassTable.get?_of_arity? (Ty.formed_cls.mp hty).1

theorem ne_null {name : String} {args : List Ty} (hty : (Ty.cls name args).Formed t.arity? []) :
    (name == Ty.nullName) = false := by
  refine beq_false_of_ne fun hname => ?_
  obtain ⟨c, hc, -⟩ := get?_of_formed hty
  rw [hname, h.get?_null] at hc
  cases hc

/-- A formed type passes as a class when its class does and its arguments do. -/
theorem check_iff {a b : String} {args brgs : List Ty}
    (hty : (Ty.cls a args).Formed t.arity? []) : t.check (.cls a args) (.cls b brgs) = true ↔
      t.related a b = true ∧ t.checkAll args brgs = true := by
  rw [ClassTable.check_cls, h.ne_null hty, if_neg Bool.false_ne_true, Bool.and_eq_true]

/-! ## Inheritance -/

theorem exists_ascends {name : String} {c : Template StandardFn} (hc : t.get? name = some c) :
    ∃ l, Bases.Ascends t.baseName? name l := by
  obtain ⟨n, hn⟩ := h.complete.climbs hc
  exact hn.ascends

theorem inherits_trans {a b c : String} {tm : Template StandardFn} (ha : t.get? a = some tm)
    (hab : t.inherits a b = true) (hbc : t.inherits b c = true) : t.inherits a c = true := by
  obtain ⟨l, hl⟩ := h.exists_ascends ha
  obtain ⟨rest, hrest, hsuffix⟩ := hl.of_mem ((ClassTable.inherits_iff_of_ascends hl).mp hab)
  exact (ClassTable.inherits_iff_of_ascends hl).mpr
    (hsuffix.subset ((ClassTable.inherits_iff_of_ascends hrest).mp hbc))

/-- Nothing but itself extends a primitive, a box or a list. -/
theorem eq_of_inherits_sealed {a b : String} {tm : Template StandardFn} (ha : t.get? a = some tm)
    (hab : t.inherits a b = true) (hb : b ∈ Ty.sealedNames) : a = b := by
  obtain ⟨l, hl⟩ := h.exists_ascends ha
  have hmem := (ClassTable.inherits_iff_of_ascends hl).mp hab
  clear ha hab
  induction hl with
  | last _ => exact (List.mem_singleton.mp hmem).symm
  | @step a a' rest hbase _ ih =>
    rcases List.mem_cons.mp hmem with rfl | hmem
    · rfl
    · obtain rfl := ih hmem
      obtain ⟨base, hfound, rfl⟩ := Option.map_eq_some_iff.mp hbase
      obtain ⟨c, hc, hbase⟩ := Option.bind_eq_some_iff.mp hfound
      exact absurd hb (h.regular.bases c (ClassTable.get?_mem hc) base hbase)

/-! ## Passing as a type -/

/-- What a primitive or its box is related to. -/
theorem related_primitive (q : Primitive) {a b : String} (ha : a = q.name ∨ a = q.boxed) :
    t.related a b = true ↔ b = q.name ∨ b = q.boxed ∨ b = Ty.objectName := by
  obtain ⟨k, hk⟩ : ∃ k : Kind, k.names = [q.name, q.boxed, Ty.objectName] := by
    cases q
    · exact ⟨.int, rfl⟩
    · exact ⟨.float, rfl⟩
    · exact ⟨.boolean, rfl⟩
  have hmem : a ∈ k.names := by
    rw [hk]
    rcases ha with rfl | rfl <;> simp
  have hne : a ≠ Ty.objectName := by
    rcases ha with rfl | rfl <;> cases q <;> decide
  rw [ClassTable.related_iff h.build hmem hne, hk]
  simp

/-- What may pass as a primitive is the primitive or its box. -/
theorem primitive_of_related {q : Primitive} {a : String} {tm : Template StandardFn}
    (ha : t.get? a = some tm) (hab : t.related a q.name = true) : a = q.name ∨ a = q.boxed := by
  rw [ClassTable.related, Bool.or_eq_true] at hab
  rcases hab with hinherits | hbox
  · exact .inl (h.eq_of_inherits_sealed ha hinherits q.name_mem_sealedNames)
  · obtain ⟨q', ⟨-, hq⟩ | ⟨hq, rfl⟩⟩ := ClassTable.boxes_iff.mp hbox
    · exact absurd hq (by cases q <;> cases q' <;> decide)
    · exact .inr (by revert hq; cases q <;> cases q' <;> decide)

theorem related_trans {a b c : String} {tm : Template StandardFn} (ha : t.get? a = some tm)
    (hab : t.related a b = true) (hbc : t.related b c = true) : t.related a c = true := by
  rw [ClassTable.related, Bool.or_eq_true] at hab
  rcases hab with hinherits | hbox
  · rw [ClassTable.related, Bool.or_eq_true] at hbc
    rcases hbc with hbc | hbox
    · rw [ClassTable.related, h.inherits_trans ha hinherits hbc, Bool.true_or]
    · -- Only itself extends a primitive or a box.
      obtain ⟨q, ⟨rfl, -⟩ | ⟨-, rfl⟩⟩ := ClassTable.boxes_iff.mp hbox
      · obtain rfl := h.eq_of_inherits_sealed ha hinherits q.name_mem_sealedNames
        rw [ClassTable.related, hbox, Bool.or_true]
      · obtain rfl := h.eq_of_inherits_sealed ha hinherits q.boxed_mem_sealedNames
        rw [ClassTable.related, hbox, Bool.or_true]
  · obtain ⟨q, ⟨rfl, rfl⟩ | ⟨rfl, rfl⟩⟩ := ClassTable.boxes_iff.mp hbox
    · rw [h.related_primitive q (.inl rfl)]
      exact (h.related_primitive q (.inr rfl)).mp hbc
    · rw [h.related_primitive q (.inr rfl)]
      exact (h.related_primitive q (.inl rfl)).mp hbc

/-- Only lists are related to lists. -/
theorem eq_list_of_related {a : String} {tm : Template StandardFn} (ha : t.get? a = some tm)
    (hab : t.related a Ty.listName = true) : a = Ty.listName := by
  rw [ClassTable.related, Bool.or_eq_true] at hab
  rcases hab with hinherits | hbox
  · exact h.eq_of_inherits_sealed ha hinherits List.mem_cons_self
  · obtain ⟨q, ⟨-, hq⟩ | ⟨hq, -⟩⟩ := ClassTable.boxes_iff.mp hbox
    · exact absurd hq (by cases q <;> decide)
    · exact absurd hq (by cases q <;> decide)

/-- What passes as a list is a list. -/
theorem list_of_check {ty e : Ty} (hty : ty.Formed t.arity? [])
    (hc : t.check ty (.cls Ty.listName [e]) = true) :
    ∃ x, ty = .cls Ty.listName [x] ∧ x.Formed t.arity? [] ∧ t.check x e = true := by
  rcases h.formed_cases hty with ⟨name, c, rfl, hget, hg⟩ | ⟨x, rfl, hx⟩
  · -- A list has an argument, and this class has none.
    obtain rfl := h.eq_list_of_related hget ((h.check_iff hty).mp hc).1
    obtain ⟨n, hn, hlist, hgenerics⟩ := NativeRegistry.exists_list
    rw [← hlist, ClassTable.get?_standard h.build hn] at hget
    cases hget
    cases hgenerics.symm.trans hg
  · have hargs := ((h.check_iff hty).mp hc).2
    rw [ClassTable.checkAll, Bool.and_eq_true] at hargs
    exact ⟨x, rfl, hx, hargs.1⟩

/-- What passes as a type passes as what the type passes as. -/
theorem check_trans {a b c : Ty} (ha : a.Formed t.arity? []) (hb : b.Formed t.arity? [])
    (hc : c.Formed t.arity? []) (hab : t.check a b = true) (hbc : t.check b c = true) :
    t.check a c = true := by
  induction c using Ty.rec (motive_2 := fun cs => ∀ c ∈ cs, ∀ a b, a.Formed t.arity? [] →
    b.Formed t.arity? [] → c.Formed t.arity? [] → t.check a b = true → t.check b c = true →
    t.check a c = true) generalizing a b with
  | nil => exact absurd ‹_› List.not_mem_nil
  | cons c cs ih ihs =>
    rename_i c' hc' a b ha hb hc hab hbc
    rcases List.mem_cons.mp hc' with rfl | hc'
    · exact ih ha hb hc hab hbc
    · exact ihs c' hc' a b ha hb hc hab hbc
  | unbound n => exact absurd (Ty.formed_unbound.mp hc) List.not_mem_nil
  | bound n s => exact absurd hc Ty.not_formed_bound
  | cls n cs ihs =>
    rcases h.formed_cases hc with ⟨name, tm, heq, -, -⟩ | ⟨e, heq, he⟩
    · -- A class without arguments: only the names count.
      cases heq
      obtain ⟨an, as, rfl⟩ := Ty.exists_cls ha
      obtain ⟨bn, bs, rfl⟩ := Ty.exists_cls hb
      obtain ⟨atm, hatm, -⟩ := get?_of_formed ha
      exact (h.check_iff ha).mpr ⟨h.related_trans hatm ((h.check_iff ha).mp hab).1
        ((h.check_iff hb).mp hbc).1, t.checkAll_nil as⟩
    · -- A list: so are the other two, and their items pass step by step.
      cases heq
      obtain ⟨y, rfl, hy, hye⟩ := h.list_of_check hb hbc
      obtain ⟨x, rfl, hx, hxy⟩ := h.list_of_check ha hab
      have hrelated := ((h.check_iff ha).mp hab).1
      refine (h.check_iff ha).mpr ⟨hrelated, ?_⟩
      rw [ClassTable.checkAll, ihs e List.mem_cons_self x y hx hy he hxy hye, Bool.true_and,
        t.checkAll_nil]

/-! ## Parameters that some arguments fit -/

/-- What fits a primitive fits all that the primitive fits. -/
theorem check_of_primitive {a b c : Ty} (ha : a.Formed t.arity? []) (hb : b.Formed t.arity? [])
    (hc : c.Formed t.arity? []) (hprimitive : b.isPrimitive = true) (hab : t.check a b = true)
    (hac : t.check a c = true) : t.check b c = true := by
  obtain ⟨an, as, rfl⟩ := Ty.exists_cls ha
  obtain ⟨cn, cs, rfl⟩ := Ty.exists_cls hc
  obtain ⟨q, rfl⟩ : ∃ q : Primitive, b = .named q.name := by
    obtain ⟨bn, bs, rfl⟩ := Ty.exists_cls hb
    rw [Ty.isPrimitive, Ty.resolved_of_isGround hb.isGround] at hprimitive
    obtain ⟨q, hq⟩ := Option.isSome_iff_exists.mp hprimitive
    obtain rfl := ClassTable.ofName?_eq_some_iff.mp hq
    rcases h.formed_cases hb with ⟨name, tm, heq, -, -⟩ | ⟨e, heq, -⟩
    · exact ⟨q, by rw [heq, (Ty.cls.inj heq).1]⟩
    · exact absurd (Ty.cls.inj heq).1 (by cases q <;> decide)
  obtain ⟨tm, htm, -⟩ := get?_of_formed ha
  have hname := h.primitive_of_related htm ((h.check_iff ha).mp hab).1
  refine (h.check_iff hb).mpr ⟨?_, t.checkAll_nil_left cs⟩
  rw [h.related_primitive q (.inl rfl)]
  exact (h.related_primitive q hname).mp ((h.check_iff ha).mp hac).1

omit h in
theorem check_null_primitive {b : Ty} (hb : b.Formed t.arity? [])
    (hnull : t.check .null b = true) : b.isPrimitive = false := by
  obtain ⟨bn, bs, rfl⟩ := Ty.exists_cls hb
  rw [Ty.null, Ty.named, ClassTable.check_cls, beq_self_eq_true, if_pos rfl] at hnull
  rw [Ty.isPrimitive, Ty.resolved_of_isGround hb.isGround]
  dsimp only
  rw [Option.isNone_iff_eq_none.mp hnull]
  rfl

/-- An argument that fits two types shows that some argument does. -/
theorem meet_of_check {a b c : Ty} (ha : a = .null ∨ a.Formed t.arity? [])
    (hb : b.Formed t.arity? []) (hc : c.Formed t.arity? []) (hab : t.check a b = true)
    (hac : t.check a c = true) : t.meet b c = true := by
  unfold ClassTable.meet
  rw [Bool.or_eq_true, Bool.or_eq_true, Bool.and_eq_true, Bool.not_eq_true', Bool.not_eq_true']
  rcases ha with rfl | ha
  · exact .inl (.inl ⟨check_null_primitive hb hab, check_null_primitive hc hac⟩)
  · cases hbp : b.isPrimitive with
    | true => exact .inl (.inr (h.check_of_primitive ha hb hc hbp hab hac))
    | false =>
      cases hcp : c.isPrimitive with
      | true => exact .inr (h.check_of_primitive ha hc hb hcp hac hab)
      | false => exact .inl (.inl ⟨rfl, rfl⟩)

/-- Arguments that fit two lists of parameters show that some arguments do. -/
theorem meetAll_of_checkAll : ∀ {as bs cs : List Ty},
    (∀ a ∈ as, a = .null ∨ a.Formed t.arity? []) → Ty.AllFormed t.arity? [] bs →
    Ty.AllFormed t.arity? [] cs → bs.length = as.length → cs.length = as.length →
    t.checkAll as bs = true → t.checkAll as cs = true → t.meetAll bs cs = true
  | [], [], [], _, _, _, _, _, _, _ => rfl
  | a :: as, b :: bs, c :: cs, ha, hb, hc, hlb, hlc, hab, hac => by
    obtain ⟨ha, has⟩ := List.forall_mem_cons.mp ha
    rw [Ty.allFormed_cons] at hb hc
    rw [ClassTable.checkAll, Bool.and_eq_true] at hab hac
    rw [ClassTable.meetAll, Bool.and_eq_true]
    exact ⟨h.meet_of_check ha hb.1 hc.1 hab.1 hac.1, meetAll_of_checkAll has hb.2 hc.2
      (Nat.succ.inj hlb) (Nat.succ.inj hlc) hab.2 hac.2⟩

end Program.WellTyped

end Middleweight
