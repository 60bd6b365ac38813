import Mathlib.Order.Basic
import Middleweight.Engine.Invoke
import Middleweight.Proofs.Engine.Memo
import Middleweight.Proofs.Members.ClassMatch
import Middleweight.Proofs.Members.Concrete

/-!
# Machines of two engines

Two engines over matching tables are at corresponding points of a run when their machines hold
corresponding values. Which objects correspond is kept in a `Pairing`, which grows as objects are
made; everything else corresponds by its own shape, with matching classes in place of equal ones.
What a machine remembers of classes need not correspond: it only has to be valid.

The engines may have started from different machines. Then their outputs and events correspond from
there on, and the right one may have read a static field that the left one has yet to read. One of
them may also have less of a budget than the other, and run out of it first.

* `EnginePair.Values`, `EnginePair.Scopes`, `EnginePair.Machines` : what corresponds
* `EnginePair.Budgets` : how much further the engines may go
* `EnginePair.Values.shown_eq`, `EnginePair.Values.equals_eq` : what a program can see of values
-/

namespace Middleweight

variable {F : Type}

/-! ## Pairings -/

/-- Which objects of one heap stand for which objects of another; each stands for one at most. -/
structure Pairing where
  Paired : Nat → Nat → Prop
  right_unique : ∀ {i j k}, Paired i j → Paired i k → j = k
  left_unique : ∀ {i j k}, Paired i k → Paired j k → i = j

namespace Pairing

/-- Pairings are ordered by what they pair. -/
instance : Preorder Pairing where
  le W V := ∀ i j, W.Paired i j → V.Paired i j
  le_refl _ _ _ h := h
  le_trans _ _ _ h h' i j hij := h' i j (h i j hij)

/-- No objects stand for each other. -/
def empty : Pairing := ⟨fun _ _ => False, False.elim, False.elim⟩

/-- A pairing with two more objects, which did not stand for any so far. -/
def insert (W : Pairing) (i j : Nat) (hi : ∀ k, ¬ W.Paired i k) (hj : ∀ k, ¬ W.Paired k j) :
    Pairing where
  Paired a b := W.Paired a b ∨ a = i ∧ b = j
  right_unique := by
    rintro a b c (h | ⟨rfl, rfl⟩) (h' | ⟨h₁, rfl⟩)
    · exact W.right_unique h h'
    · exact absurd (h₁ ▸ h) (hi b)
    · exact absurd h' (hi c)
    · rfl
  left_unique := by
    rintro a b c (h | ⟨rfl, rfl⟩) (h' | ⟨rfl, h₁⟩)
    · exact W.left_unique h h'
    · exact absurd (h₁ ▸ h) (hj a)
    · exact absurd h' (hj b)
    · rfl

variable {W : Pairing} {i j : Nat} {hi : ∀ k, ¬ W.Paired i k} {hj : ∀ k, ¬ W.Paired k j}

/-- A new pair takes none of the old away. -/
theorem le_insert : W ≤ W.insert i j hi hj := fun _ _ h => .inl h

theorem paired_insert : (W.insert i j hi hj).Paired i j := .inr ⟨rfl, rfl⟩

end Pairing

/-! ## Engines -/

/-- Which of two engines may run out of its budget before the other. -/
inductive Early where
  | neither | left | right

/-- Two engines that differ in their tables only, which match. -/
structure EnginePair (F : Type) where
  left : Engine F
  right : Engine F
  bodies : BodyRelation F
  tables : left.table.Matches bodies right.table
  source_eq : right.source = left.source
  entry_eq : right.entry = left.entry
  observed_eq : right.observed = left.observed
  sink_eq : right.sink = left.sink
  /-- The machines that the engines start with. -/
  start : Machine F := {}
  start' : Machine F := {}
  early : Early := .neither
  /-- A static field that the right engine may have read before, with the class of its value. -/
  spare : Option ((String × String) × RuntimeClass F) := none

namespace EnginePair

variable (P : EnginePair F) (W : Pairing)

/-! ## Budgets -/

/-- Budgets of the two engines: that of the one that may not run out first is no less. -/
def Budgets (k k' : Nat) : Prop :=
  match P.early with
  | .neither => k' = k
  | .left => k ≤ k'
  | .right => k' < k

/-- Either the one that may run out first has run out, or both have, or both can go on. -/
theorem Budgets.elim {P : EnginePair F} {k k' : Nat} (h : P.Budgets k k') :
    (P.early = .left ∧ k = 0) ∨ (P.early = .right ∧ k' = 0) ∨ (k = 0 ∧ k' = 0) ∨
      ∃ j j', k = j + 1 ∧ k' = j' + 1 ∧ P.Budgets j j' := by
  unfold Budgets at h ⊢
  cases hearly : P.early with
  | neither =>
    rw [hearly] at h
    cases h
    cases k with
    | zero => exact .inr (.inr (.inl ⟨rfl, rfl⟩))
    | succ j => exact .inr (.inr (.inr ⟨j, j, rfl, rfl, rfl⟩))
  | left =>
    rw [hearly] at h
    cases k with
    | zero => exact .inl ⟨rfl, rfl⟩
    | succ j =>
      obtain ⟨j', rfl⟩ := Nat.exists_eq_succ_of_ne_zero (Nat.ne_zero_of_lt h)
      exact .inr (.inr (.inr ⟨j, j', rfl, rfl, Nat.le_of_succ_le_succ h⟩))
  | right =>
    rw [hearly] at h
    cases k' with
    | zero => exact .inr (.inl ⟨rfl, rfl⟩)
    | succ j' =>
      obtain ⟨j, rfl⟩ := Nat.exists_eq_succ_of_ne_zero (Nat.ne_zero_of_lt h)
      exact .inr (.inr (.inr ⟨j, j', rfl, rfl, Nat.lt_of_succ_lt_succ h⟩))

/-- Induction on how much further both engines may go. -/
theorem Budgets.induction {P : EnginePair F} {motive : ∀ k k', P.Budgets k k' → Prop}
    (left : P.early = .left → ∀ k' h, motive 0 k' h)
    (right : P.early = .right → ∀ k h, motive k 0 h) (both : ∀ h, motive 0 0 h)
    (step : ∀ k k' h h', motive k k' h → motive (k + 1) (k' + 1) h') {k k' : Nat}
    (h : P.Budgets k k') : motive k k' h := by
  induction k generalizing k' with
  | zero =>
    rcases h.elim with ⟨hearly, -⟩ | ⟨hearly, rfl⟩ | ⟨-, rfl⟩ | ⟨j, j', hj, -, -⟩
    · exact left hearly k' h
    · exact right hearly 0 h
    · exact both h
    · cases hj
  | succ k ih =>
    rcases h.elim with ⟨-, hk⟩ | ⟨hearly, rfl⟩ | ⟨hk, -⟩ | ⟨j, j', hj, rfl, hjj⟩
    · cases hk
    · exact right hearly _ h
    · cases hk
    · cases hj
      exact step k j' hjj h (ih hjj)

/-! ## Values -/

/-- Classes that match. -/
abbrev Classes (c c' : RuntimeClass F) : Prop := c.Matches P.left.table.lowering P.bodies c'

/-- Static views that match. -/
structure Views (c c' : RuntimeClass F) : Prop where
  cls : P.Classes c c'
  shows : P.left.table.Shows c

/-- Objects that stand for each other. -/
structure Objects (o o' : ObjectRef F) : Prop where
  id : W.Paired o.id o'.id
  cls : P.Classes o.cls o'.cls

/-- Values that differ in nothing but the identity of objects and the bodies of classes. -/
inductive Values : Value F → Value F → Prop
  | null : Values .null .null
  | int (n : Int64) : Values (.int n) (.int n)
  | float (x : Float) : Values (.float x) (.float x)
  | bool (b : Bool) : Values (.bool b) (.bool b)
  | str (s : String) : Values (.str s) (.str s)
  | object {o o' : ObjectRef F} : P.Objects W o o' → Values (.object o) (.object o')
  | cls {c c' : RuntimeClass F} : P.Views c c' → Values (.cls c) (.cls c')
  | namespace (path : String) : Values (.namespace path) (.namespace path)

/-- Paired variables are declared by matching classes and hold paired values. -/
structure Variables (v v' : Variable F) : Prop where
  cls : P.Classes v.cls v'.cls
  value : P.Values W v.value v'.value

/-- Entries of the same keys, in order, whose variables correspond. -/
abbrev Entries {κ : Type} (vs vs' : List (κ × Variable F)) : Prop :=
  List.Forall₂ (fun a b => b.1 = a.1 ∧ P.Variables W a.2 b.2) vs vs'

/-- Host states are paired where they hold paired items, or the same count. -/
inductive HostStates : HostState F → HostState F → Prop
  | items {xs xs' : List (Variable F)} :
      List.Forall₂ (P.Variables W) xs xs' → HostStates (.items xs) (.items xs')
  | count (n : Int) : HostStates (.count n) (.count n)

/-- Paired objects hold paired variables under the same names, in the same order. -/
structure Instances (i i' : Instance F) : Prop where
  fields : P.Entries W i.fields i'.fields
  host : Option.Rel (P.HostStates W) i.host i'.host

/-! ## Scopes and machines -/

/-- Paired contexts are of one sort and about paired objects and matching classes. -/
inductive Contexts : Context F → Context F → Prop
  | global : Contexts .global .global
  | static {c c' : RuntimeClass F} : P.Classes c c' → Contexts (.static c) (.static c')
  | instance {o o' : ObjectRef F} {c c' : RuntimeClass F} :
      P.Objects W o o' → P.Classes c c' → Contexts (.instance o c) (.instance o' c')

/--
Paired levels hold paired variables under the same names and the same type parameters; each memo is
good for the table of its own side.
-/
structure Levels (l l' : Level F) : Prop where
  locals : P.Entries W l.locals l'.locals
  generics : l'.generics = l.generics
  cache : l.cache.Valid P.left.table
  cache' : l'.cache.Valid P.right.table

/-- Paired scopes have paired contexts, and as many levels, paired in order. -/
structure Scopes (s s' : Scope F) : Prop where
  context : P.Contexts W s.context s'.context
  levels : List.Forall₂ (P.Levels W) s.levels s'.levels

/--
The value of a static field that only the right machine has read: an object without contents that
stands for none so far.
-/
structure Spare (heap' : Array (Instance F)) (key : String × String) (v' : Variable F) : Prop where
  spare : P.spare = some (key, v'.cls)
  object : ∃ id, v'.value = .object ⟨id, v'.cls⟩ ∧ heap'[id]? = some { fields := [] } ∧
    ∀ k, ¬ W.Paired k id

/-- A static field on both sides: unread, read, or read by the right machine only. -/
inductive StaticFields (heap' : Array (Instance F)) (key : String × String) :
    Option (Variable F) → Option (Variable F) → Prop
  | unread : StaticFields heap' key none none
  | read {v v' : Variable F} : P.Variables W v v' → StaticFields heap' key (some v) (some v')
  | spare {v' : Variable F} : P.Spare W heap' key v' → StaticFields heap' key none (some v')

/-- Machines at corresponding points, where a body sees some generic parameters at most. -/
structure Machines (g : List String) (m m' : Machine F) : Prop where
  registry : m.registry.Valid P.left.table
  registry' : m'.registry.Valid P.right.table
  heap : ∀ {i j}, W.Paired i j → ∃ x x', m.heap[i]? = some x ∧ m'.heap[j]? = some x' ∧
    P.Instances W x x'
  statics : ∀ key, P.StaticFields W m'.heap key (m.statics.lookup key) (m'.statics.lookup key)
  stack : m'.stack = m.stack
  output : ∃ text, m.output = P.start.output ++ text ∧ m'.output = P.start'.output ++ text
  events : ∃ told, m.events = told ++ P.start.events ∧ m'.events = told ++ P.start'.events
  scope : P.Scopes W m.scope m'.scope
  within : m.scope.typeParams.Within g

variable {P} {W} {V : Pairing}

/-! ## Growing pairings -/

theorem Objects.mono (hW : W ≤ V) {o o' : ObjectRef F} (h : P.Objects W o o') :
    P.Objects V o o' :=
  ⟨hW _ _ h.id, h.cls⟩

/-- Values that are paired stay so as objects are made. -/
theorem Values.mono (hW : W ≤ V) {v v' : Value F} (h : P.Values W v v') : P.Values V v v' := by
  cases h with
  | null => exact .null
  | int n => exact .int n
  | float x => exact .float x
  | bool b => exact .bool b
  | str s => exact .str s
  | object ho => exact .object (ho.mono hW)
  | cls hc => exact .cls hc
  | «namespace» path => exact .namespace path

/-- Variables that are paired stay so as objects are made. -/
theorem Variables.mono (hW : W ≤ V) {v v' : Variable F} (h : P.Variables W v v') :
    P.Variables V v v' :=
  ⟨h.cls, h.value.mono hW⟩

theorem variables_mono (hW : W ≤ V) {vs vs' : List (Variable F)}
    (h : List.Forall₂ (P.Variables W) vs vs') : List.Forall₂ (P.Variables V) vs vs' :=
  h.imp fun _ _ => Variables.mono hW

theorem entries_mono {κ : Type} (hW : W ≤ V) {vs vs' : List (κ × Variable F)}
    (h : P.Entries W vs vs') : P.Entries V vs vs' :=
  h.imp fun _ _ hv => ⟨hv.1, hv.2.mono hW⟩

theorem HostStates.mono (hW : W ≤ V) {s s' : HostState F} (h : P.HostStates W s s') :
    P.HostStates V s s' := by
  cases h with
  | items hxs => exact .items (variables_mono hW hxs)
  | count n => exact .count n

theorem Instances.mono (hW : W ≤ V) {i i' : Instance F} (h : P.Instances W i i') :
    P.Instances V i i' where
  fields := entries_mono hW h.fields
  host := by
    rcases rel_elim h.host with ⟨h1, h2⟩ | ⟨s, s', h1, h2, hs⟩
    · rw [h1, h2]
      exact .none
    · rw [h1, h2]
      exact .some (hs.mono hW)

theorem Contexts.mono (hW : W ≤ V) {c c' : Context F} (h : P.Contexts W c c') :
    P.Contexts V c c' := by
  cases h with
  | global => exact .global
  | static hc => exact .static hc
  | «instance» ho hc => exact .instance (ho.mono hW) hc

theorem Levels.mono (hW : W ≤ V) {l l' : Level F} (h : P.Levels W l l') : P.Levels V l l' :=
  ⟨entries_mono hW h.locals, h.generics, h.cache, h.cache'⟩

/-- Scopes that are paired stay so as objects are made. -/
theorem Scopes.mono (hW : W ≤ V) {s s' : Scope F} (h : P.Scopes W s s') : P.Scopes V s s' :=
  ⟨h.context.mono hW, h.levels.imp fun _ _ => Levels.mono hW⟩

/-- A static field stays as it is when more objects stand for each other, if a spare one does. -/
theorem StaticFields.mono (hW : W ≤ V) {heap heap' : Array (Instance F)} {key : String × String}
    {v v' : Option (Variable F)} (h : P.StaticFields W heap key v v')
    (hspare : ∀ v', P.Spare W heap key v' → P.Spare V heap' key v') :
    P.StaticFields V heap' key v v' := by
  cases h with
  | unread => exact .unread
  | read hv => exact .read (hv.mono hW)
  | spare hv => exact .spare (hspare _ hv)

/-! ## What can be seen of values -/

namespace Values

variable {v v' w w' : Value F}

/-- The default value of a class depends only on which primitive type it is. -/
theorem defaultFor {c c' : RuntimeClass F} (hc : P.Classes c c') :
    P.Values W (Value.defaultFor c) (Value.defaultFor c') := by
  unfold Value.defaultFor
  rw [hc.primitive?_eq]
  cases c.primitive? with
  | none => exact .null
  | some p =>
    cases p with
    | int => exact .int 0
    | float => exact .float 0.0
    | boolean => exact .bool false

/-- Paired values are converted to the same text: an object shows its class, never its place. -/
theorem text_eq (h : P.Values W v v') : v'.text = v.text := by
  cases h with
  | object ho => rw [Value.text, Value.text, ho.cls.text_eq]
  | cls hc => rw [Value.text, Value.text, hc.cls.name_eq]
  | _ => rfl

theorem shown_eq (h : P.Values W v v') : v'.shown = v.shown := by
  cases h with
  | object ho => exact (Values.object ho).text_eq
  | cls hc => rw [Value.shown, Value.shown, hc.cls.name_eq]
  | _ => rfl

/-- Objects are the same on one side if and only if they are on the other. -/
theorem equals_eq (h : P.Values W v v') (h' : P.Values W w w') : v'.equals w' = v.equals w := by
  cases h with
  | object ho =>
    cases h' with
    | object ho' =>
      rw [Value.equals, Value.equals, Bool.eq_iff_iff, beq_iff_eq, beq_iff_eq]
      constructor
      · intro he
        have hid' := ho'.id
        rw [← he] at hid'
        exact W.left_unique ho.id hid'
      · intro he
        have hid' := ho'.id
        rw [← he] at hid'
        exact W.right_unique ho.id hid'
    | _ => rfl
  | cls hc =>
    cases h' with
    | cls hc' => exact hc.cls.isSame_eq hc'.cls
    | _ => rfl
  | _ => cases h' <;> rfl

end Values

/-- Paired variables are declared at one type. -/
theorem Variables.ty_eq {v v' : Variable F} (h : P.Variables W v v') : v'.ty = v.ty :=
  h.cls.asTy_eq

theorem Variables.runtimeTy_eq {v v' : Variable F} (h : P.Variables W v v') :
    v'.runtimeTy = v.runtimeTy := by
  unfold Variable.runtimeTy
  have hv := h.value
  generalize v.value = x, v'.value = x' at hv
  cases hv with
  | object ho => exact ho.cls.asTy_eq
  | _ => exact h.ty_eq

/-- Overload resolution sees the same types on both sides. -/
theorem declaredTypes_eq {vs vs' : List (Variable F)} (h : List.Forall₂ (P.Variables W) vs vs') :
    declaredTypes vs' = declaredTypes vs := by
  unfold declaredTypes
  induction h with
  | nil => rfl
  | cons hv _ ih => rw [List.map_cons, List.map_cons, ih, hv.ty_eq]

/-! ## Entries -/

section Entries

variable {κ : Type} [BEq κ] [LawfulBEq κ] {vs vs' : List (κ × Variable F)}

omit [LawfulBEq κ] in
/-- Paired entries are found under the same keys. -/
theorem Entries.lookup (h : P.Entries W vs vs') (key : κ) :
    Option.Rel (P.Variables W) (vs.lookup key) (vs'.lookup key) := by
  induction h with
  | nil => exact .none
  | @cons a b rest rest' hab _ ih =>
    obtain ⟨k, v⟩ := a
    obtain ⟨k', v'⟩ := b
    obtain ⟨hk, hv⟩ := hab
    cases hk
    rw [List.lookup_cons, List.lookup_cons]
    cases key == k with
    | true => exact .some hv
    | false => exact ih

end Entries

theorem Entries.setIn {vs vs' : List (String × Variable F)} (h : P.Entries W vs vs')
    (name : String) {v v' : Value F} (hv : P.Values W v v') :
    P.Entries W (Instance.setIn name v vs) (Instance.setIn name v' vs') := by
  induction h with
  | nil => exact .nil
  | @cons a b rest rest' hab hrest ih =>
    obtain ⟨k, x⟩ := a
    obtain ⟨k', x'⟩ := b
    obtain ⟨hk, hx⟩ := hab
    cases hk
    rw [Instance.setIn, Instance.setIn]
    split
    · exact .cons ⟨rfl, hx.cls, hv⟩ hrest
    · exact .cons ⟨rfl, hx⟩ ih

theorem Entries.filter {vs vs' : List (String × Variable F)} (h : P.Entries W vs vs')
    (name : String) :
    P.Entries W (vs.filter fun e => e.1 ≠ name) (vs'.filter fun e => e.1 ≠ name) := by
  induction h with
  | nil => exact .nil
  | @cons a b rest rest' hab _ ih =>
    rw [List.filter_cons, List.filter_cons, hab.1]
    split
    · exact .cons hab ih
    · exact ih

/-! ## Scopes -/

namespace Scopes

variable {s s' : Scope F}

/-- Types that a body writes are resolved under the same parameters on both sides. -/
theorem typeParams_eq (h : P.Scopes W s s') : s'.typeParams = s.typeParams := by
  have hlevels : s'.levels.flatMap Level.generics = s.levels.flatMap Level.generics := by
    have hl := h.levels
    generalize s.levels = ls, s'.levels = ls' at hl
    induction hl with
    | nil => rfl
    | cons hl _ ih => rw [List.flatMap_cons, List.flatMap_cons, ih, hl.generics]
  have hcontext : s'.context.typeParams = s.context.typeParams := by
    have hc := h.context
    generalize s.context = c, s'.context = c' at hc
    cases hc with
    | «instance» ho hc => exact hc.params_eq
    | _ => rfl
  rw [Scope.typeParams, Scope.typeParams, hlevels, hcontext]

theorem push (h : P.Scopes W s s') : P.Scopes W s.push s'.push :=
  ⟨h.context, .cons ⟨.nil, rfl, .empty, .empty⟩ h.levels⟩

theorem pop (h : P.Scopes W s s') : P.Scopes W s.pop s'.pop := by
  obtain ⟨context, current, outer⟩ := s
  obtain ⟨context', current', outer'⟩ := s'
  obtain ⟨hcontext, hlevels⟩ := h
  cases hlevels with
  | cons hcurrent houter =>
    cases houter with
    | nil => exact ⟨hcontext, .cons hcurrent .nil⟩
    | cons hl hrest => exact ⟨hcontext, .cons hl hrest⟩

/-- Defining a variable keeps scopes paired. -/
theorem define (h : P.Scopes W s s') (name : String) {v v' : Variable F}
    (hv : P.Variables W v v') : P.Scopes W (s.define name v) (s'.define name v') := by
  obtain ⟨hcontext, hlevels⟩ := h
  cases hlevels with
  | cons hcurrent houter =>
    refine ⟨hcontext, .cons ⟨?_, hcurrent.generics, hcurrent.cache, hcurrent.cache'⟩ houter⟩
    exact .cons ⟨rfl, hv⟩ (hcurrent.locals.filter name)

/-- A name is found in both scopes or in neither, and what is found is paired. -/
theorem lookup (h : P.Scopes W s s') (name : String) :
    Option.Rel (P.Variables W) (s.lookup name) (s'.lookup name) := by
  unfold Scope.lookup
  have hl := h.levels
  generalize s.levels = ls, s'.levels = ls' at hl
  induction hl with
  | nil => exact .none
  | cons hl _ ih =>
    rw [Scope.lookupIn, Scope.lookupIn]
    rcases rel_elim (hl.locals.lookup name) with ⟨h1, h2⟩ | ⟨v, v', h1, h2, hv⟩
    · rw [h1, h2]
      exact ih
    · rw [h1, h2]
      exact .some hv

theorem assignIn {ls ls' : List (Level F)} (hl : List.Forall₂ (P.Levels W) ls ls') (name : String)
    {v v' : Value F} (hv : P.Values W v v') :
    Option.Rel (List.Forall₂ (P.Levels W)) (Scope.assignIn name v ls)
      (Scope.assignIn name v' ls') := by
  induction hl with
  | nil => exact .none
  | cons hl hrest ih =>
    rw [Scope.assignIn, Scope.assignIn]
    rcases rel_elim (hl.locals.lookup name) with ⟨h1, h2⟩ | ⟨x, x', h1, h2, hx⟩
    · rw [h1, h2]
      rcases rel_elim ih with ⟨h3, h4⟩ | ⟨ks, ks', h3, h4, hks⟩
      · simp only [h3, h4, Option.map_none]
        exact .none
      · simp only [h3, h4, Option.map_some]
        exact .some (.cons hl hks)
    · rw [h1, h2]
      exact .some (.cons ⟨hl.locals.setIn name hv, hl.generics, hl.cache, hl.cache'⟩ hrest)

/-- Assigning to a name succeeds in both scopes or in neither. -/
theorem assign (h : P.Scopes W s s') (name : String) {v v' : Value F} (hv : P.Values W v v') :
    Option.Rel (P.Scopes W) (s.assign name v) (s'.assign name v') := by
  unfold Scope.assign
  rcases rel_elim (assignIn h.levels name hv) with ⟨h1, h2⟩ | ⟨ls, ls', h1, h2, hls⟩
  · rw [h1, h2]
    exact .none
  · rw [h1, h2]
    cases hls with
    | nil => exact .none
    | cons hl hrest => exact .some ⟨h.context, .cons hl hrest⟩

theorem this? (h : P.Scopes W s s') :
    Option.Rel (P.Variables W) s.context.this? s'.context.this? := by
  have hc := h.context
  generalize s.context = c, s'.context = c' at hc
  cases hc with
  | «instance» ho hc => exact .some ⟨ho.cls, .object ho⟩
  | _ => exact .none

theorem instance? (h : P.Scopes W s s') :
    Option.Rel (P.Objects W) s.context.instance? s'.context.instance? := by
  have hc := h.context
  generalize s.context = c, s'.context = c' at hc
  cases hc with
  | «instance» ho hc => exact .some ho
  | _ => exact .none

end Scopes

/-! ## Machines -/

namespace Machines

variable {g : List String} {m m' : Machine F} (h : P.Machines W g m m')

include h

/-- The memos of the left machine are good for the left table. -/
theorem remembers_left : m.Remembers P.left.table where
  registry := h.registry
  caches := by
    intro l hl
    obtain ⟨l', -, hll⟩ := exists_of_forall₂_mem h.scope.levels.flip hl
    exact hll.cache

theorem remembers_right : m'.Remembers P.right.table where
  registry := h.registry'
  caches := by
    intro l hl
    obtain ⟨l', -, hll⟩ := exists_of_forall₂_mem h.scope.levels hl
    exact hll.cache'

/-- Memos are private to a side: each may be replaced by any that is good for its table. -/
theorem withMemory {r r' : Registry F} {k k' : ResolutionCache (RuntimeClass F)}
    (hr : r.Valid P.left.table) (hk : k.Valid P.left.table) (hr' : r'.Valid P.right.table)
    (hk' : k'.Valid P.right.table) :
    P.Machines W g (m.withMemory r k) (m'.withMemory r' k') where
  registry := hr
  registry' := hr'
  heap := h.heap
  statics := h.statics
  stack := h.stack
  output := h.output
  events := h.events
  scope := by
    obtain ⟨hcontext, hlevels⟩ := h.scope
    cases hlevels with
    | cons hcurrent houter =>
      exact ⟨hcontext, .cons ⟨hcurrent.locals, hcurrent.generics, hk, hk'⟩ houter⟩
  within := h.within

/-- Another scope that corresponds, where a body sees other parameters. -/
theorem withScope {s s' : Scope F} {g' : List String} (hs : P.Scopes W s s')
    (hw : s.typeParams.Within g') :
    P.Machines W g' { m with scope := s } { m' with scope := s' } :=
  ⟨h.registry, h.registry', h.heap, h.statics, h.stack, h.output, h.events, hs, hw⟩

theorem withOutput (text : String) :
    P.Machines W g { m with output := m.output ++ text }
      { m' with output := m'.output ++ text } := by
  obtain ⟨before, h1, h2⟩ := h.output
  refine ⟨h.registry, h.registry', h.heap, h.statics, h.stack, ⟨before ++ text, ?_, ?_⟩, h.events,
    h.scope, h.within⟩
  · rw [h1, String.append_assoc]
  · rw [h2, String.append_assoc]

/-- Static fields may be filled on both sides at once. -/
theorem withStatic (key : String × String) {v v' : Variable F} (hv : P.Variables W v v') :
    P.Machines W g { m with statics := (key, v) :: m.statics }
      { m' with statics := (key, v') :: m'.statics } := by
  refine ⟨h.registry, h.registry', h.heap, fun other => ?_, h.stack, h.output, h.events, h.scope,
    h.within⟩
  dsimp only
  rw [List.lookup_cons, List.lookup_cons]
  cases other == key with
  | true => exact .read hv
  | false => exact h.statics other

theorem withStack {stack stack' : List Frame} (hs : stack' = stack) :
    P.Machines W g { m with stack } { m' with stack := stack' } :=
  ⟨h.registry, h.registry', h.heap, h.statics, hs, h.output, h.events, h.scope, h.within⟩

/-- The observer is told of the same event, with equal depths. -/
theorem tell (event : Event) : P.Machines W g (P.left.tell event m) (P.right.tell event m') := by
  unfold Engine.tell
  rw [P.observed_eq]
  split
  · obtain ⟨told, h1, h2⟩ := h.events
    refine ⟨h.registry, h.registry', h.heap, h.statics, h.stack, h.output, ⟨event :: told, ?_, ?_⟩,
      h.scope, h.within⟩
    · rw [h1, List.cons_append]
    · rw [h2, List.cons_append]
  · exact h

theorem pushFrame (frame : Frame) :
    P.Machines W g (P.left.pushFrame frame m) (P.right.pushFrame frame m') := by
  have ht := h.tell (.enter frame)
  exact ht.withStack (by rw [ht.stack])

theorem popFrame : P.Machines W g (P.left.popFrame m) (P.right.popFrame m') := by
  unfold Engine.popFrame
  rw [h.stack]
  cases m.stack with
  | nil => exact h
  | cons frame rest => exact (h.withStack rfl).tell (.exit frame)

/-! ## The heap -/

/-- The contents of objects that stand for each other. -/
theorem contents {o o' : ObjectRef F} (ho : P.Objects W o o') :
    Option.Rel (P.Instances W) m.heap[o.id]? m'.heap[o'.id]? := by
  obtain ⟨x, x', h1, h2, hx⟩ := h.heap ho.id
  rw [h1, h2]
  exact .some hx

theorem modifyContents {o o' : ObjectRef F} (ho : P.Objects W o o') {f f' : Instance F → Instance F}
    (hf : ∀ {x x'}, P.Instances W x x' → P.Instances W (f x) (f' x')) :
    P.Machines W g { m with heap := m.heap.modify o.id f }
      { m' with heap := m'.heap.modify o'.id f' } where
  registry := h.registry
  registry' := h.registry'
  heap := by
    intro i j hij
    obtain ⟨x, x', h1, h2, hx⟩ := h.heap hij
    simp only [Array.getElem?_modify, h1, h2]
    by_cases hi : o.id = i
    · have hj : o'.id = j := W.right_unique ho.id (hi ▸ hij)
      exact ⟨f x, f' x', by simp [hi], by simp [hj], hf hx⟩
    · have hj : o'.id ≠ j := fun hj => hi (W.left_unique ho.id (hj ▸ hij))
      exact ⟨x, x', by simp [hi], by simp [hj], hx⟩
  statics := by
    intro key
    refine (h.statics key).mono (le_refl W) fun v' hspare => ?_
    obtain ⟨hkey, id, hvalue, hempty, hfree⟩ := hspare
    -- A spare object stands for none, so it is not the one that changes.
    have hne : o'.id ≠ id := fun heq => hfree o.id (heq ▸ ho.id)
    exact ⟨hkey, id, hvalue, by simp [Array.getElem?_modify, hne, hempty], hfree⟩
  stack := h.stack
  output := h.output
  events := h.events
  scope := h.scope
  within := h.within

/-- New objects stand for each other from then on. -/
theorem pushObject {x x' : Instance F} (hx : P.Instances W x x') :
    ∃ V, W ≤ V ∧ V.Paired m.heap.size m'.heap.size ∧
      P.Machines V g { m with heap := m.heap.push x } { m' with heap := m'.heap.push x' } := by
  have hlt : ∀ {i j}, W.Paired i j → i < m.heap.size ∧ j < m'.heap.size := by
    intro i j hij
    obtain ⟨y, y', h1, h2, -⟩ := h.heap hij
    exact ⟨(Array.getElem?_eq_some_iff.mp h1).1, (Array.getElem?_eq_some_iff.mp h2).1⟩
  have hi : ∀ k, ¬ W.Paired m.heap.size k := fun k hk => Nat.lt_irrefl _ (hlt hk).1
  have hj : ∀ k, ¬ W.Paired k m'.heap.size := fun k hk => Nat.lt_irrefl _ (hlt hk).2
  have hle : W ≤ W.insert m.heap.size m'.heap.size hi hj := Pairing.le_insert
  refine ⟨W.insert m.heap.size m'.heap.size hi hj, hle, Pairing.paired_insert, ?_⟩
  refine ⟨h.registry, h.registry', ?_, fun key => ?_, h.stack, h.output, h.events,
    h.scope.mono hle, h.within⟩
  · rintro i j (hij | ⟨rfl, rfl⟩)
    · obtain ⟨y, y', h1, h2, hy⟩ := h.heap hij
      obtain ⟨hil, hjl⟩ := hlt hij
      refine ⟨y, y', ?_, ?_, hy.mono hle⟩
      · rw [Array.getElem?_push, if_neg (Nat.ne_of_lt hil), h1]
      · rw [Array.getElem?_push, if_neg (Nat.ne_of_lt hjl), h2]
    · exact ⟨x, x', by simp, by simp, hx.mono hle⟩
  · refine (h.statics key).mono hle fun v' hspare => ?_
    obtain ⟨hkey, id, hvalue, hempty, hfree⟩ := hspare
    have hlt' : id < m'.heap.size := (Array.getElem?_eq_some_iff.mp hempty).1
    refine ⟨hkey, id, hvalue, ?_, ?_⟩
    · rw [Array.getElem?_push, if_neg (Nat.ne_of_lt hlt'), hempty]
    · rintro k (hk | ⟨-, rfl⟩)
      · exact hfree k hk
      · exact Nat.lt_irrefl _ hlt'

/--
The left machine reads a static field that the right one has read before: its new object stands for
the spare one from then on.
-/
theorem readSpare {key : String × String} {v' : Variable F} (hspare : P.Spare W m'.heap key v')
    {c : RuntimeClass F} (hc : P.Classes c v'.cls) {r : Registry F} (hr : r.Valid P.left.table) :
    ∃ V, W ≤ V ∧ P.Variables V ⟨c, .object ⟨m.heap.size, c⟩⟩ v' ∧
      (m'.statics.lookup key = some v' → P.Machines V g
        { m with
          registry := r
          heap := m.heap.push { fields := [] }
          statics := (key, ⟨c, .object ⟨m.heap.size, c⟩⟩) :: m.statics } m') := by
  obtain ⟨hkey, id, hvalue, hempty, hfree⟩ := hspare
  have hlt : ∀ {i j}, W.Paired i j → i < m.heap.size := by
    intro i j hij
    obtain ⟨y, y', h1, -, -⟩ := h.heap hij
    exact (Array.getElem?_eq_some_iff.mp h1).1
  have hi : ∀ k, ¬ W.Paired m.heap.size k := fun k hk => Nat.lt_irrefl _ (hlt hk)
  have hle : W ≤ W.insert m.heap.size id hi hfree := Pairing.le_insert
  have hv : P.Variables (W.insert m.heap.size id hi hfree) ⟨c, .object ⟨m.heap.size, c⟩⟩ v' := by
    refine ⟨hc, ?_⟩
    rw [hvalue]
    exact .object ⟨Pairing.paired_insert, hc⟩
  refine ⟨W.insert m.heap.size id hi hfree, hle, hv, fun hread => ?_⟩
  refine ⟨hr, h.registry', ?_, fun other => ?_, h.stack, h.output, h.events, h.scope.mono hle,
    h.within⟩
  · rintro i j (hij | ⟨rfl, rfl⟩)
    · obtain ⟨y, y', h1, h2, hy⟩ := h.heap hij
      refine ⟨y, y', ?_, h2, hy.mono hle⟩
      rw [Array.getElem?_push, if_neg (Nat.ne_of_lt (hlt hij)), h1]
    · exact ⟨{ fields := [] }, { fields := [] }, by simp, hempty, .nil, .none⟩
  · dsimp only
    rw [List.lookup_cons]
    cases hother : other == key with
    | true =>
      cases beq_iff_eq.mp hother
      rw [hread]
      exact .read hv
    | false =>
      refine (h.statics other).mono hle fun w' hw => ?_
      -- There is one spare field only, and this is another one.
      have hsame := congrArg Prod.fst (Option.some.inj (hw.spare.symm.trans hkey))
      rw [beq_iff_eq.mpr hsame] at hother
      cases hother

end Machines

end EnginePair

end Middleweight
