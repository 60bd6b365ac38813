import Mathlib.Data.List.Forall2
import Mathlib.Data.Option.Basic
import Middleweight.Members.Source
import Middleweight.Proofs.ClassTable.Subtype

/-!
# Resolution over two universes of classes

Resolution asks a universe of classes for names, bases and typed members and nothing else. So two
universes whose classes correspond in these answers resolve every call alike, although their classes
are different things and their signatures come about in different ways.

* `MemberSource.methodFrom_related`, `MemberSource.resolveConstructor_related` : corresponding
  classes resolve alike
* `MemberSource.methodFrom_of_le` : a budget that covers the walk to the root gives the answer of
  every larger one
-/

namespace Middleweight

/-- Two results that fail with the same error, or succeed with related values. -/
inductive Alike {ε α β : Type} (R : α → β → Prop) : Except ε α → Except ε β → Prop
  | error (e : ε) : Alike R (.error e) (.error e)
  | ok {a : α} {b : β} : R a b → Alike R (.ok a) (.ok b)

theorem Alike.elim {ε α β : Type} {R : α → β → Prop} {x : Except ε α} {y : Except ε β}
    (h : Alike R x y) :
    (∃ e, x = .error e ∧ y = .error e) ∨ ∃ a b, x = .ok a ∧ y = .ok b ∧ R a b := by
  cases h with
  | error e => exact .inl ⟨e, rfl, rfl⟩
  | ok hr => exact .inr ⟨_, _, rfl, rfl, hr⟩

theorem Alike.mono {ε α β : Type} {R S : α → β → Prop} (h : ∀ a b, R a b → S a b)
    {x : Except ε α} {y : Except ε β} (hx : Alike R x y) : Alike S x y := by
  cases hx with
  | error e => exact .error e
  | ok hr => exact .ok (h _ _ hr)

theorem Alike.eq_map {ε α β : Type} {f : β → α} {x : Except ε α} {y : Except ε β}
    (h : Alike (fun a b => a = f b) x y) : x = y.map f := by
  cases h with
  | error e => rfl
  | ok hr => rw [hr]; rfl

theorem Alike.map_eq_map {ε α β γ : Type} {f : α → γ} {g : β → γ} {x : Except ε α}
    {y : Except ε β} (h : Alike (fun a b => f a = g b) x y) : x.map f = y.map g := by
  cases h with
  | error e => rfl
  | ok hr => simp only [Except.map, hr]

variable {F O O' : Type}

/--
Two outcomes of resolution that differ in nothing but owners and members, which are related; how
members are related can depend on their owner.
-/
inductive Resolution.Related (RO : O → O' → Prop) (RM : O → Member F → Member F → Prop) :
    Resolution F O → Resolution F O' → Prop
  | found {o : O} {o' : O'} {m m' : Member F} (s : Signature) (b : Bindings) :
      RO o o' → RM o m m' → Related RO RM (.found ⟨o, m, s, b⟩) (.found ⟨o', m', s, b⟩)
  | defaultConstructor : Related RO RM .defaultConstructor .defaultConstructor
  | ambiguous (a : Ambiguity) : Related RO RM (.ambiguous a) (.ambiguous a)
  | missing (m : Missing) : Related RO RM (.missing m) (.missing m)

/-- Typed members, the same but for their templates, which are related. -/
def SameTyped (RM : Member F → Member F → Prop) (a b : Member F × Signature) : Prop :=
  RM a.1 b.1 ∧ a.2 = b.2

/-- The same for applicable members, which also come with what the arguments bind. -/
def SameApplicable (RM : Member F → Member F → Prop) (a b : Member F × Signature × Bindings) :
    Prop :=
  RM a.1 b.1 ∧ a.2 = b.2

namespace ClassTable

/-- Whether two tables find the same signatures applicable to some arguments. -/
def SameApplicability (t t' : ClassTable F) : Prop :=
  ∀ s args, t.applicable s args = t'.applicable s args

/-- What is applicable depends on the base classes of classes only. -/
theorem sameApplicability_of_ancestors_eq {t t' : ClassTable F}
    (h : ∀ name, t'.ancestors name = t.ancestors name) : t.SameApplicability t' := by
  intro s args
  unfold applicable
  simp only [checkAll_congr h]

theorem applicables_cons (t : ClassTable F) (m : Member F) (s : Signature)
    (rest : List (Member F × Signature)) (args : List Ty) :
    t.applicables ((m, s) :: rest) args =
      match t.applicable s args with
      | some b => (m, s, b) :: t.applicables rest args
      | none => t.applicables rest args := by
  simp only [applicables, List.filterMap_cons]
  cases t.applicable s args <;> rfl

theorem applicables_congr {t t' : ClassTable F} (h : SameApplicability t t')
    (cs : List (Member F × Signature)) (args : List Ty) :
    t.applicables cs args = t'.applicables cs args := by
  unfold applicables
  simp only [h _ args]

theorem applicables_related {t t' : ClassTable F} (ht : SameApplicability t t')
    {RM : Member F → Member F → Prop} {cs cs' : List (Member F × Signature)}
    (h : List.Forall₂ (SameTyped RM) cs cs') (args : List Ty) :
    List.Forall₂ (SameApplicable RM) (t.applicables cs args) (t'.applicables cs' args) := by
  induction h with
  | nil => exact .nil
  | @cons a b rest rest' hab _ ih =>
    obtain ⟨m, s⟩ := a
    obtain ⟨m', s'⟩ := b
    obtain ⟨hm, hs⟩ := hab
    cases hs
    rw [applicables_cons, applicables_cons, ← ht s args]
    cases t.applicable s args with
    | none => exact ih
    | some b => exact .cons ⟨hm, rfl⟩ ih

/-- Related applicable members have the same signatures. -/
theorem signatures_eq_of_sameApplicable {RM : Member F → Member F → Prop}
    {xs ys : List (Member F × Signature × Bindings)} (h : List.Forall₂ (SameApplicable RM) xs ys) :
    (xs.map fun (_, s, _) => s) = ys.map fun (_, s, _) => s := by
  induction h with
  | nil => rfl
  | cons hab _ ih => simp only [List.map_cons, hab.2, ih]

/-- Related applicable members are none, one each, or several with the same signatures. -/
theorem sameApplicable_cases {RM : Member F → Member F → Prop}
    {xs ys : List (Member F × Signature × Bindings)} (h : List.Forall₂ (SameApplicable RM) xs ys) :
    (xs = [] ∧ ys = []) ∨
    (∃ m m' s b, xs = [(m, s, b)] ∧ ys = [(m', s, b)] ∧ RM m m') ∨
    ∃ x₁ x₂ xs' y₁ y₂ ys', xs = x₁ :: x₂ :: xs' ∧ ys = y₁ :: y₂ :: ys' ∧
      (xs.map fun (_, s, _) => s) = ys.map fun (_, s, _) => s := by
  have hsig := signatures_eq_of_sameApplicable h
  cases h with
  | nil => exact .inl ⟨rfl, rfl⟩
  | @cons x y xs ys hxy hrest =>
    obtain ⟨m, s, b⟩ := x
    obtain ⟨m', s', b'⟩ := y
    obtain ⟨hm, hsb⟩ := hxy
    cases hsb
    cases hrest with
    | nil => exact .inr (.inl ⟨m, m', s, b, rfl, rfl, hm⟩)
    | cons _ _ => exact .inr (.inr ⟨_, _, _, _, _, _, rfl, rfl, hsig⟩)

end ClassTable

namespace MemberSource

/-! ## Methods -/

/-- Two universes whose related classes agree in names, bases and typed methods of one kind. -/
structure MethodsAgree (src : MemberSource F O) (src' : MemberSource F O') (RO : O → O' → Prop)
    (RM : O → Member F → Member F → Prop) (isStatic : Bool) : Prop where
  ownerName : ∀ {o o'}, RO o o' → src.ownerName o = src'.ownerName o'
  base : ∀ {o o'}, RO o o' → Alike (Option.Rel RO) (src.base o) (src'.base o')
  methods : ∀ {o o'}, RO o o' → ∀ name, Alike (List.Forall₂ (SameTyped (RM o)))
    (src.methods o name isStatic) (src'.methods o' name isStatic)

variable {src : MemberSource F O} {src' : MemberSource F O'} {RO : O → O' → Prop}
  {RM : O → Member F → Member F → Prop} {t t' : ClassTable F}

/-- Related classes resolve a method alike, level by level. -/
theorem methodFrom_related {isStatic : Bool} (h : MethodsAgree src src' RO RM isStatic)
    (ht : ClassTable.SameApplicability t t') {start : O} {start' : O'} (hs : RO start start')
    (name : String) (args : List Ty) (fuel : Nat) :
    ∀ {o : O} {o' : O'}, RO o o' → Alike (Resolution.Related RO RM)
      (src.methodFrom t start name isStatic args fuel o)
      (src'.methodFrom t' start' name isStatic args fuel o') := by
  induction fuel with
  | zero =>
    intro o o' ho
    rw [methodFrom, methodFrom, h.ownerName ho]
    exact .error _
  | succ fuel ih =>
    intro o o' ho
    rw [methodFrom, methodFrom]
    rcases (h.methods ho name).elim with ⟨e, h1, h2⟩ | ⟨cs, cs', h1, h2, hc⟩
    · simp only [h1, h2]
      exact .error e
    -- One applicable member is found; none leaves the call to the base class.
    · rcases ClassTable.sameApplicable_cases (ClassTable.applicables_related ht hc args) with
        ⟨hx, hy⟩ | ⟨m, m', s, b, hx, hy, hm⟩ | ⟨x₁, x₂, xs, y₁, y₂, ys, hx, hy, hsig⟩
      · simp only [h1, h2, hx, hy]
        rcases (h.base ho).elim with ⟨e, h3, h4⟩ | ⟨b, b', h3, h4, hb⟩
        · simp only [h3, h4]
          exact .error e
        · simp only [h3, h4]
          cases hb with
          | none => rw [h.ownerName hs]; exact .ok (.missing _)
          | some hb => exact ih hb
      · simp only [h1, h2, hx, hy]
        exact .ok (.found s b ho hm)
      · rw [hx, hy] at hsig
        simp only [h1, h2, hx, hy, hsig, h.ownerName ho]
        exact .ok (.ambiguous _)

theorem resolveMethod_related {isStatic : Bool} (h : MethodsAgree src src' RO RM isStatic)
    (ht : ClassTable.SameApplicability t t') {o : O} {o' : O'} (ho : RO o o')
    (hh : src.height o = src'.height o') (name : String) (args : List Ty) :
    Alike (Resolution.Related RO RM) (src.resolveMethod t o name isStatic args)
      (src'.resolveMethod t' o' name isStatic args) := by
  rw [resolveMethod, resolveMethod, hh]
  exact methodFrom_related h ht ho name args _ ho

/-! ## Constructors -/

/-- Related classes with alike typed constructors resolve a construction alike. -/
theorem resolveConstructor_related {o : O} {o' : O'} (ho : RO o o')
    (hn : src.ownerName o = src'.ownerName o')
    (hc : Alike (List.Forall₂ (SameTyped (RM o))) (src.constructors o) (src'.constructors o'))
    (ht : ClassTable.SameApplicability t t') (args : List Ty) :
    Alike (Resolution.Related RO RM) (src.resolveConstructor t o args)
      (src'.resolveConstructor t' o' args) := by
  rw [resolveConstructor, resolveConstructor]
  rcases hc.elim with ⟨e, h1, h2⟩ | ⟨cs, cs', h1, h2, hc⟩
  · simp only [h1, h2]
    exact .error e
  · have hempty : cs.isEmpty = cs'.isEmpty := by cases hc <;> rfl
    simp only [h1, h2, ← hempty, hn]
    by_cases hd : (cs.isEmpty && args.isEmpty) = true
    · rw [if_pos hd, if_pos hd]
      exact .ok .defaultConstructor
    · rw [if_neg hd, if_neg hd]
      rcases ClassTable.sameApplicable_cases (ClassTable.applicables_related ht hc args) with
        ⟨hx, hy⟩ | ⟨m, m', s, b, hx, hy, hm⟩ | ⟨x₁, x₂, xs, y₁, y₂, ys, hx, hy, hsig⟩
      · simp only [hx, hy]
        exact .ok (.missing _)
      · simp only [hx, hy]
        exact .ok (.found s b ho hm)
      · rw [hx, hy] at hsig
        simp only [hx, hy, hsig]
        exact .ok (.ambiguous _)

/-! ## Budgets -/

/-- Whether the walk from a class along its bases ends within a number of classes. -/
def EndsWithin (src : MemberSource F O) : Nat → O → Prop
  | 0, _ => False
  | n + 1, o => ∀ b, src.base o = .ok (some b) → src.EndsWithin n b

/-- A budget that covers the walk gives the answer of every larger one. -/
theorem methodFrom_of_le {start : O} {name : String} {isStatic : Bool} {args : List Ty} :
    ∀ {n fuel : Nat} {o : O}, src.EndsWithin n o → n ≤ fuel →
      src.methodFrom t start name isStatic args fuel o =
        src.methodFrom t start name isStatic args n o
  | 0, _, _, h, _ => absurd h (by simp [EndsWithin])
  | n + 1, 0, _, _, hle => absurd hle (by omega)
  | n + 1, fuel + 1, o, h, hle => by
    rw [methodFrom, methodFrom]
    cases src.methods o name isStatic with
    | error e => rfl
    | ok cs =>
      cases hb : src.base o with
      | error e => rfl
      | ok base =>
        cases base with
        | none => rfl
        | some b => simp only [methodFrom_of_le (h b hb) (Nat.le_of_succ_le_succ hle)]

end MemberSource

end Middleweight
