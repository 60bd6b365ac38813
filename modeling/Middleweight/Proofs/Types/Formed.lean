import Middleweight.Proofs.Types.Open

/-!
# Formed types

A type is formed when each class in it is known and has as many arguments as it has parameters, and
its generic parameters are unbound and among some names. Lowering gives formed types, and putting
formed types in for all parameters gives a type that is formed without any.

* `LoweringContext.formed_lower` : what a written type lowers to
* `Ty.Formed.substitute` : putting types in
-/

namespace Middleweight

namespace Ty

mutual

/-- Whether the classes of a type have the arguments they should, and its parameters are known. -/
def Formed (arity : String → Option Nat) (names : List String) : Ty → Prop
  | cls n args => arity n = some args.length ∧ AllFormed arity names args
  | unbound n => n ∈ names
  | bound _ _ => False

/-- Whether some types are formed. -/
def AllFormed (arity : String → Option Nat) (names : List String) : List Ty → Prop
  | [] => True
  | t :: rest => Formed arity names t ∧ AllFormed arity names rest

end

variable {arity : String → Option Nat} {names : List String}

@[simp] theorem formed_cls {n : String} {args : List Ty} :
    (cls n args).Formed arity names ↔ arity n = some args.length ∧ AllFormed arity names args := by
  rw [Formed]

@[simp] theorem formed_unbound {n : String} : (unbound n).Formed arity names ↔ n ∈ names := by
  rw [Formed]

@[simp] theorem not_formed_bound {n : String} {t : Ty} : ¬ (bound n t).Formed arity names := by
  rw [Formed]
  exact not_false

@[simp] theorem allFormed_nil : AllFormed arity names [] := by
  rw [AllFormed]; trivial

@[simp] theorem allFormed_cons {t : Ty} {ts : List Ty} :
    AllFormed arity names (t :: ts) ↔ t.Formed arity names ∧ AllFormed arity names ts := by
  rw [AllFormed]

theorem allFormed_iff {ts : List Ty} :
    AllFormed arity names ts ↔ ∀ t ∈ ts, t.Formed arity names := by
  induction ts with
  | nil => simp
  | cons t rest ih => simp [ih]

mutual

/-- A type that is formed without parameters is ground. -/
theorem Formed.isGround : ∀ {t : Ty}, t.Formed arity [] → t.IsGround
  | cls _ _, h => isGround_cls.mpr (AllFormed.allGround (formed_cls.mp h).2)
  | unbound _, h => absurd (formed_unbound.mp h) List.not_mem_nil
  | bound _ _, h => absurd h not_formed_bound

theorem AllFormed.allGround : ∀ {ts : List Ty}, AllFormed arity [] ts → AllGround ts
  | [], _ => allGround_nil
  | _ :: _, h =>
    allGround_cons.mpr ⟨(allFormed_cons.mp h).1.isGround, AllFormed.allGround (allFormed_cons.mp h).2⟩

end

/-! ## Putting types in -/

/-- All of some names are bound to types that are formed without parameters. -/
def BindsFormed (arity : String → Option Nat) (b : Bindings) (names : List String) : Prop :=
  ∀ n ∈ names, ∃ t, b.lookup n = some t ∧ t.Formed arity []

mutual

/--
Putting formed types in for the parameters of a formed type gives a formed type without parameters.
-/
theorem Formed.substitute {b : Bindings} (hb : BindsFormed arity b names) :
    ∀ {t : Ty}, t.Formed arity names → (t.substitute b).Formed arity []
  | cls n args, h => by
    obtain ⟨hn, hargs⟩ := formed_cls.mp h
    rw [Ty.substitute, formed_cls, substituteAll_eq_map, List.length_map, ← substituteAll_eq_map]
    exact ⟨hn, AllFormed.substituteAll hb hargs⟩
  | unbound n, h => by
    obtain ⟨t, ht, hformed⟩ := hb n (formed_unbound.mp h)
    rw [Ty.substitute, ht]
    exact hformed
  | bound _ _, h => absurd h not_formed_bound

theorem AllFormed.substituteAll {b : Bindings} (hb : BindsFormed arity b names) :
    ∀ {ts : List Ty}, AllFormed arity names ts → AllFormed arity [] (substituteAll b ts)
  | [], _ => by
    rw [Ty.substituteAll]
    exact allFormed_nil
  | t :: rest, h => by
    obtain ⟨ht, hrest⟩ := allFormed_cons.mp h
    rw [Ty.substituteAll]
    exact allFormed_cons.mpr ⟨ht.substitute hb, AllFormed.substituteAll hb hrest⟩

end

end Ty

/-- Parameters bound in pairs to as many formed types are all bound to formed types. -/
theorem Bindings.bindsFormed_zip {arity : String → Option Nat} {names : List String}
    {args : List Ty} (h : Ty.AllFormed arity [] args) (hlen : names.length = args.length) :
    Ty.BindsFormed arity (zip names args) names := by
  intro n hn
  obtain ⟨t, ht, -⟩ := bindsAll_zip h.allGround hlen n hn
  have hm := mem_of_lookup ht
  rw [zip, List.mem_reverse] at hm
  exact ⟨t, ht, Ty.allFormed_iff.mp h t (List.of_mem_zip hm).2⟩

/-! ## Lowering -/

namespace TypeParams

/-- What is in scope besides the names added was there before. -/
theorem mem_pushUnbound {e : String × Ty} : ∀ {names : List String} {params : TypeParams},
    e ∈ params.pushUnbound names → e ∈ params ∨ ∃ n ∈ names, e = (n, .unbound n) := by
  intro names
  induction names with
  | nil => exact fun h => .inl h
  | cons n rest ih =>
    intro params h
    rcases ih h with h | ⟨k, hk, rfl⟩
    · rcases List.mem_cons.mp h with rfl | h
      · exact .inr ⟨n, List.mem_cons_self, rfl⟩
      · exact .inl h
    · exact .inr ⟨k, List.mem_cons_of_mem _ hk, rfl⟩

/-- The parameters of a class stand for themselves. -/
theorem get?_unbound {names : List String} {name : String} {ty : Ty}
    (h : (unbound names).get? name = some ty) : name ∈ names ∧ ty = .unbound name := by
  rcases mem_pushUnbound (mem_of_lookup h) with hm | ⟨n, hn, heq⟩
  · cases hm
  · cases heq
    exact ⟨hn, rfl⟩

theorem get?_unbound_of_notMem {names : List String} {name : String} (h : name ∉ names) :
    (unbound names).get? name = none := by
  cases hget : (unbound names).get? name with
  | none => rfl
  | some ty => exact absurd (get?_unbound hget).1 h

end TypeParams

namespace LoweringContext

variable {ctx : LoweringContext} {names : List String}

/-- The class that a written type names: what its name stands for, with the right arity. -/
theorem className_ok {e : TypeExpr} {full : String} (h : ctx.className e = .ok full) :
    ctx.imports.resolve? e.name = some full ∧ ctx.arity full = some e.generics.length := by
  unfold className at h
  split at h
  · cases h
  · next name hname =>
    split at h
    · cases h
    · next n hn =>
      split at h
      · next hlen =>
        cases h
        exact ⟨hname, by rw [← hlen]; exact hn⟩
      · cases h

mutual

/-- Under the parameters of a class a written type lowers to a formed type. -/
theorem formed_lower : ∀ {e : TypeExpr} {ty : Ty},
    ctx.lower (TypeParams.unbound names) e = .ok ty → ty.Formed ctx.arity names
  | ⟨written, generics, span⟩, ty, h => by
    rw [lower] at h
    split at h
    · next found hfound =>
      split at h
      · cases h
        obtain ⟨hmem, rfl⟩ := TypeParams.get?_unbound hfound
        exact Ty.formed_unbound.mpr hmem
      · cases h
    · split at h
      · cases h
      · next name hname =>
        split at h
        · cases h
        · next args hargs =>
          cases h
          obtain ⟨hformed, hlen⟩ := allFormed_lowerAll hargs
          refine Ty.formed_cls.mpr ⟨?_, hformed⟩
          rw [hlen]
          exact (className_ok hname).2

theorem allFormed_lowerAll : ∀ {es : List TypeExpr} {tys : List Ty},
    ctx.lowerAll (TypeParams.unbound names) es = .ok tys →
    Ty.AllFormed ctx.arity names tys ∧ tys.length = es.length
  | [], tys, h => by
    rw [lowerAll] at h
    cases h
    exact ⟨Ty.allFormed_nil, rfl⟩
  | e :: rest, tys, h => by
    rw [lowerAll] at h
    split at h
    · cases h
    · next ty hty =>
      split at h
      · cases h
      · next tys' htys =>
        cases h
        obtain ⟨hformed, hlen⟩ := allFormed_lowerAll htys
        exact ⟨Ty.allFormed_cons.mpr ⟨formed_lower hty, hformed⟩, by simp [hlen]⟩

end

/-- What an `extends` clause lowers to is a formed class type. -/
theorem formed_lowerClass {e : TypeExpr} {c : ClassTy}
    (h : ctx.lowerClass (TypeParams.unbound names) e = .ok c) :
    ctx.imports.resolve? e.name = some c.name ∧ c.toTy.Formed ctx.arity names := by
  unfold lowerClass at h
  split at h
  · cases h
  · next name hname =>
    split at h
    · cases h
    · next args hargs =>
      cases h
      obtain ⟨hres, harity⟩ := className_ok hname
      obtain ⟨hformed, hlen⟩ := allFormed_lowerAll hargs
      refine ⟨hres, Ty.formed_cls.mpr ⟨?_, hformed⟩⟩
      rw [hlen]
      exact harity

end LoweringContext

end Middleweight
