import Mathlib.Data.List.Nodup
import Mathlib.Data.List.Perm.Subperm
import Middleweight.ClassTable.Basic

/-!
# Walks along base classes

A walk that comes to an end has a length, which the name it starts from determines. So no class
stands twice on it, and it has at most as many classes as the table.
-/

namespace Middleweight.ClassTable

variable {F : Type} {t : ClassTable F}

/-! ## Look-up -/

/-- A template is found under its own name. -/
theorem get?_name {name : String} {c : Template F} (h : t.get? name = some c) : c.name = name := by
  have := List.find?_some h
  simpa using this

theorem get?_mem {name : String} {c : Template F} (h : t.get? name = some c) : c ∈ t.classes :=
  List.mem_of_find?_eq_some h

/-- A template is what a look-up with an error for missing names finds, too. -/
theorem template_ok_iff {name : String} {span : Span} {c : Template F} :
    t.template name span = .ok c ↔ t.get? name = some c := by
  unfold template
  cases t.get? name <;> simp

/-! ## Lengths of walks -/

/-- The walk from a name up to a class without a base goes through so many classes. -/
inductive Climbs (t : ClassTable F) : String → Nat → Prop
  | root {name : String} {c : Template F} :
      t.get? name = some c → c.base = none → Climbs t name 1
  | step {name : String} {c : Template F} {base : ClassTy} {n : Nat} :
      t.get? name = some c → c.base = some base → Climbs t base.name n → Climbs t name (n + 1)

/-- A walk starts from a class of the table. -/
theorem Climbs.get? {name : String} {n : Nat} (h : t.Climbs name n) :
    ∃ c, t.get? name = some c := by
  cases h with
  | root hg _ => exact ⟨_, hg⟩
  | step hg _ _ => exact ⟨_, hg⟩

/-- A name determines how long the walk from it is. -/
theorem Climbs.unique {name : String} {n m : Nat} (h : t.Climbs name n) (h' : t.Climbs name m) :
    n = m := by
  induction h generalizing m with
  | root hg hb =>
    cases h' with
    | root => rfl
    | step hg' hb' _ =>
      cases hg.symm.trans hg'
      simp [hb] at hb'
  | step hg hb _ ih =>
    cases h' with
    | root hg' hb' =>
      cases hg.symm.trans hg'
      simp [hb] at hb'
    | step hg' hb' hc =>
      cases hg.symm.trans hg'
      cases hb.symm.trans hb'
      rw [ih hc]

/-- The names on a walk: they are different, and each is the name of a class of the table. -/
theorem Climbs.exists_names {name : String} {n : Nat} (h : t.Climbs name n) :
    ∃ names : List String, names.length = n ∧ names.Nodup ∧
      (∀ m ∈ names, ∃ k, k ≤ n ∧ t.Climbs m k) := by
  induction h with
  | @root name c hg hb =>
    refine ⟨[name], rfl, List.nodup_singleton name, fun m hm => ⟨1, Nat.le_refl 1, ?_⟩⟩
    rw [List.mem_singleton.mp hm]
    exact .root hg hb
  | @step name c base n hg hb hc ih =>
    obtain ⟨names, hlen, hnd, hall⟩ := ih
    have hwalk : t.Climbs name (n + 1) := .step hg hb hc
    have hnew : name ∉ names := by
      intro hm
      obtain ⟨k, hk, hclimb⟩ := hall name hm
      have := hwalk.unique hclimb
      omega
    refine ⟨name :: names, by simp [hlen], List.nodup_cons.mpr ⟨hnew, hnd⟩, fun m hm => ?_⟩
    rcases List.mem_cons.mp hm with rfl | hm
    · exact ⟨n + 1, Nat.le_refl _, hwalk⟩
    · obtain ⟨k, hk, hclimb⟩ := hall m hm
      exact ⟨k, by omega, hclimb⟩

/-- A walk that ends has at most as many classes as the table. -/
theorem Climbs.le_length {name : String} {n : Nat} (h : t.Climbs name n) :
    n ≤ t.classes.length := by
  obtain ⟨names, hlen, hnd, hall⟩ := h.exists_names
  have hsub : names ⊆ t.classes.map Template.name := by
    intro m hm
    obtain ⟨k, -, hclimb⟩ := hall m hm
    obtain ⟨c, hg⟩ := hclimb.get?
    exact List.mem_map.mpr ⟨c, get?_mem hg, get?_name hg⟩
  have := (hnd.subperm hsub).length_le
  rw [hlen, List.length_map] at this
  exact this

/-- A walk that comes to an end is shorter than the budget for it. -/
theorem Climbs.lt_height {name : String} {n : Nat} (h : t.Climbs name n) : n < t.height := by
  have := h.le_length
  unfold height
  omega

/-! ## Tables with the same bases -/

section SameBases

variable {t' : ClassTable F} (h : ∀ name, t'.baseName? name = t.baseName? name)

include h

/-- Tables with the same bases give the same chains. -/
theorem chain_congr (fuel : Nat) :
    ∀ seen name, t'.chain fuel seen name = t.chain fuel seen name := by
  induction fuel with
  | zero => intro seen name; rfl
  | succ fuel ih =>
    intro seen name
    rw [chain, chain, h]
    cases t.baseName? name with
    | none => rfl
    | some base => simp only [ih]

/-- In such tables the same walks come back to a class. -/
theorem revisits_congr (fuel : Nat) :
    ∀ seen name, t'.revisits fuel seen name = t.revisits fuel seen name := by
  induction fuel with
  | zero => intro seen name; rfl
  | succ fuel ih =>
    intro seen name
    rw [revisits, revisits, h]
    cases t.baseName? name with
    | none => rfl
    | some base => simp only [ih]

theorem ancestors_congr (hheight : t'.height = t.height) (name : String) :
    t'.ancestors name = t.ancestors name := by
  rw [ancestors, ancestors, hheight, chain_congr h]

end SameBases

end Middleweight.ClassTable
