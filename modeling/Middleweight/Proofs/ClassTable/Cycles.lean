import Mathlib.Logic.Relation
import Middleweight.Proofs.ClassTable.Walk

/-!
# Bases that lead back

Following bases from a name either comes to a name without a base, or it comes back to a name it has
met. In the first case the names met are different, and no more than one of them is not the name of
a class of the table; so a table notices within as many steps as it has classes.

* `Bases.Ascends.nodup`, `Bases.Ascends.not_revisits` : a walk that ends meets no name twice
* `ClassTable.ascends_or_revisits` : a walk ends or comes back
* `ClassTable.revisits_iff`, `ClassTable.ancestors_of_ascends` : what a table finds out about walks
-/

namespace Middleweight

/-! ## Walks that end and walks that come back -/

/-- Each name has at most one base, the next one on a walk. -/
abbrev Bases := String → Option String

namespace Bases

/-- One step of a walk. -/
def Step (base : Bases) (a b : String) : Prop := base a = some b

/-- The names from a name up to one without a base. -/
inductive Ascends (base : Bases) : String → List String → Prop
  | last {a : String} : base a = none → Ascends base a [a]
  | step {a b : String} {rest : List String} :
      base a = some b → Ascends base b rest → Ascends base a (a :: rest)

/-- Following bases from a name comes to a name that it comes to again. -/
def Revisits (base : Bases) (a : String) : Prop :=
  ∃ b, Relation.ReflTransGen base.Step a b ∧ Relation.TransGen base.Step b b

variable {base : Bases} {a b : String} {l l' : List String}

theorem Revisits.of_step (h : base a = some b) (hb : base.Revisits b) : base.Revisits a := by
  obtain ⟨c, hc, hcycle⟩ := hb
  exact ⟨c, .head h hc, hcycle⟩

namespace Ascends

theorem unique (h : base.Ascends a l) (h' : base.Ascends a l') : l = l' := by
  induction h generalizing l' with
  | last ha =>
    cases h' with
    | last => rfl
    | step ha' _ => cases ha.symm.trans ha'
  | step ha _ ih =>
    cases h' with
    | last ha' => cases ha.symm.trans ha'
    | step ha' h' =>
      cases ha.symm.trans ha'
      rw [ih h']

theorem head?_eq (h : base.Ascends a l) : l.head? = some a := by
  cases h <;> rfl

/-- The walk from a name on a walk is the rest of that walk. -/
theorem of_mem (h : base.Ascends a l) (hb : b ∈ l) : ∃ rest, base.Ascends b rest ∧ rest <:+ l := by
  induction h with
  | last ha =>
    rw [List.mem_singleton.mp hb]
    exact ⟨_, .last ha, List.suffix_refl _⟩
  | @step a c rest ha hrest ih =>
    rcases List.mem_cons.mp hb with rfl | hb
    · exact ⟨_, .step ha hrest, List.suffix_refl _⟩
    · obtain ⟨more, hmore, hsuffix⟩ := ih hb
      exact ⟨more, hmore, hsuffix.trans (List.suffix_cons _ _)⟩

/-- A name on the walk behind a name starts a shorter walk, so it is another name. -/
theorem nodup (h : base.Ascends a l) : l.Nodup := by
  induction h with
  | last _ => exact List.nodup_singleton _
  | @step a b rest ha hrest ih =>
    refine List.nodup_cons.mpr ⟨fun hmem => ?_, ih⟩
    obtain ⟨more, hmore, hsuffix⟩ := hrest.of_mem hmem
    have hlen := hsuffix.length_le
    rw [hmore.unique (.step ha hrest), List.length_cons] at hlen
    omega

/-- Each name on a walk but the last is followed by its base. -/
theorem isChain (h : base.Ascends a l) : l.IsChain base.Step := by
  induction h with
  | last _ => exact .singleton _
  | step ha hrest ih =>
    cases hrest with
    | last => exact .cons_cons ha (.singleton _)
    | step => exact .cons_cons ha ih

/-- All names on a walk but the last have a base. -/
theorem exists_base (h : base.Ascends a l) : ∀ b ∈ l.dropLast, ∃ c, base b = some c := by
  induction h with
  | last _ => exact fun b hb => nomatch hb
  | @step a c rest ha hrest ih =>
    have hne : rest ≠ [] := by
      rintro rfl
      cases hrest
    intro b hb
    rw [List.dropLast_cons_of_ne_nil hne] at hb
    rcases List.mem_cons.mp hb with rfl | hb
    · exact ⟨c, ha⟩
    · exact ih b hb

theorem of_step (h : base.Ascends a l) (hstep : base a = some b) :
    ∃ rest, base.Ascends b rest ∧ l = a :: rest := by
  cases h with
  | last ha => cases ha.symm.trans hstep
  | step ha hrest =>
    cases ha.symm.trans hstep
    exact ⟨_, hrest, rfl⟩

theorem of_transGen (h : base.Ascends a l) (hstep : Relation.TransGen base.Step a b) :
    ∃ rest, base.Ascends b rest ∧ rest.length < l.length := by
  induction hstep with
  | single hab =>
    obtain ⟨rest, hrest, rfl⟩ := h.of_step hab
    exact ⟨rest, hrest, Nat.lt_succ_self _⟩
  | tail _ hbc ih =>
    obtain ⟨rest, hrest, hlt⟩ := ih
    obtain ⟨more, hmore, rfl⟩ := hrest.of_step hbc
    exact ⟨more, hmore, by rw [List.length_cons] at hlt; omega⟩

/-- A walk that ends meets no name twice. -/
theorem not_revisits (h : base.Ascends a l) : ¬ base.Revisits a := by
  rintro ⟨b, hab, hcycle⟩
  have hb : ∃ rest, base.Ascends b rest := by
    rcases Relation.reflTransGen_iff_eq_or_transGen.mp hab with rfl | hab
    · exact ⟨l, h⟩
    · obtain ⟨rest, hrest, -⟩ := h.of_transGen hab
      exact ⟨rest, hrest⟩
  obtain ⟨rest, hrest⟩ := hb
  obtain ⟨more, hmore, hlt⟩ := hrest.of_transGen hcycle
  rw [hmore.unique hrest] at hlt
  omega

end Ascends

end Bases

/-! ## Walks in a table -/

namespace ClassTable

open Bases

variable {F : Type} {t : ClassTable F}

/-- The base of a template is the base of its name. -/
theorem baseName?_of_template {name : String} {span : Span} {c : Template F} {base : ClassTy}
    (hc : t.template name span = .ok c) (hb : c.base = some base) :
    t.baseName? name = some base.name := by
  rw [baseName?, template_ok_iff.mp hc, Option.bind_some, hb, Option.map_some]

/-- A name with a base is the name of a class. -/
theorem mem_names_of_baseName? {a b : String} (h : t.baseName? a = some b) :
    a ∈ t.classes.map Template.name := by
  obtain ⟨base, hbase, -⟩ := Option.map_eq_some_iff.mp h
  obtain ⟨c, hc, -⟩ := Option.bind_eq_some_iff.mp hbase
  exact List.mem_map.mpr ⟨c, get?_mem hc, get?_name hc⟩

/-- What a walk finds that it has seen it has met before, or it comes back to it. -/
theorem revisits_of_true : ∀ {fuel : Nat} {seen : List String} {a : String},
    t.revisits fuel seen a = true →
    Revisits t.baseName? a ∨ ∃ b ∈ seen, Relation.ReflTransGen (Step t.baseName?) a b := by
  intro fuel
  induction fuel with
  | zero => exact fun h => nomatch h
  | succ fuel ih =>
    intro seen a h
    rw [revisits] at h
    split at h
    · next hseen => exact .inr ⟨a, hseen, .refl⟩
    · split at h
      · next b hb =>
        rcases ih h with hrev | ⟨c, hc, hreach⟩
        · exact .inl (hrev.of_step hb)
        · rcases List.mem_cons.mp hc with rfl | hc
          -- The walk has come back to where this step left it.
          · exact .inl ⟨c, .refl, .head' hb hreach⟩
          · exact .inr ⟨c, hc, .head hb hreach⟩
      · cases h

/-- A walk that meets nothing it has seen comes to an end before the table runs out of classes. -/
theorem ascends_of_false : ∀ {fuel : Nat} {seen : List String} {a : String}, seen.Nodup →
    seen ⊆ t.classes.map Template.name → t.classes.length < seen.length + fuel →
    t.revisits fuel seen a = false → ∃ l, Ascends t.baseName? a l := by
  intro fuel
  induction fuel with
  | zero =>
    -- Different names of classes, more of them than there are classes.
    intro seen a hnd hsub hlen _
    have := (hnd.subperm hsub).length_le
    rw [List.length_map] at this
    omega
  | succ fuel ih =>
    intro seen a hnd hsub hlen h
    rw [revisits] at h
    split at h
    · cases h
    · next hnew =>
      split at h
      · next b hb =>
        obtain ⟨l, hl⟩ := ih (List.nodup_cons.mpr ⟨hnew, hnd⟩)
          (List.cons_subset.mpr ⟨mem_names_of_baseName? hb, hsub⟩)
          (by rw [List.length_cons]; omega) h
        exact ⟨a :: l, .step hb hl⟩
      · next hnone => exact ⟨[a], .last hnone⟩

/-- A walk ends, or it comes back to a name. -/
theorem ascends_or_revisits (t : ClassTable F) (a : String) :
    (∃ l, Ascends t.baseName? a l) ∨ Revisits t.baseName? a := by
  cases h : t.revisits (t.height + 1) [] a with
  | false =>
    refine .inl (ascends_of_false List.nodup_nil (List.nil_subset _) ?_ h)
    rw [List.length_nil, height]
    omega
  | true =>
    rcases revisits_of_true h with hrev | ⟨b, hb, -⟩
    · exact .inr hrev
    · cases hb

/-- The check for cycles finds exactly the names from which bases lead back. -/
theorem revisits_iff {a : String} :
    t.revisits (t.height + 1) [] a = true ↔ Revisits t.baseName? a := by
  constructor
  · intro h
    rcases revisits_of_true h with hrev | ⟨b, hb, -⟩
    · exact hrev
    · cases hb
  · intro hrev
    by_contra h
    obtain ⟨l, hl⟩ := ascends_of_false List.nodup_nil (List.nil_subset _)
      (by rw [List.length_nil, height]; omega) (Bool.eq_false_iff.mpr h)
    exact hl.not_revisits hrev

/-- The check for cycles passes if from no class bases lead back. -/
theorem checkAcyclic_ok_iff : ∀ {ds : List ClassDecl}, t.checkAcyclic ds = .ok () ↔
    ∀ d ∈ ds, t.revisits (t.height + 1) [] d.name.name = false := by
  intro ds
  induction ds with
  | nil => exact ⟨fun _ d hd => (nomatch hd), fun _ => rfl⟩
  | cons e rest ih =>
    rw [checkAcyclic, List.forall_mem_cons]
    cases he : t.revisits (t.height + 1) [] e.name.name with
    | true => exact ⟨fun h => (nomatch h), fun h => nomatch h.1⟩
    | false => exact ih.trans (and_iff_right rfl).symm

/-- At most the last name on a walk is not the name of a class. -/
theorem length_le_height {a : String} {l : List String} (h : Ascends t.baseName? a l) :
    l.length ≤ t.height := by
  have hsub : l.dropLast ⊆ t.classes.map Template.name := by
    intro b hb
    obtain ⟨c, hc⟩ := h.exists_base b hb
    exact mem_names_of_baseName? hc
  have hle := ((h.nodup.sublist (List.dropLast_sublist l)).subperm hsub).length_le
  rw [List.length_dropLast, List.length_map] at hle
  unfold height
  omega

theorem chain_of_ascends {a : String} {l : List String} (h : Ascends t.baseName? a l) :
    ∀ {fuel : Nat} {seen : List String}, l.length ≤ fuel → (∀ b ∈ l, b ∉ seen) →
    t.chain fuel seen a = l := by
  induction h with
  | @last a ha =>
    intro fuel seen hlen hseen
    obtain ⟨fuel, rfl⟩ := Nat.exists_eq_succ_of_ne_zero (Nat.ne_of_gt hlen)
    rw [chain, if_neg (hseen a (List.mem_singleton_self a)), ha]
  | @step a b rest ha hrest ih =>
    intro fuel seen hlen hseen
    rw [List.length_cons] at hlen
    obtain ⟨fuel, rfl⟩ := Nat.exists_eq_succ_of_ne_zero (by omega : fuel ≠ 0)
    have hnd := List.nodup_cons.mp (Ascends.step ha hrest).nodup
    have hrec : t.chain fuel (a :: seen) b = rest := by
      refine ih (by omega) fun c hc hmem => ?_
      rcases List.mem_cons.mp hmem with rfl | hmem
      · exact hnd.1 hc
      · exact hseen c (List.mem_cons_of_mem _ hc) hmem
    rw [chain, if_neg (hseen a List.mem_cons_self), ha]
    exact congrArg (a :: ·) hrec

/-- The ancestors of a class are the names on the walk from it. -/
theorem ancestors_of_ascends {a : String} {l : List String} (h : Ascends t.baseName? a l) :
    t.ancestors a = l :=
  chain_of_ascends h (length_le_height h) fun _ _ => List.not_mem_nil

/-- No class of an acyclic table is above itself. -/
def Acyclic (t : ClassTable F) : Prop := ∀ a, ¬ Relation.TransGen (Step t.baseName?) a a

/-- In an acyclic table every walk ends. -/
theorem Acyclic.exists_ascends (h : t.Acyclic) (a : String) : ∃ l, Ascends t.baseName? a l :=
  (t.ascends_or_revisits a).resolve_right fun ⟨b, _, hcycle⟩ => h b hcycle

/-- A table is acyclic if the check for cycles passes for all its classes. -/
theorem acyclic_iff :
    t.Acyclic ↔ ∀ c ∈ t.classes, t.revisits (t.height + 1) [] c.name = false := by
  constructor
  · intro h c _
    refine Bool.eq_false_iff.mpr fun hc => ?_
    obtain ⟨b, -, hcycle⟩ := revisits_iff.mp hc
    exact h b hcycle
  · intro h a hcycle
    obtain ⟨b, hstep, -⟩ := Relation.TransGen.head'_iff.mp hcycle
    obtain ⟨c, hc, rfl⟩ := List.mem_map.mp (mem_names_of_baseName? hstep)
    have htrue := revisits_iff.mpr ⟨c.name, .refl, hcycle⟩
    rw [h c hc] at htrue
    cases htrue

instance (t : ClassTable F) : Decidable t.Acyclic := decidable_of_iff' _ acyclic_iff

end ClassTable

end Middleweight
