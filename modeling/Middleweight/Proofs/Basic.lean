import Mathlib.Data.List.Forall2
import Mathlib.Data.List.Nodup
import Mathlib.Data.Option.Basic

/-!
# Look-up in lists of pairs, and walks that can fail

* `mem_of_lookup`, `lookup_eq_of_forall` : what a look-up finds, and when it finds a given value
* `ok_of_bind`, `mapM_ok_iff`, `forM_ok_iff` : what the parts of a computation gave that went well
* `Concur` : computations that go well together
-/

namespace Middleweight

/-! ## Look-up -/

section Lookup

variable {α β : Type} [BEq α] [LawfulBEq α] {l : List (α × β)} {k : α} {v : β}

theorem mem_of_lookup (h : l.lookup k = some v) : (k, v) ∈ l := by
  obtain ⟨front, rest, hl, -⟩ := List.lookup_eq_some_iff.mp h
  rw [hl]
  simp

/-- If all entries of a key have one value, and there is one, then that value is found. -/
theorem lookup_eq_of_forall (hm : (k, v) ∈ l) (hv : ∀ e ∈ l, e.1 = k → e.2 = v) :
    l.lookup k = some v := by
  cases hk : l.lookup k with
  | none =>
    have := List.lookup_eq_none_iff.mp hk (k, v) hm
    simp at this
  | some w => exact congrArg some (hv (k, w) (mem_of_lookup hk) rfl)

theorem isSome_lookup_iff : (l.lookup k).isSome ↔ k ∈ l.map Prod.fst := by
  rw [List.lookup_isSome_iff, List.mem_map]
  simp only [beq_iff_eq]
  exact ⟨fun ⟨e, he, hk⟩ => ⟨e, he, hk.symm⟩, fun ⟨e, he, hk⟩ => ⟨e, he, hk.symm⟩⟩

/-- Look-up after changing values by their keys. -/
theorem lookup_map_snd {γ : Type} (f : α → β → γ) (l : List (α × β)) (k : α) :
    (l.map fun e => (e.1, f e.1 e.2)).lookup k = (l.lookup k).map (f k) := by
  induction l with
  | nil => rfl
  | cons e rest ih =>
    obtain ⟨a, b⟩ := e
    rw [List.map_cons, List.lookup_cons, List.lookup_cons, ih]
    by_cases hk : k = a
    · subst hk
      simp
    · rw [beq_eq_false_iff_ne.mpr hk]

/-- Where keys are different, their order does not matter. -/
theorem lookup_of_perm {l' : List (α × β)} (h : l.Perm l') (hnd : (l.map Prod.fst).Nodup) (k : α) :
    l'.lookup k = l.lookup k := by
  cases hk : l.lookup k with
  | none =>
    rw [List.lookup_eq_none_iff] at hk ⊢
    exact fun e he => hk e (h.mem_iff.mpr he)
  | some v =>
    refine lookup_eq_of_forall (h.mem_iff.mp (mem_of_lookup hk)) fun e he heq => ?_
    have hmem : (k, e.2) ∈ l := heq ▸ h.mem_iff.mpr he
    have hsame := List.inj_on_of_nodup_map hnd hmem (mem_of_lookup hk) rfl
    exact congrArg Prod.snd hsame

theorem lookup_cons_eq_ite {β : Type} (s k : String) (v : β) (l : List (String × β)) :
    ((k, v) :: l).lookup s = if s = k then some v else l.lookup s := by
  rw [List.lookup_cons]
  split <;> simp_all

theorem lookup_filter_ne {β : Type} {l : List (String × β)} {s s' : String} (h : s' ≠ s) :
    (l.filter fun c => c.1 ≠ s).lookup s' = l.lookup s' := by
  induction l with
  | nil => rfl
  | cons c rest ih =>
    obtain ⟨k, v⟩ := c
    rw [List.filter_cons]
    by_cases hk : k = s
    · subst hk
      have hne : (s' == k) = false := by simpa using h
      simp only [ne_eq, not_true_eq_false, decide_false, Bool.false_eq_true, if_false]
      rw [ih, List.lookup_cons, hne]
    · simp only [ne_eq, hk, not_false_eq_true, decide_true, if_true, List.lookup_cons, ih]

end Lookup

/-! ## Related options -/

/-- Related options are both empty or hold related values. -/
theorem rel_elim {α β : Type} {R : α → β → Prop} {x : Option α} {y : Option β}
    (h : Option.Rel R x y) : (x = none ∧ y = none) ∨ ∃ a b, x = some a ∧ y = some b ∧ R a b := by
  cases h with
  | none => exact .inl ⟨rfl, rfl⟩
  | some hr => exact .inr ⟨_, _, rfl, rfl, hr⟩

theorem isSome_eq_of_rel {α β : Type} {R : α → β → Prop} {x : Option α} {y : Option β}
    (h : Option.Rel R x y) : x.isSome = y.isSome := by
  cases h <;> rfl

/-! ## Related lists -/

/-- In related lists every member of the second has a partner in the first. -/
theorem exists_of_forall₂_mem {α β : Type} {R : α → β → Prop} {as : List α} {bs : List β}
    (h : List.Forall₂ R as bs) {b : β} (hb : b ∈ bs) : ∃ a ∈ as, R a b := by
  induction h with
  | nil => cases hb
  | cons hr _ ih =>
    rcases List.mem_cons.mp hb with rfl | hb
    · exact ⟨_, by simp, hr⟩
    · obtain ⟨a, ha, hr⟩ := ih hb
      exact ⟨a, by simp [ha], hr⟩

/-- Related lists are related member by member. -/
theorem forall₂_with_mem {α β : Type} {R : α → β → Prop} {as : List α} {bs : List β}
    (h : List.Forall₂ R as bs) : List.Forall₂ (fun a b => a ∈ as ∧ b ∈ bs ∧ R a b) as bs := by
  induction h with
  | nil => exact .nil
  | cons hr _ ih =>
    refine .cons ⟨by simp, by simp, hr⟩ (ih.imp ?_)
    rintro a b ⟨ha, hb, hr⟩
    exact ⟨by simp [ha], by simp [hb], hr⟩

/-- A list and its image under a function that gives related things. -/
theorem forall₂_map_self {α β : Type} {R : α → β → Prop} {f : α → β} (h : ∀ a, R a (f a))
    (as : List α) : List.Forall₂ R as (as.map f) := by
  rw [List.forall₂_map_right_iff]
  exact List.forall₂_same.mpr fun a _ => h a

/-- Related lists have related elements at every place. -/
theorem forall₂_getElem? {α β : Type} {R : α → β → Prop} {as : List α} {bs : List β}
    (h : List.Forall₂ R as bs) : ∀ i : Nat, Option.Rel R as[i]? bs[i]? := by
  induction h with
  | nil => exact fun i => .none
  | cons hr _ ih =>
    intro i
    cases i with
    | zero => exact .some hr
    | succ i => exact ih i

/-! ## Walks that can fail -/

section Walks

variable {ε α β γ : Type}

/-- A computation in two parts that went well: both parts did. -/
theorem ok_of_bind {x : Except ε α} {f : α → Except ε β} {b : β} (h : x >>= f = .ok b) :
    ∃ a, x = .ok a ∧ f a = .ok b := by
  cases x with
  | error e => cases h
  | ok a => exact ⟨a, rfl, h⟩

theorem ok_of_map {x : Except ε α} {f : α → β} {b : β} (h : x.map f = .ok b) :
    ∃ a, x = .ok a ∧ f a = b := by
  cases x with
  | error e => cases h
  | ok a => exact ⟨a, rfl, Except.ok.inj h⟩

theorem ok_of_toOption {x : Except ε α} {a : α} (h : x.toOption = some a) : x = .ok a := by
  cases x with
  | error e => cases h
  | ok b => exact congrArg Except.ok (Option.some.inj h)

/-- A computation that was tested to go well has a result. -/
theorem exists_ok_of_toBool {x : Except ε α} (h : x.toBool = true) : ∃ a, x = .ok a := by
  cases x with
  | error e => cases h
  | ok a => exact ⟨a, rfl⟩

/-- A walk along a list gives the results of its members, in order. -/
theorem mapM_ok_iff {f : α → Except ε β} {as : List α} {bs : List β} :
    as.mapM f = .ok bs ↔ List.Forall₂ (fun a b => f a = .ok b) as bs := by
  induction as generalizing bs with
  | nil =>
    constructor
    · intro h
      cases h
      exact .nil
    · rintro ⟨⟩
      rfl
  | cons a as ih =>
    rw [List.mapM_cons]
    constructor
    · intro h
      obtain ⟨b, hb, h⟩ := ok_of_bind h
      obtain ⟨bs', hbs, h⟩ := ok_of_bind h
      cases h
      exact .cons hb (ih.mp hbs)
    · rintro (_ | ⟨hb, hbs⟩)
      rw [hb, ih.mpr hbs]
      rfl

/-- A walk that gives back every member of a list gives back the list. -/
theorem mapM_of_forall {ε α : Type} {f : α → Except ε α} {as : List α}
    (h : ∀ a ∈ as, f a = .ok a) : as.mapM f = .ok as := by
  refine mapM_ok_iff.mpr ?_
  induction as with
  | nil => exact .nil
  | cons a as ih => exact .cons (h a (by simp)) (ih fun b hb => h b (by simp [hb]))

/-- A check of a list succeeds where it does for each element. -/
theorem forM_ok_iff {f : α → Except ε PUnit} {as : List α} :
    as.forM f = .ok () ↔ ∀ a ∈ as, f a = .ok () := by
  induction as with
  | nil => exact ⟨fun _ => by simp, fun _ => rfl⟩
  | cons a as ih =>
    show (f a >>= fun _ => as.forM f) = .ok () ↔ _
    rw [List.forall_mem_cons, ← ih]
    constructor
    · intro h
      obtain ⟨u, hu, h⟩ := ok_of_bind h
      exact ⟨hu, h⟩
    · rintro ⟨hu, h⟩
      rw [hu]
      exact h

end Walks

/-! ## Computations that agree -/

/-- Two results: both went wrong, for whatever reasons, or both went well with related values. -/
inductive Concur {ε ε' α β : Type} (R : α → β → Prop) : Except ε α → Except ε' β → Prop
  | error (e : ε) (e' : ε') : Concur R (.error e) (.error e')
  | ok {a : α} {b : β} : R a b → Concur R (.ok a) (.ok b)

namespace Concur

variable {ε ε' α β γ δ : Type} {R : α → β → Prop} {S : γ → δ → Prop} {x : Except ε α}
  {y : Except ε' β}

/-- Two computations that agree both fail or succeed with related values. -/
theorem elim (h : Concur R x y) :
    (∃ e e', x = .error e ∧ y = .error e') ∨ ∃ a b, x = .ok a ∧ y = .ok b ∧ R a b := by
  cases h with
  | error e e' => exact .inl ⟨e, e', rfl, rfl⟩
  | ok hr => exact .inr ⟨_, _, rfl, rfl, hr⟩

theorem of_refl {R : α → α → Prop} (h : ∀ a, R a a) : ∀ x : Except ε α, Concur R x x
  | .error e => .error e e
  | .ok a => .ok (h a)

theorem mono {R' : α → β → Prop} (h : Concur R x y) (hR : ∀ {a b}, R a b → R' a b) :
    Concur R' x y := by
  cases h with
  | error e e' => exact .error e e'
  | ok hr => exact .ok (hR hr)

/-- Agreeing computations may be followed by agreeing ones. -/
theorem bind {f : α → Except ε γ} {k : β → Except ε' δ} (h : Concur R x y)
    (hf : ∀ {a b}, R a b → Concur S (f a) (k b)) : Concur S (x >>= f) (y >>= k) := by
  cases h with
  | error e e' => exact .error e e'
  | ok hr => exact hf hr

theorem map {f : α → γ} {k : β → δ} (h : Concur R x y) (hf : ∀ {a b}, R a b → S (f a) (k b)) :
    Concur S (x.map f) (y.map k) := by
  cases h with
  | error e e' => exact .error e e'
  | ok hr => exact .ok (hf hr)

/-- One of the two goes well exactly if the other does. -/
theorem exists_ok_iff (h : Concur R x y) : (∃ a, x = .ok a) ↔ ∃ b, y = .ok b := by
  cases h with
  | error e e' => exact ⟨nofun, nofun⟩
  | ok hr => exact ⟨fun _ => ⟨_, rfl⟩, fun _ => ⟨_, rfl⟩⟩

/-- Walks over related lists agree where each step does. -/
theorem mapM {f : α → Except ε γ} {k : β → Except ε' δ} {as : List α} {bs : List β}
    (h : List.Forall₂ (fun a b => Concur S (f a) (k b)) as bs) :
    Concur (List.Forall₂ S) (as.mapM f) (bs.mapM k) := by
  induction h with
  | nil => exact .ok .nil
  | cons hab _ ih =>
    rw [List.mapM_cons, List.mapM_cons]
    exact hab.bind fun hs => ih.bind fun hrest => .ok (.cons hs hrest)

/-- Checks of related lists agree where each step does. -/
theorem forM {f : α → Except ε PUnit} {k : β → Except ε' PUnit} {as : List α} {bs : List β}
    (h : List.Forall₂ (fun a b => Concur (fun _ _ => True) (f a) (k b)) as bs) :
    Concur (fun _ _ => True) (as.forM f) (bs.forM k) := by
  induction h with
  | nil => exact .ok trivial
  | cons hab _ ih => exact hab.bind fun _ => ih

end Concur

end Middleweight
