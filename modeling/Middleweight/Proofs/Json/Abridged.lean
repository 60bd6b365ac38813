import Middleweight.Json.Record
import Middleweight.Proofs.Basic

/-!
# Records with parts left out

A record is described by its parts in their order: the values that may stand for each part, and
whether the part holds its default. `Json.Abridged` says that an object has these parts, less some
that hold their defaults. A reader that asks for the parts by name cannot tell a part that was left
out from one that holds its default.

* `Abridged.record?_eq`, `Abridged.tagged?_eq` : such an object is read as a record
* `Abridged.required_eq`, `Abridged.orElse_eq`, `Abridged.optional_eq` : what its parts are read as
-/

namespace Middleweight.Json

/-- A part of a record. -/
structure Part where
  name : String
  /-- The values that may stand for the part. -/
  Holds : Json → Prop
  /-- Whether the part has a default and holds it. -/
  IsDefault : Prop

namespace Part

/-- A part that has a default, and may be left out where it holds it. -/
def defaulting (name : String) (IsDefault : Prop) (Holds : Json → Prop) : Part :=
  ⟨name, Holds, IsDefault⟩

/-- A part that is always there. -/
abbrev always (name : String) (Holds : Json → Prop) : Part := defaulting name False Holds

@[simp] theorem name_defaulting (name : String) (IsDefault : Prop) (Holds : Json → Prop) :
    (defaulting name IsDefault Holds).name = name := rfl

@[simp] theorem holds_defaulting (name : String) (IsDefault : Prop) (Holds : Json → Prop) :
    (defaulting name IsDefault Holds).Holds = Holds := rfl

end Part

/-- The members of an object are the given parts in their order, less some that hold their defaults. -/
inductive Abridged : List Part → List (String × Json) → Prop
  | nil : Abridged [] []
  | keep {p : Part} {ps : List Part} {j : Json} {ms : List (String × Json)} :
      p.Holds j → Abridged ps ms → Abridged (p :: ps) ((p.name, j) :: ms)
  | leave {p : Part} {ps : List Part} {ms : List (String × Json)} :
      p.IsDefault → Abridged ps ms → Abridged (p :: ps) ms

/-- An object with the given parts. -/
def IsRecord (ps : List Part) (j : Json) : Prop := ∃ ms, j = object ms ∧ Abridged ps ms

/-- An object with a kind and the given parts. -/
def IsNode (kind : String) (ps : List Part) (j : Json) : Prop :=
  ∃ ms, j = object (("kind", string kind) :: ms) ∧ Abridged ps ms

/-- An array of values of which all together have a property. -/
def IsArray (Items : List Json → Prop) (j : Json) : Prop := ∃ js, j = array js ∧ Items js

/-- `null`, or a value for what an option holds. -/
def IsOption {α : Type} (Holds : α → Json → Prop) : Option α → Json → Prop
  | none, j => j = null
  | some a, j => Holds a j

/-! ## Depth -/

theorem depth_le_depthMembers {ms : List (String × Json)} {name : String} {j : Json}
    (h : (name, j) ∈ ms) : j.depth ≤ depthMembers ms := by
  induction ms with
  | nil => cases h
  | cons m rest ih =>
    obtain ⟨key, k⟩ := m
    rw [depthMembers]
    rcases List.mem_cons.mp h with h | h
    · cases h
      omega
    · have := ih h
      omega

/-! ## Looking up parts -/

namespace Abridged

variable {ps : List Part} {ms : List (String × Json)}

theorem name_mem (h : Abridged ps ms) {m : String × Json} (hm : m ∈ ms) :
    m.1 ∈ ps.map Part.name := by
  induction h with
  | nil => cases hm
  | keep _ _ ih =>
    rcases List.mem_cons.mp hm with rfl | hm
    · simp
    · exact List.mem_cons_of_mem _ (ih hm)
  | leave _ _ ih => exact List.mem_cons_of_mem _ (ih hm)

theorem sublist (h : Abridged ps ms) : (ms.map Prod.fst).Sublist (ps.map Part.name) := by
  induction h with
  | nil => exact .slnil
  | keep _ _ ih => exact ih.cons_cons _
  | leave _ _ ih => exact ih.cons _

/-- What holds of every value for every part holds of all members. -/
theorem forall_mem (h : Abridged ps ms) {P : Json → Prop} (hP : ∀ p ∈ ps, ∀ j, p.Holds j → P j) :
    ∀ m ∈ ms, P m.2 := by
  induction h with
  | nil => simp
  | keep hj _ ih =>
    exact List.forall_mem_cons.mpr
      ⟨hP _ (by simp) _ hj, ih fun p hp => hP p (List.mem_cons_of_mem _ hp)⟩
  | leave _ _ ih => exact ih fun p hp => hP p (List.mem_cons_of_mem _ hp)

/-- A part is found under its name, or it was left out. -/
theorem lookup_cases (h : Abridged ps ms) (hnd : (ps.map Part.name).Nodup) {p : Part}
    (hp : p ∈ ps) :
    (∃ j, ms.lookup p.name = some j ∧ (p.name, j) ∈ ms ∧ p.Holds j) ∨
      (ms.lookup p.name = none ∧ p.IsDefault) := by
  induction h with
  | nil => cases hp
  | @keep q qs j ms hj hms ih =>
    obtain ⟨hq, hnd⟩ := List.nodup_cons.mp hnd
    rcases List.mem_cons.mp hp with rfl | hp
    · exact .inl ⟨j, by simp, by simp, hj⟩
    · have hne : (p.name == q.name) = false := by
        rw [beq_eq_false_iff_ne]
        exact fun heq => hq (heq ▸ List.mem_map_of_mem hp)
      rw [List.lookup_cons, hne]
      rcases ih hnd hp with ⟨k, hk, hmem, hold⟩ | hdef
      · exact .inl ⟨k, hk, List.mem_cons_of_mem _ hmem, hold⟩
      · exact .inr hdef
  | @leave q qs ms hdef hms ih =>
    obtain ⟨hq, hnd⟩ := List.nodup_cons.mp hnd
    rcases List.mem_cons.mp hp with rfl | hp
    · refine .inr ⟨?_, hdef⟩
      rw [List.lookup_eq_none_iff]
      intro m hm
      rw [bne_iff_ne]
      exact fun heq => hq (heq ▸ name_mem hms hm)
    · exact ih hnd hp

/-! ## Reading -/

theorem record?_eq (h : Abridged ps ms) {names : List String} (hnd : names.Nodup)
    (hnames : ps.map Part.name = names) : record? names (object ms) = some ms := by
  subst hnames
  have hknown : ms.filter (fun m => (ps.map Part.name).contains m.1) = ms :=
    List.filter_eq_self.mpr fun m hm => by simpa using name_mem h hm
  rw [record?]
  simp only [hknown]
  rw [if_pos (h.sublist.nodup hnd)]

theorem tagged?_eq (h : Abridged ps ms) {tag : String} (htag : tag ∉ ps.map Part.name)
    (t : String) : tagged? tag (object ((tag, string t) :: ms)) = some (t, object ms) := by
  have hne : ∀ m ∈ ms, m.1 ≠ tag := fun m hm heq => htag (heq ▸ name_mem h hm)
  have hnamed : membersNamed tag ((tag, string t) :: ms) = [string t] := by
    simp only [membersNamed, List.filterMap_cons, if_true]
    congr 1
    exact List.filterMap_eq_nil_iff.mpr fun m hm => by simp [hne m hm]
  have hrest : ((tag, string t) :: ms).filter (fun m => m.1 ≠ tag) = ms := by
    rw [List.filter_cons_of_neg (by simp)]
    exact List.filter_eq_self.mpr fun m hm => by simpa using hne m hm
  rw [tagged?, hnamed]
  simp only [hrest]

variable {α : Type} {read : Json → Option α} {a : α}

theorem required_eq (h : Abridged ps ms) (hnd : (ps.map Part.name).Nodup) {name : String}
    {Holds : Json → Prop} (i : Nat) (hp : ps[i]? = some (.always name Holds))
    (hread : ∀ j, (name, j) ∈ ms → Holds j → read j = some a) :
    Parts.required ms name read = some a := by
  rcases h.lookup_cases hnd (List.mem_of_getElem? hp) with ⟨j, hj, hmem, hold⟩ | ⟨-, hdef⟩
  · have hj' : ms.lookup name = some j := hj
    rw [Parts.required, hj']
    exact hread j hmem hold
  · exact hdef.elim

theorem orElse_eq (h : Abridged ps ms) (hnd : (ps.map Part.name).Nodup) {name : String}
    {Holds : Json → Prop} {IsDefault : Prop} {default : α} (i : Nat)
    (hp : ps[i]? = some (.defaulting name IsDefault Holds))
    (hdefault : IsDefault → a = default)
    (hread : ∀ j, (name, j) ∈ ms → Holds j → read j = some a) :
    Parts.orElse ms name default read = some a := by
  rcases h.lookup_cases hnd (List.mem_of_getElem? hp) with ⟨j, hj, hmem, hold⟩ | ⟨hnone, hdef⟩
  · have hj' : ms.lookup name = some j := hj
    rw [Parts.orElse, hj']
    exact hread j hmem hold
  · have hnone' : ms.lookup name = none := hnone
    rw [Parts.orElse, hnone', hdefault hdef]

theorem optional_eq (h : Abridged ps ms) (hnd : (ps.map Part.name).Nodup) {name : String}
    {Holds : Json → Prop} {IsDefault : Prop} {o : Option α} (i : Nat)
    (hp : ps[i]? = some (.defaulting name IsDefault Holds)) (hdefault : IsDefault → o = none)
    (hread : ∀ j, (name, j) ∈ ms → Holds j →
      IsOption (fun a j => j ≠ null ∧ read j = some a) o j) :
    Parts.optional ms name read = some o := by
  rcases h.lookup_cases hnd (List.mem_of_getElem? hp) with ⟨j, hj, hmem, hold⟩ | ⟨hnone, hdef⟩
  · have hj' : ms.lookup name = some j := hj
    have hopt := hread j hmem hold
    cases o with
    | none =>
      have hnull : j = null := hopt
      rw [Parts.optional, hj', hnull]
    | some a =>
      obtain ⟨hnull, hsome⟩ := hopt
      rw [Parts.optional, hj']
      cases j with
      | null => exact absurd rfl hnull
      | _ => simp [hsome]
  · have hnone' : ms.lookup name = none := hnone
    rw [Parts.optional, hnone', hdefault hdef]

end Abridged

end Middleweight.Json
