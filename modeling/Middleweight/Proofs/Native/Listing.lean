import Middleweight.Native.Namespace
import Middleweight.Proofs.Basic

/-!
# What paths of a namespace tree lead to

A path leads to a class only if the tree lists that class, and to a namespace only if the tree lists
all classes of that namespace. In a tree whose classes have the names that the paths to them spell,
it leads to the class of which it is the full name.
-/

namespace Middleweight

variable {F : Type}

namespace Namespace

/-- The classes below some names are those below each of them, in order. -/
theorem classesIn_eq_flatMap (children : List (String × Namespace F)) :
    classesIn children = children.flatMap fun e => e.2.classes := by
  induction children with
  | nil => rfl
  | cons e rest ih => rw [classesIn, ih, List.flatMap_cons]

/-- The classes that an entry stands for are listed. -/
def Lists (n : Namespace F) : NamespaceEntry F → Prop
  | .namespace m => ∀ c ∈ m.classes, c ∈ n.classes
  | .cls c => c ∈ n.classes

/-- A step along a path leads to what is listed. -/
theorem lists_item? {n : Namespace F} {s : String} {e : NamespaceEntry F}
    (h : n.item? s = some e) : n.Lists e := by
  obtain ⟨own, children⟩ := n
  rw [item?] at h
  split at h
  · next child hchild =>
    cases h
    intro c hc
    rw [classes, classesIn_eq_flatMap]
    exact List.mem_append_right _ (List.mem_flatMap.mpr ⟨(s, child), mem_of_lookup hchild, hc⟩)
  · obtain ⟨c, hc, rfl⟩ := Option.map_eq_some_iff.mp h
    show c ∈ classes _
    rw [classes]
    exact List.mem_append_left _ (List.mem_map.mpr ⟨(s, c), mem_of_lookup hc, rfl⟩)

/-- A whole path leads to what is listed, by induction on its segments. -/
theorem lists_find? {rest : List String} : ∀ {n : Namespace F} {s : String}
    {e : NamespaceEntry F}, find? s rest n = some e → n.Lists e := by
  induction rest with
  | nil =>
    intro n s e h
    exact lists_item? (by rwa [find?] at h)
  | cons t rest ih =>
    intro n s e h
    rw [find?] at h
    split at h
    · next child hchild =>
      have hsub := lists_item? hchild
      have hin := ih h
      cases e with
      | «namespace» m => exact fun c hc => hsub c (hin c hc)
      | cls c => exact hsub c hin
    · cases h

mutual

/-- Whether the path to each class, from behind a given one, spells the full name of the class. -/
def spells (path : List String) : Namespace F → Bool
  | node own children =>
    own.all (fun e => Text.segments e.2.fullName == path ++ [e.1]) && spellsIn path children

/-- Whether this is so below each of some names. -/
def spellsIn (path : List String) : List (String × Namespace F) → Bool
  | [] => true
  | (s, n) :: rest => n.spells (path ++ [s]) && spellsIn path rest

end

theorem spellsIn_iff {path : List String} {children : List (String × Namespace F)} :
    spellsIn path children = true ↔ ∀ e ∈ children, e.2.spells (path ++ [e.1]) = true := by
  induction children with
  | nil => simp [spellsIn]
  | cons e rest ih => rw [spellsIn, Bool.and_eq_true, ih, List.forall_mem_cons]

/-- A tree spells its classes if its own classes and those below it are spelled. -/
theorem spells_iff {path : List String} {own : List (String × NativeClass F)}
    {children : List (String × Namespace F)} : (node own children).spells path = true ↔
      (∀ e ∈ own, Text.segments e.2.fullName = path ++ [e.1]) ∧
        ∀ e ∈ children, e.2.spells (path ++ [e.1]) = true := by
  rw [spells, Bool.and_eq_true, List.all_eq_true, spellsIn_iff]
  simp only [beq_iff_eq]

/-- A step along a path keeps to the names that are spelled. -/
theorem spells_item? {path : List String} {n : Namespace F} (h : n.spells path = true)
    {s : String} {e : NamespaceEntry F} (he : n.item? s = some e) :
    match e with
    | .namespace child => child.spells (path ++ [s]) = true
    | .cls c => Text.segments c.fullName = path ++ [s] := by
  obtain ⟨own, children⟩ := n
  obtain ⟨hown, hinner⟩ := spells_iff.mp h
  rw [item?] at he
  split at he
  · next child hchild =>
    cases he
    exact hinner (s, child) (mem_of_lookup hchild)
  · obtain ⟨c, hc, rfl⟩ := Option.map_eq_some_iff.mp he
    exact hown (s, c) (mem_of_lookup hc)

/-- A class that a path leads to has the name that the path spells. -/
theorem segments_of_find? {c : NativeClass F} : ∀ {rest : List String} {path : List String}
    {n : Namespace F} {s : String}, n.spells path = true → find? s rest n = some (.cls c) →
    Text.segments c.fullName = path ++ s :: rest := by
  intro rest
  induction rest with
  | nil =>
    intro path n s hn h
    rw [find?] at h
    exact spells_item? hn h
  | cons s' rest ih =>
    intro path n s hn h
    rw [find?] at h
    split at h
    · next child hchild =>
      have hspells := spells_item? hn hchild
      rw [ih hspells h, List.append_assoc]
      rfl
    · cases h

end Namespace

namespace NativeRegistry

variable {r : NativeRegistry F} {path : String}

theorem lists_lookup {e : NamespaceEntry F} (h : r.lookup path = some e) : r.root.Lists e := by
  unfold lookup at h
  split at h
  · cases h
  · exact Namespace.lists_find? h

/-- A class that a path leads to is registered. -/
theorem mem_classes_of_lookup {c : NativeClass F} (h : r.lookup path = some (.cls c)) :
    c ∈ r.classes :=
  lists_lookup h

/-- So are the classes of a namespace that a path leads to. -/
theorem mem_classes_of_namespace? {n : Namespace F} (h : r.namespace? path = some n)
    {c : NativeClass F} (hc : c ∈ n.ownClasses) : c ∈ r.classes := by
  unfold namespace? at h
  split at h
  · next m hm =>
    cases h
    refine lists_lookup hm c ?_
    obtain ⟨own, children⟩ := n
    rw [Namespace.classes]
    exact List.mem_append_left _ hc
  · cases h

/-- A path leads to the class of which it is the full name. -/
theorem fullName_of_lookup (hr : r.root.spells [] = true) {c : NativeClass F}
    (h : r.lookup path = some (.cls c)) : c.fullName = path := by
  unfold lookup at h
  split at h
  · cases h
  · next s rest hsegments =>
    refine Text.segments_injective ?_
    rw [Namespace.segments_of_find? hr h, hsegments]
    rfl

end NativeRegistry

end Middleweight
