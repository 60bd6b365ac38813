import Mathlib.Data.List.Induction
import Middleweight.Native.Standard
import Middleweight.Proofs.Native.Listing

/-!
# What registered classes make of an empty registry

A namespace tree is two maps on paths: `Namespace.at?` to namespaces, and `Namespace.classAt?` to
classes, hidden ones included. Putting a class into a tree overwrites one entry of the second map
and makes the namespaces on the way to it. A tree lists the entries of the second map, because its
maps are sorted, so that no name comes twice, and because the paths in it spell the full names of
its classes.

* `Namespace.isSome_at?_insert`, `Namespace.classAt?_insert` : what one registration changes
* `Namespace.filter_classes` : what a tree lists under a name
* `NativeRegistry.holds_ofClasses` : what a registry holds after any registrations
* `NativeRegistry.last_registration_counts` : what it lists, and what paths lead to
-/

namespace Middleweight

variable {F : Type}

/-! ## Maps sorted by name -/

namespace SortedMap

variable {α : Type} {l : List (String × α)} {name : String} {f : Option α → α}

/-- The names of the entries rise. -/
def Sorted (l : List (String × α)) : Prop := l.Pairwise fun e e' => e.1 < e'.1

theorem lookup_of_lt (h : ∀ e ∈ l, name < e.1) : l.lookup name = none := by
  rw [List.lookup_eq_none_iff]
  exact fun e he => bne_iff_ne.mpr (String.ne_of_lt (h e he))

theorem lt_of_lt_head {head : String × α} (h : Sorted (head :: l)) (hname : name < head.1) :
    ∀ e ∈ head :: l, name < e.1 :=
  List.forall_mem_cons.mpr
    ⟨hname, fun e he => String.lt_trans hname ((List.pairwise_cons.mp h).1 e he)⟩

/-- An entry after a change is the changed one or was there before. -/
theorem mem_upsert (h : Sorted l) {e : String × α} (he : e ∈ upsert name f l) :
    e = (name, f (l.lookup name)) ∨ e ∈ l := by
  induction l with
  | nil => exact .inl (List.mem_singleton.mp he)
  | cons head rest ih =>
    obtain ⟨k, a⟩ := head
    rw [upsert] at he
    split at he
    · next hk =>
      subst hk
      rw [List.lookup_cons_self]
      exact (List.mem_cons.mp he).imp_right (List.mem_cons_of_mem _)
    · next hk =>
      split at he
      · next hlt =>
        -- A name in front of all others has had no entry.
        rw [lookup_of_lt (lt_of_lt_head h hlt)]
        exact List.mem_cons.mp he
      · rw [lookup_cons_eq_ite, if_neg hk]
        rcases List.mem_cons.mp he with rfl | he
        · exact .inr (by simp)
        · exact (ih (List.pairwise_cons.mp h).2 he).imp_right (List.mem_cons_of_mem _)

theorem sorted_upsert (h : Sorted l) : Sorted (upsert name f l) := by
  induction l with
  | nil => exact List.pairwise_singleton ..
  | cons head rest ih =>
    obtain ⟨k, a⟩ := head
    obtain ⟨hhead, hrest⟩ := List.pairwise_cons.mp h
    rw [upsert]
    split
    · exact List.pairwise_cons.mpr ⟨hhead, hrest⟩
    · next hk =>
      split
      · next hlt => exact List.pairwise_cons.mpr ⟨lt_of_lt_head h hlt, h⟩
      · next hlt =>
        refine List.pairwise_cons.mpr ⟨fun e he => ?_, ih hrest⟩
        rcases mem_upsert hrest he with rfl | he
        · exact Std.lt_of_le_of_ne hlt (Ne.symm hk)
        · exact hhead e he

/-- A change is seen under its own name only. -/
theorem lookup_upsert (h : Sorted l) (s : String) : (upsert name f l).lookup s =
    if s = name then some (f (l.lookup name)) else l.lookup s := by
  induction l with
  | nil => exact lookup_cons_eq_ite ..
  | cons head rest ih =>
    obtain ⟨k, a⟩ := head
    rw [upsert]
    split
    · next hk =>
      subst hk
      rw [List.lookup_cons_self, lookup_cons_eq_ite, lookup_cons_eq_ite]
      split <;> rfl
    · next hk =>
      split
      · next hlt => rw [lookup_of_lt (lt_of_lt_head h hlt), lookup_cons_eq_ite]
      · rw [lookup_cons_eq_ite s, lookup_cons_eq_ite s, lookup_cons_eq_ite name, if_neg hk,
          ih (List.pairwise_cons.mp h).2]
        split
        · next hs => rw [if_neg (hs ▸ Ne.symm hk)]
        · rfl

/-- A list that only the entry of one name adds to. -/
theorem flatMap_eq_lookup {β : Type} (h : Sorted l) {g : String × α → List β} {s : String}
    (hg : ∀ e ∈ l, e.1 ≠ s → g e = []) :
    l.flatMap g = (l.lookup s).toList.flatMap fun a => g (s, a) := by
  induction l with
  | nil => rfl
  | cons head rest ih =>
    obtain ⟨k, a⟩ := head
    obtain ⟨hhead, hrest⟩ := List.pairwise_cons.mp h
    obtain ⟨hghead, hgrest⟩ := List.forall_mem_cons.mp hg
    rw [List.flatMap_cons, ih hrest hgrest]
    by_cases hk : k = s
    · subst hk
      rw [lookup_of_lt hhead, List.lookup_cons_self]
      simp
    · rw [hghead hk, lookup_cons_eq_ite, if_neg (Ne.symm hk)]
      rfl

end SortedMap

/-! ## Names of classes -/

namespace NativeClass

/-- The names of the namespaces that a class is in, the outermost first. -/
def namespaceSegments (c : NativeClass F) : List String :=
  if c.namespace = "" then [] else Text.segments c.namespace

/-- A class whose simple name has no dot and whose namespace has no empty segment. (Segments have no
dots; an empty simple name does no harm.) -/
def WellNamed (c : NativeClass F) : Prop :=
  '.' ∉ c.name.toList ∧ "" ∉ c.namespaceSegments

instance (c : NativeClass F) : Decidable c.WellNamed :=
  inferInstanceAs (Decidable (_ ∧ _))

variable {c : NativeClass F}

theorem segments_fullName (h : c.WellNamed) :
    Text.segments c.fullName = c.namespaceSegments ++ [c.name] := by
  rw [fullName, namespaceSegments]
  split
  · exact Text.segments_of_dotless h.1
  · rw [Text.segments_append, Text.segments_of_dotless h.1]

/-- A class is put under all segments of its namespace. -/
theorem filter_segments (h : c.WellNamed) :
    (Text.segments c.namespace).filter (· ≠ "") = c.namespaceSegments := by
  by_cases hempty : c.namespace = ""
  · rw [namespaceSegments, if_pos hempty, hempty]
    rfl
  · have hsegments := h.2
    rw [namespaceSegments, if_neg hempty] at hsegments ⊢
    refine List.filter_eq_self.mpr fun s hs => decide_eq_true ?_
    rintro rfl
    exact hsegments hs

end NativeClass

namespace Namespace

/-! ## Trees as maps -/

/-- The namespace that some segments lead to. -/
def at? : List String → Namespace F → Option (Namespace F)
  | [], n => some n
  | s :: rest, node _ children => (children.lookup s).bind (at? rest)

/-- The class that some segments lead to, whether or not a namespace hides it. -/
def classAt? : List String → Namespace F → Option (NativeClass F)
  | [], _ => none
  | [s], node own _ => own.lookup s
  | s :: t :: rest, node _ children => (children.lookup s).bind (classAt? (t :: rest))

theorem at?_empty (s : String) (rest : List String) :
    (empty : Namespace F).at? (s :: rest) = none :=
  rfl

theorem classAt?_empty (path : List String) : (empty : Namespace F).classAt? path = none := by
  rcases path with _ | ⟨s, _ | ⟨t, rest⟩⟩ <;> rfl

/-- Segments lead to a namespace if there is one, and else to a class. -/
theorem find?_eq (rest : List String) : ∀ (s : String) (n : Namespace F), n.find? s rest =
    ((n.at? (s :: rest)).map .namespace).or ((n.classAt? (s :: rest)).map .cls) := by
  induction rest with
  | nil =>
    rintro s ⟨own, children⟩
    rw [find?, item?, at?, classAt?]
    cases children.lookup s <;> rfl
  | cons t rest ih =>
    rintro s ⟨own, children⟩
    rw [find?, item?, at?, classAt?]
    cases children.lookup s with
    | some child => exact ih t child
    | none => cases own.lookup s <;> rfl

/-- Segments that go on behind a namespace lead to what the namespace has under the last one. -/
theorem find?_append {m : Namespace F} (t : String) : ∀ {rest : List String} {s : String}
    {n : Namespace F}, n.find? s rest = some (.namespace m) →
    n.find? s (rest ++ [t]) = m.item? t := by
  intro rest
  induction rest with
  | nil =>
    intro s n h
    rw [find?] at h
    rw [List.nil_append, find?, h]
    rfl
  | cons s' rest ih =>
    intro s n h
    rw [find?] at h
    rw [List.cons_append, find?]
    split at h
    · exact ih h
    · cases h

/-! ## Sorted trees -/

/-- All maps of a tree are sorted. -/
inductive Sorted : Namespace F → Prop where
  | node {own : List (String × NativeClass F)} {children : List (String × Namespace F)}
      (own_sorted : SortedMap.Sorted own) (children_sorted : SortedMap.Sorted children)
      (inner : ∀ e ∈ children, Sorted e.2) : Sorted (node own children)

theorem sorted_empty : (empty : Namespace F).Sorted :=
  .node .nil .nil (by simp)

/-- The namespace of a name, an empty one if it is new, is sorted as those that are there. -/
theorem sorted_child {children : List (String × Namespace F)} (h : ∀ e ∈ children, e.2.Sorted)
    (s : String) : ((children.lookup s).getD empty).Sorted := by
  cases hs : children.lookup s with
  | none => exact sorted_empty
  | some child => exact h (s, child) (mem_of_lookup hs)

theorem sorted_insert (c : NativeClass F) (path : List String) : ∀ {n : Namespace F}, n.Sorted →
    (n.insert c path).Sorted := by
  induction path with
  | nil =>
    rintro _ ⟨hown, hchildren, hinner⟩
    exact .node (SortedMap.sorted_upsert hown) hchildren hinner
  | cons s rest ih =>
    rintro _ ⟨hown, hchildren, hinner⟩
    refine .node hown (SortedMap.sorted_upsert hchildren) fun e he => ?_
    rcases SortedMap.mem_upsert hchildren he with rfl | he
    · exact ih (sorted_child hinner s)
    · exact hinner e he

/-- Putting a class into a tree makes the namespaces on the way to it, and no others. -/
theorem isSome_at?_insert (c : NativeClass F) (path : List String) : ∀ {n : Namespace F}, n.Sorted →
    ∀ q, ((n.insert c path).at? q).isSome ↔ q <+: path ∨ (n.at? q).isSome := by
  induction path with
  | nil =>
    rintro ⟨own, children⟩ - q
    cases q <;> simp [insert, at?]
  | cons p rest ih =>
    rintro _ ⟨-, hchildren, hinner⟩ q
    cases q with
    | nil => simp [at?]
    | cons s q =>
      rw [insert, at?, at?, SortedMap.lookup_upsert hchildren, List.cons_prefix_cons]
      by_cases hs : s = p
      · subst hs
        rw [if_pos rfl, Option.bind_some, ih (sorted_child hinner s)]
        cases List.lookup s _ with
        | some child => simp
        -- The namespace is new, and of what is asked for there is only itself or what is put in.
        | none => cases q <;> simp [at?_empty]
      · simp [hs]

/-- A class that is put into a tree stands where its path leads; the rest is as it was. -/
theorem classAt?_insert (c : NativeClass F) (path : List String) : ∀ {n : Namespace F}, n.Sorted →
    ∀ q, (n.insert c path).classAt? q =
      if q = path ++ [c.name] then some c else n.classAt? q := by
  induction path with
  | nil =>
    rintro _ ⟨hown, -, -⟩ q
    rcases q with _ | ⟨s, _ | ⟨t, q⟩⟩
    · rfl
    · simp [insert, classAt?, SortedMap.lookup_upsert hown]
    · simp [insert, classAt?]
  | cons p rest ih =>
    rintro _ ⟨-, hchildren, hinner⟩ q
    rcases q with _ | ⟨s, _ | ⟨t, q⟩⟩
    · rfl
    · simp [insert, classAt?]
    · rw [insert, classAt?, classAt?, SortedMap.lookup_upsert hchildren]
      by_cases hs : s = p
      · subst hs
        rw [if_pos rfl, Option.bind_some, ih (sorted_child hinner s)]
        cases List.lookup s _ with
        | some child => simp
        | none => simp [classAt?_empty]
      · simp [hs]

/-! ## Listing a tree -/

section Listing

variable {own : List (String × NativeClass F)} {children : List (String × Namespace F)}
  {path : List String}

/-- Paths spell the names of all classes still when a class is put where its own name leads. -/
theorem spells_insert {c : NativeClass F} (rest : List String) : ∀ {path : List String}
    {n : Namespace F}, n.Sorted → n.spells path = true →
    Text.segments c.fullName = path ++ rest ++ [c.name] → (n.insert c rest).spells path = true := by
  induction rest with
  | nil =>
    rintro path _ ⟨hown, -, -⟩ h hc
    obtain ⟨hownNames, hinnerNames⟩ := spells_iff.mp h
    refine spells_iff.mpr ⟨fun e he => ?_, hinnerNames⟩
    rcases SortedMap.mem_upsert hown he with rfl | he
    · simpa using hc
    · exact hownNames e he
  | cons s rest ih =>
    rintro path _ ⟨-, hchildren, hinner⟩ h hc
    obtain ⟨hownNames, hinnerNames⟩ := spells_iff.mp h
    refine spells_iff.mpr ⟨hownNames, fun e he => ?_⟩
    rcases SortedMap.mem_upsert hchildren he with rfl | he
    · refine ih (sorted_child hinner s) ?_ (by simpa using hc)
      cases hs : List.lookup s _ with
      | none => rfl
      | some child => exact hinnerNames (s, child) (mem_of_lookup hs)
    · exact hinnerNames e he

theorem prefix_of_mem_classes {n : Namespace F} (hn : n.Sorted) : ∀ {path : List String},
    n.spells path = true → ∀ c ∈ n.classes, path <+: Text.segments c.fullName := by
  induction hn with
  | node _ _ _ ih =>
    intro path h c hc
    obtain ⟨hownNames, hinnerNames⟩ := spells_iff.mp h
    rw [classes, classesIn_eq_flatMap, List.mem_append, List.mem_map, List.mem_flatMap] at hc
    rcases hc with ⟨e, he, rfl⟩ | ⟨e, he, hc⟩
    · exact ⟨[e.1], (hownNames e he).symm⟩
    · exact (List.prefix_append ..).trans (ih e he (hinnerNames e he) c hc)

/-- The classes of a namespace itself have paths that are one segment longer. -/
theorem filter_own (hown : SortedMap.Sorted own)
    (h : ∀ e ∈ own, Text.segments e.2.fullName = path ++ [e.1]) (q : List String) :
    (own.map Prod.snd).filter (fun c => Text.segments c.fullName = path ++ q) =
      ((node own []).classAt? q).toList := by
  -- A class passes the filter exactly if its name is all of `q`.
  have hone : ∀ e ∈ own, [e.2].filter (fun c => Text.segments c.fullName = path ++ q) =
      if [e.1] = q then [e.2] else [] := fun e he => by simp [List.filter_cons, h e he]
  rw [List.map_eq_flatMap, List.filter_flatMap]
  cases q with
  | nil => exact List.flatMap_eq_nil_iff.mpr fun e he => (hone e he).trans (if_neg (by simp))
  | cons s rest =>
    rw [SortedMap.flatMap_eq_lookup hown (s := s)]
    · cases hs : own.lookup s with
      | none => cases rest <;> simp [classAt?, hs]
      | some c =>
        have hc := hone (s, c) (mem_of_lookup hs)
        cases rest <;> simp_all [classAt?]
    · exact fun e he hs => (hone e he).trans (if_neg (by simp [hs]))

/-- The classes of the namespaces inside have paths that go through the names of these. -/
theorem filter_inner (hchildren : SortedMap.Sorted children)
    (hinner : ∀ e ∈ children, e.2.Sorted)
    (h : ∀ e ∈ children, e.2.spells (path ++ [e.1]) = true)
    (ih : ∀ e ∈ children, ∀ q,
      e.2.classes.filter (fun c => Text.segments c.fullName = path ++ [e.1] ++ q) =
        (e.2.classAt? q).toList) (q : List String) :
    (classesIn children).filter (fun c => Text.segments c.fullName = path ++ q) =
      ((node [] children).classAt? q).toList := by
  have hlonger : ∀ e ∈ children, ∀ c ∈ e.2.classes, path ++ [e.1] <+: Text.segments c.fullName :=
    fun e he => prefix_of_mem_classes (hinner e he) (h e he)
  rw [classesIn_eq_flatMap, List.filter_flatMap]
  cases q with
  | nil =>
    refine List.flatMap_eq_nil_iff.mpr fun e he => List.filter_eq_nil_iff.mpr fun c hc => ?_
    obtain ⟨more, hmore⟩ := hlonger e he c hc
    simp [← hmore]
  | cons s rest =>
    -- Only the namespace of the name `s` has classes that pass, and `ih` says which.
    rw [SortedMap.flatMap_eq_lookup hchildren (s := s)]
    · cases hs : children.lookup s with
      | none => cases rest <;> simp [classAt?, hs]
      | some child =>
        have hchild := ih (s, child) (mem_of_lookup hs) rest
        rw [List.append_assoc] at hchild
        cases rest <;> simp_all [classAt?]
    · intro e he hs
      refine List.filter_eq_nil_iff.mpr fun c hc => ?_
      obtain ⟨more, hmore⟩ := hlonger e he c hc
      simp [← hmore, hs]

/-- A tree whose paths spell the names of its classes lists, under a name, the class to which the
segments of the name lead. -/
theorem filter_classes {n : Namespace F} (hn : n.Sorted) : ∀ {path : List String},
    n.spells path = true → ∀ q, n.classes.filter (fun c => Text.segments c.fullName = path ++ q) =
      (n.classAt? q).toList := by
  induction hn with
  | node hown hchildren hinner ih =>
    intro path h q
    obtain ⟨hownNames, hinnerNames⟩ := spells_iff.mp h
    rw [classes, List.filter_append, filter_own hown hownNames,
      filter_inner hchildren hinner hinnerNames fun e he => ih e he (hinnerNames e he)]
    rcases q with _ | ⟨s, _ | ⟨t, rest⟩⟩ <;> simp [classAt?]

end Listing

end Namespace

namespace NativeRegistry

variable {r : NativeRegistry F} {cs : List (NativeClass F)}

/-- The last of some classes that has a full name. -/
def lastNamed? (cs : List (NativeClass F)) (name : String) : Option (NativeClass F) :=
  cs.findRev? fun c => c.fullName = name

/-- Whether a path names a namespace: its segments, never none, begin the namespace of one of some
classes. -/
def IsNamespace (cs : List (NativeClass F)) (path : String) : Prop :=
  ∃ c ∈ cs, Text.segments path <+: c.namespaceSegments

instance (cs : List (NativeClass F)) (path : String) : Decidable (IsNamespace cs path) :=
  inferInstanceAs (Decidable (∃ c ∈ cs, _))

/-! ## Histories -/

/-- What a registry holds in which some classes were registered, the earliest first. -/
structure Holds (r : NativeRegistry F) (cs : List (NativeClass F)) : Prop where
  sorted : r.root.Sorted
  spells : r.root.spells [] = true
  classAt? : ∀ q, r.root.classAt? q = cs.findRev? fun c => Text.segments c.fullName = q
  at? : ∀ q, q ≠ [] → ((r.root.at? q).isSome ↔ ∃ c ∈ cs, q <+: c.namespaceSegments)

theorem holds_empty : ({} : NativeRegistry F).Holds [] where
  sorted := Namespace.sorted_empty
  spells := rfl
  classAt? := Namespace.classAt?_empty
  at? q hq := by
    obtain ⟨s, rest, rfl⟩ := List.exists_cons_of_ne_nil hq
    simp [Namespace.at?_empty]

theorem holds_register {c : NativeClass F} (h : r.Holds cs) (hc : c.WellNamed) :
    (r.register c).Holds (cs ++ [c]) := by
  have hroot : (r.register c).root = r.root.insert c c.namespaceSegments := by
    rw [register, NativeClass.filter_segments hc]
  have hsegments := NativeClass.segments_fullName hc
  constructor
  case sorted =>
    rw [hroot]
    exact Namespace.sorted_insert c _ h.sorted
  case spells =>
    rw [hroot]
    exact Namespace.spells_insert _ h.sorted h.spells hsegments
  case classAt? =>
    intro q
    rw [hroot, Namespace.classAt?_insert c _ h.sorted, h.classAt?, List.findRev?_eq_find?_reverse,
      List.findRev?_eq_find?_reverse, List.reverse_concat, List.find?_cons, hsegments]
    by_cases hq : q = c.namespaceSegments ++ [c.name]
    · rw [if_pos hq, decide_eq_true hq.symm]
    · rw [if_neg hq, decide_eq_false (Ne.symm hq)]
  case at? =>
    intro q hq
    rw [hroot, Namespace.isSome_at?_insert c _ h.sorted, h.at? q hq]
    simp [or_and_right, exists_or, or_comm]

theorem holds_ofClasses (h : ∀ c ∈ cs, c.WellNamed) : (ofClasses cs).Holds cs := by
  -- The last class is registered into what the others have made.
  induction cs using List.reverseRecOn with
  | nil => exact holds_empty
  | append_singleton cs c ih =>
    rw [ofClasses, List.foldl_concat]
    exact holds_register (ih fun d hd => h d (List.mem_append_left _ hd)) (h c (by simp))

/-! ## Looking up -/

theorem lookup_eq (r : NativeRegistry F) (path : String) : r.lookup path =
    ((r.root.at? (Text.segments path)).map .namespace).or
      ((r.root.classAt? (Text.segments path)).map .cls) := by
  rw [lookup]
  cases hpath : Text.segments path with
  | nil => exact absurd hpath (Text.segments_ne_nil path)
  | cons s rest => exact Namespace.find?_eq rest s r.root

/-- A path that goes on behind a namespace leads to what the namespace has under the name. -/
theorem lookup_append {path s : String} {n : Namespace F}
    (h : r.lookup path = some (.namespace n)) (hs : '.' ∉ s.toList) :
    r.lookup (path ++ "." ++ s) = n.item? s := by
  rw [lookup] at h ⊢
  rw [Text.segments_append, Text.segments_of_dotless hs]
  split at h
  · cases h
  · next first rest hpath =>
    rw [hpath]
    exact Namespace.find?_append s h

theorem findRev?_segments (cs : List (NativeClass F)) (name : String) :
    (cs.findRev? fun c => Text.segments c.fullName = Text.segments name) = lastNamed? cs name := by
  simp only [Text.segments_inj, lastNamed?]

/-- A registry lists under each full name the class that was registered last under it, once, and
lists no others. A path leads to a namespace exactly if its segments begin the namespace of a
registered class, and otherwise to the class that was registered last under it; and it leads on from
a namespace to what the namespace has. -/
theorem last_registration_counts (h : ∀ c ∈ cs, c.WellNamed) :
    (∀ name, (ofClasses cs).classes.filter (fun c => c.fullName = name) =
      (lastNamed? cs name).toList) ∧
    (∀ path, (∃ n, (ofClasses cs).lookup path = some (.namespace n)) ↔ IsNamespace cs path) ∧
    (∀ path, ¬IsNamespace cs path →
      (ofClasses cs).lookup path = (lastNamed? cs path).map .cls) ∧
    ∀ path s n, (ofClasses cs).lookup path = some (.namespace n) → '.' ∉ s.toList →
      (ofClasses cs).lookup (path ++ "." ++ s) = n.item? s := by
  have hholds := holds_ofClasses h
  have hat : ∀ path, ((ofClasses cs).root.at? (Text.segments path)).isSome ↔ IsNamespace cs path :=
    fun path => hholds.at? _ (Text.segments_ne_nil path)
  refine ⟨fun name => ?_, fun path => ?_, fun path hpath => ?_, fun path s n => lookup_append⟩
  · have hlisted := Namespace.filter_classes hholds.sorted hholds.spells (Text.segments name)
    simp only [List.nil_append, Text.segments_inj] at hlisted
    rw [classes, hlisted, hholds.classAt?, findRev?_segments]
  · rw [← hat, lookup_eq]
    cases (ofClasses cs).root.at? (Text.segments path) with
    | some n => exact iff_of_true ⟨n, rfl⟩ rfl
    | none => cases (ofClasses cs).root.classAt? (Text.segments path) <;> simp
  · rw [← hat, Option.not_isSome_iff_eq_none] at hpath
    rw [lookup_eq, hpath, hholds.classAt?, findRev?_segments]
    rfl

/-- The standard library, another list, and a class that the namespace of lists hides. -/
def restocked : List (NativeClass StandardFn) :=
  NativeClass.standard ++ [NativeClass.ofName "java.util" "List", NativeClass.ofName "java" "util"]

theorem last_registration_counts_restocked : (∀ c ∈ restocked, c.WellNamed) ∧
    (ofClasses restocked).classes.filter (fun c => c.fullName = "java.util.List") =
      [NativeClass.ofName "java.util" "List"] ∧
    (ofClasses restocked).classes.filter (fun c => c.fullName = "java.util") =
      [NativeClass.ofName "java" "util"] ∧
    (∃ n, (ofClasses restocked).lookup "java.util" = some (.namespace n) ∧
      n.item? "List" = some (.cls (NativeClass.ofName "java.util" "List"))) ∧
    (ofClasses restocked).lookup "java.lang.System.out" = none ∧
    (ofClasses restocked).lookup "" = none := by
  have hnamed : ∀ c ∈ restocked, c.WellNamed := by decide +kernel
  obtain ⟨hlisted, hnamespace, hclass, hinner⟩ := last_registration_counts hnamed
  have hlist : lastNamed? restocked "java.util.List" =
      some (NativeClass.ofName "java.util" "List") := rfl
  have hutil : lastNamed? restocked "java.util" = some (NativeClass.ofName "java" "util") := rfl
  obtain ⟨n, hn⟩ := (hnamespace "java.util").mpr (by decide +kernel)
  refine ⟨hnamed, ?_, ?_, ⟨n, hn, ?_⟩, ?_, ?_⟩
  · rw [hlisted, hlist]
    rfl
  · rw [hlisted, hutil]
    rfl
  · rw [← hinner _ "List" n hn (by decide +kernel), hclass _ (by decide +kernel)]
    exact congrArg _ hlist
  · rw [hclass _ (by decide +kernel)]
    rfl
  · rw [hclass _ (by decide +kernel)]
    rfl

end NativeRegistry

end Middleweight
