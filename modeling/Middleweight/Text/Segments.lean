/-!
# Dotted names

A dotted name is its segments with a dot between each two. Splitting gives at least one segment, and
segments may be empty; joining what was split gives the name back.
-/

namespace Middleweight.Text

/-- Splits at every dot. -/
def splitDots : List Char → List (List Char)
  | [] => [[]]
  | c :: rest =>
    if c = '.' then [] :: splitDots rest
    else
      match splitDots rest with
      | [] => [[c]]
      | s :: ss => (c :: s) :: ss

/-- Puts a dot between each two segments. -/
def joinDots : List (List Char) → List Char
  | [] => []
  | [s] => s
  | s :: t :: ss => s ++ '.' :: joinDots (t :: ss)

/-- The segments of a dotted name. -/
def segments (name : String) : List String := (splitDots name.toList).map String.ofList

/-- The dotted name with some segments. -/
def dotted (segments : List String) : String :=
  String.ofList (joinDots (segments.map String.toList))

theorem splitDots_ne_nil (cs : List Char) : splitDots cs ≠ [] := by
  cases cs with
  | nil => simp [splitDots]
  | cons c rest =>
    unfold splitDots
    split
    · simp
    · split <;> simp

theorem joinDots_cons {s : List Char} {ss : List (List Char)} (h : ss ≠ []) :
    joinDots (s :: ss) = s ++ '.' :: joinDots ss := by
  cases ss with
  | nil => exact absurd rfl h
  | cons t ss => rfl

/-- Joining the segments of a text gives the text back. -/
theorem joinDots_splitDots (cs : List Char) : joinDots (splitDots cs) = cs := by
  induction cs with
  | nil => rfl
  | cons c rest ih =>
    unfold splitDots
    split
    · next h => rw [joinDots_cons (splitDots_ne_nil rest), ih, h]; rfl
    · cases hs : splitDots rest with
      | nil => exact absurd hs (splitDots_ne_nil rest)
      | cons s ss =>
        rw [hs] at ih
        cases ss with
        | nil => simp [joinDots] at ih ⊢; exact ih
        | cons t ts => simp [joinDots] at ih ⊢; exact ih

theorem splitDots_injective {a b : List Char} (h : splitDots a = splitDots b) : a = b := by
  rw [← joinDots_splitDots a, h, joinDots_splitDots]

/-- Two names with the same segments are the same name. -/
theorem segments_injective {a b : String} (h : segments a = segments b) : a = b := by
  have hl : splitDots a.toList = splitDots b.toList := by
    have := congrArg (List.map String.toList) h
    simpa [segments, Function.comp_def] using this
  exact String.toList_inj.mp (splitDots_injective hl)

theorem segments_inj {a b : String} : segments a = segments b ↔ a = b :=
  ⟨segments_injective, fun h => h ▸ rfl⟩

theorem segments_ne_nil (a : String) : segments a ≠ [] := by
  simpa [segments] using splitDots_ne_nil a.toList

theorem splitDots_append (cs ds : List Char) :
    splitDots (cs ++ '.' :: ds) = splitDots cs ++ splitDots ds := by
  induction cs with
  | nil => simp [splitDots]
  | cons c rest ih =>
    rw [List.cons_append, splitDots, splitDots, ih]
    split
    · rfl
    · cases hs : splitDots rest with
      | nil => exact absurd hs (splitDots_ne_nil rest)
      | cons s ss => rfl

/-- Where two names meet at a dot, no segment reaches from one into the other. -/
theorem segments_append (a b : String) : segments (a ++ "." ++ b) = segments a ++ segments b := by
  have hlist : (a ++ "." ++ b).toList = a.toList ++ '.' :: b.toList := by simp
  rw [segments, hlist, splitDots_append, List.map_append]
  rfl

theorem splitDots_of_dotless {cs : List Char} (h : '.' ∉ cs) : splitDots cs = [cs] := by
  induction cs with
  | nil => rfl
  | cons c rest ih =>
    have hc : ¬c = '.' := fun hc => h (by simp [hc])
    rw [splitDots, if_neg hc, ih fun hrest => h (List.mem_cons_of_mem _ hrest)]

theorem segments_of_dotless {a : String} (h : '.' ∉ a.toList) : segments a = [a] := by
  rw [segments, splitDots_of_dotless h, List.map_singleton, String.ofList_toList]

end Middleweight.Text
