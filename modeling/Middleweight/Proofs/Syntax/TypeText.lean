import Mathlib.Data.List.DropRight
import Middleweight.Syntax.TypeText

/-!
# Reading back the text of a written type

The reader takes every text. What it reads is a type made of names that a text can carry, and such a
type is read back from its own text, whatever blanks stand before it and whatever closes it.

The budget of the readers is accounted for by `Reads`, which says what they do without one: on every
text there is exactly one reading, and the budget of `TypeExpr.parse` suffices for it.

* `TypeExpr.Reads.text` : a textual type is read from its text
* `TypeExpr.reads_budget`, `TypeExpr.reads_iff_parse` : enough budget finds a reading
* `TypeExpr.Reads.textual` : what is read is textual
* `TypeExpr.type_text_round_trip` : the round trips, of types and of texts
-/

namespace Middleweight

/-! ## Trimming -/

namespace Text

theorem trim_eq_rdropWhile (cs : List Char) :
    trim cs = (cs.dropWhile isBlank).rdropWhile isBlank := rfl

/-- A text with no blank at either end. -/
structure Trimmed (cs : List Char) : Prop where
  head : ∀ c ∈ cs.head?, isBlank c = false
  last : ∀ c ∈ cs.getLast?, isBlank c = false

/-- Whether a text is trimmed shows in its first and last character. -/
theorem trimmed_iff {cs : List Char} : Trimmed cs ↔
    cs.head?.all (!isBlank ·) = true ∧ cs.getLast?.all (!isBlank ·) = true := by
  simp only [Option.all_eq_true, Bool.not_eq_true']
  exact ⟨fun h => ⟨h.head, h.last⟩, fun h => ⟨h.1, h.2⟩⟩

instance (cs : List Char) : Decidable (Trimmed cs) := decidable_of_iff _ trimmed_iff.symm

/-- Trimming leaves a trimmed text. -/
theorem trimmed_trim (cs : List Char) : Trimmed (trim cs) where
  head := by
    intro c hc
    rw [trim_eq_rdropWhile] at hc
    obtain ⟨back, hback⟩ := List.rdropWhile_prefix isBlank (cs.dropWhile isBlank)
    have hfront : (cs.dropWhile isBlank).head? = some c := by
      rw [← hback, List.head?_append, Option.mem_def.mp hc]
      rfl
    have hnot := List.head?_dropWhile_not isBlank cs
    rw [hfront] at hnot
    exact hnot
  last := by
    intro c hc
    have hne : trim cs ≠ [] := by
      intro h
      rw [h] at hc
      cases hc
    rw [List.getLast?_eq_some_getLast hne, Option.mem_some_iff] at hc
    have hnot := List.rdropWhile_last_not isBlank (cs.dropWhile isBlank) hne
    rw [← hc]
    exact Bool.eq_false_iff.mpr hnot

/-- Blanks before a trimmed text are all that trimming takes away. -/
theorem trim_append {blanks cs : List Char} (hb : ∀ c ∈ blanks, isBlank c = true)
    (hcs : Trimmed cs) : trim (blanks ++ cs) = cs := by
  have hfront : (blanks ++ cs).dropWhile isBlank = cs := by
    rw [List.dropWhile_append_of_pos hb]
    cases cs with
    | nil => rfl
    | cons c rest => exact List.dropWhile_cons_of_neg (by simp [hcs.head c rfl])
  rw [trim_eq_rdropWhile, hfront, List.rdropWhile_eq_self_iff]
  intro hne
  simp [hcs.last _ (List.getLast?_eq_some_getLast hne)]

end Text

namespace TypeExpr

/-! ## Names that a text can carry -/

/-- A name without delimiters and without blanks at its ends; it may be empty. -/
structure IsName (name : String) : Prop where
  plain : ∀ c ∈ name.toList, isDelimiter c = false
  trimmed : Text.Trimmed name.toList

/-- Which texts are names can be read off their characters. -/
theorem isName_iff {name : String} : IsName name ↔
    name.toList.all (!isDelimiter ·) = true ∧ Text.Trimmed name.toList := by
  simp only [List.all_eq_true, Bool.not_eq_true']
  exact ⟨fun h => ⟨h.plain, h.trimmed⟩, fun h => ⟨h.1, h.2⟩⟩

instance (name : String) : Decidable (IsName name) := decidable_of_iff _ isName_iff.symm

theorem isDelimiter_of_isBlank {c : Char} (h : Text.isBlank c = true) : isDelimiter c = false := by
  by_contra hd
  simp only [isDelimiter, Bool.or_eq_true, decide_eq_true_eq, Bool.not_eq_false] at hd
  rcases hd with (rfl | rfl) | rfl <;> revert h <;> decide

/-- What `readName` gives is a name. -/
theorem isName_readName (cs : List Char) : IsName (readName cs).1 where
  plain := by
    intro c hc
    rw [readName, String.toList_ofList, Text.trim_eq_rdropWhile] at hc
    have hmem := (List.dropWhile_suffix _).mem ((List.rdropWhile_prefix _ _).mem hc)
    simpa using List.mem_takeWhile_imp hmem
  trimmed := by
    rw [readName, String.toList_ofList]
    exact Text.trimmed_trim _

/-- A name is read up to the delimiter behind it, without the blanks before it. -/
theorem readName_append {blanks rest : List Char} {name : String} (hn : IsName name)
    (hb : ∀ c ∈ blanks, Text.isBlank c = true) (hr : ∀ c ∈ rest.head?, isDelimiter c = true) :
    readName (blanks ++ (name.toList ++ rest)) = (name, rest) := by
  have hplain : ∀ c ∈ blanks ++ name.toList, (!isDelimiter c) = true := by
    intro c hc
    rw [Bool.not_eq_true']
    rcases List.mem_append.mp hc with hc | hc
    · exact isDelimiter_of_isBlank (hb c hc)
    · exact hn.plain c hc
  have hstop : rest.takeWhile (!isDelimiter ·) = [] ∧ rest.dropWhile (!isDelimiter ·) = rest := by
    cases rest with
    | nil => exact ⟨rfl, rfl⟩
    | cons c rest => simp [hr c rfl]
  rw [readName, ← List.append_assoc, List.takeWhile_append_of_pos hplain,
    List.dropWhile_append_of_pos hplain, hstop.1, hstop.2, List.append_nil,
    Text.trim_append hb hn.trimmed, String.ofList_toList]

theorem length_readName_le (cs : List Char) : (readName cs).2.length ≤ cs.length :=
  List.length_dropWhile_le _ _

/-- A type that a text can carry: names all through, and positions nowhere. -/
inductive Textual : TypeExpr → Prop
  | intro {name : String} {generics : List TypeExpr} (hname : IsName name)
      (hgenerics : ∀ g ∈ generics, Textual g) : Textual { name, generics }

/-! ## Readings -/

mutual

/-- What stands at the front of a text is a given type, and what is left behind it. -/
inductive Reads : List Char → TypeExpr → List Char → Prop
  | plain {cs rest : List Char} {name : String} (hname : readName cs = (name, rest))
      (hrest : ∀ after, rest ≠ '<' :: after) : Reads cs { name } rest
  | generic {cs after rest : List Char} {name : String} {generics : List TypeExpr}
      (hname : readName cs = (name, '<' :: after)) (hargs : ReadsArguments after generics rest) :
      Reads cs { name, generics } rest

/-- What stands behind a `<` are given arguments; a `>` behind the last one is passed over. -/
inductive ReadsArguments : List Char → List TypeExpr → List Char → Prop
  | more {cs after rest : List Char} {arg : TypeExpr} {args : List TypeExpr}
      (harg : Reads cs arg (',' :: after)) (hargs : ReadsArguments after args rest) :
      ReadsArguments cs (arg :: args) rest
  | closed {cs rest : List Char} {arg : TypeExpr} (harg : Reads cs arg ('>' :: rest)) :
      ReadsArguments cs [arg] rest
  | unclosed {cs rest : List Char} {arg : TypeExpr} (harg : Reads cs arg rest)
      (hrest : ∀ c ∈ rest.head?, c ≠ ',' ∧ c ≠ '>') : ReadsArguments cs [arg] rest

end

/-! ### There is at most one -/

mutual

/-- A text has one reading only. -/
theorem Reads.unique {cs rest rest' : List Char} {t t' : TypeExpr} :
    Reads cs t rest → Reads cs t' rest' → t = t' ∧ rest = rest'
  | .plain hname hrest, .plain hname' _ => by
    rw [hname] at hname'
    cases hname'
    exact ⟨rfl, rfl⟩
  | .plain hname hrest, .generic hname' _ => by
    rw [hname] at hname'
    cases hname'
    exact absurd rfl (hrest _)
  | .generic hname _, .plain hname' hrest' => by
    rw [hname'] at hname
    cases hname
    exact absurd rfl (hrest' _)
  | .generic hname hargs, .generic hname' hargs' => by
    rw [hname] at hname'
    cases hname'
    obtain ⟨rfl, rfl⟩ := hargs.unique hargs'
    exact ⟨rfl, rfl⟩

theorem ReadsArguments.unique {cs rest rest' : List Char} {args args' : List TypeExpr} :
    ReadsArguments cs args rest → ReadsArguments cs args' rest' → args = args' ∧ rest = rest'
  | .more harg hargs, .more harg' hargs' => by
    obtain ⟨rfl, hafter⟩ := harg.unique harg'
    cases hafter
    obtain ⟨rfl, rfl⟩ := hargs.unique hargs'
    exact ⟨rfl, rfl⟩
  | .more harg _, .closed harg' => by
    obtain ⟨-, hafter⟩ := harg.unique harg'
    cases hafter
  | .more harg _, .unclosed harg' hrest' => by
    obtain ⟨-, rfl⟩ := harg.unique harg'
    exact absurd rfl (hrest' _ rfl).1
  | .closed harg, .more harg' _ => by
    obtain ⟨-, hafter⟩ := harg.unique harg'
    cases hafter
  | .closed harg, .closed harg' => by
    obtain ⟨rfl, hafter⟩ := harg.unique harg'
    cases hafter
    exact ⟨rfl, rfl⟩
  | .closed harg, .unclosed harg' hrest' => by
    obtain ⟨-, rfl⟩ := harg.unique harg'
    exact absurd rfl (hrest' _ rfl).2
  | .unclosed harg hrest, .more harg' _ => by
    obtain ⟨-, rfl⟩ := harg.unique harg'
    exact absurd rfl (hrest _ rfl).1
  | .unclosed harg hrest, .closed harg' => by
    obtain ⟨-, rfl⟩ := harg.unique harg'
    exact absurd rfl (hrest _ rfl).2
  | .unclosed harg _, .unclosed harg' _ => by
    obtain ⟨rfl, rfl⟩ := harg.unique harg'
    exact ⟨rfl, rfl⟩

end

/-! ### What is read is textual, and nothing is read twice -/

mutual

/-- What is read can be written. -/
theorem Reads.textual {cs rest : List Char} {t : TypeExpr} : Reads cs t rest → Textual t
  | .plain hname _ => by
    refine .intro ?_ (by simp)
    simpa [hname] using isName_readName cs
  | .generic hname hargs => by
    refine .intro ?_ hargs.textual
    simpa [hname] using isName_readName cs

theorem ReadsArguments.textual {cs rest : List Char} {args : List TypeExpr} :
    ReadsArguments cs args rest → ∀ g ∈ args, Textual g
  | .more harg hargs => List.forall_mem_cons.mpr ⟨harg.textual, hargs.textual⟩
  | .closed harg => List.forall_mem_singleton.mpr harg.textual
  | .unclosed harg _ => List.forall_mem_singleton.mpr harg.textual

end

mutual

/-- Reading takes characters away, never adds any. -/
theorem Reads.length_le {cs rest : List Char} {t : TypeExpr} :
    Reads cs t rest → rest.length ≤ cs.length
  | .plain hname _ => by simpa [hname] using length_readName_le cs
  | .generic hname hargs => by
    have hafter := length_readName_le cs
    have hrest := hargs.length_le
    rw [hname, List.length_cons] at hafter
    omega

theorem ReadsArguments.length_le {cs rest : List Char} {args : List TypeExpr} :
    ReadsArguments cs args rest → rest.length ≤ cs.length
  | .more harg hargs => by
    have hafter := harg.length_le
    have hrest := hargs.length_le
    rw [List.length_cons] at hafter
    omega
  | .closed harg => by
    have hrest := harg.length_le
    rw [List.length_cons] at hrest
    omega
  | .unclosed harg _ => harg.length_le

end

/-! ### The readers find one -/

/-- A budget beyond twice the length of the text is enough for both readers. -/
theorem reads_budget (fuel : Nat) :
    (∀ cs : List Char, 2 * cs.length < fuel → Reads cs (read fuel cs).1 (read fuel cs).2) ∧
    ∀ cs : List Char, 2 * cs.length + 1 < fuel →
      ReadsArguments cs (readArguments fuel cs).1 (readArguments fuel cs).2 := by
  induction fuel with
  | zero => exact ⟨fun _ h => absurd h (by omega), fun _ h => absurd h (by omega)⟩
  | succ fuel ih =>
    refine ⟨fun cs hcs => ?_, fun cs hcs => ?_⟩
    · rw [read]
      split
      · next name after hname =>
        have hafter := length_readName_le cs
        rw [hname, List.length_cons] at hafter
        exact .generic hname (ih.2 after (by omega))
      · next name rest hrest hname => exact .plain hname fun after => hrest after
    · have harg := ih.1 cs (by omega)
      have hlength := harg.length_le
      rw [readArguments]
      split
      · next arg after hread =>
        rw [hread] at harg hlength
        exact .more harg (ih.2 after (by simp at hlength; omega))
      · next arg after hread =>
        rw [hread] at harg
        exact .closed harg
      · next arg rest hcomma hclose hread =>
        rw [hread] at harg
        refine .unclosed harg fun c hc => ⟨?_, ?_⟩ <;> rintro rfl
        · exact hcomma _ (List.eq_cons_of_mem_head? hc)
        · exact hclose _ (List.eq_cons_of_mem_head? hc)

/-- The readings of a text are those of `parse`. -/
theorem reads_iff_parse {s : String} {t : TypeExpr} :
    (∃ rest, Reads s.toList t rest) ↔ t = parse s := by
  have hparse : Reads s.toList (parse s) (read (2 * s.length + 1) s.toList).2 :=
    (reads_budget _).1 s.toList (by rw [String.length_toList]; omega)
  constructor
  · rintro ⟨rest, h⟩
    exact (h.unique hparse).1
  · rintro rfl
    exact ⟨_, hparse⟩

/-! ## Reading what was written -/

/-- What may stand behind a type: the rest of a list of arguments, its end, or nothing. -/
def Closes (rest : List Char) : Prop := ∀ c ∈ rest.head?, c = ',' ∨ c = '>'

theorem Closes.isDelimiter {rest : List Char} (h : Closes rest) :
    ∀ c ∈ rest.head?, isDelimiter c = true := by
  intro c hc
  rcases h c hc with rfl | rfl <;> rfl

theorem Closes.ne_open {rest : List Char} (h : Closes rest) (after : List Char) :
    rest ≠ '<' :: after := by
  rintro rfl
  have := h '<' rfl
  revert this
  decide

theorem toList_text_of_nil (name : String) : (text { name }).toList = name.toList := rfl

/-- The arguments of a type as they are written between `<` and `>`. -/
def argumentsText (ts : List TypeExpr) : List Char := (String.intercalate ", " (texts ts)).toList

theorem argumentsText_singleton (t : TypeExpr) : argumentsText [t] = t.text.toList := by
  rw [argumentsText, texts, texts, String.intercalate_singleton]

theorem argumentsText_cons_cons (t u : TypeExpr) (ts : List TypeExpr) :
    argumentsText (t :: u :: ts) = t.text.toList ++ ',' :: ' ' :: argumentsText (u :: ts) := by
  rw [argumentsText, texts, texts, String.intercalate_cons_cons, String.toList_append,
    String.toList_append, List.append_assoc]
  rfl

/-- A type with arguments is written as its name and their texts between angle brackets. -/
theorem toList_text_of_cons (name : String) (t : TypeExpr) (ts : List TypeExpr) :
    (text { name, generics := t :: ts }).toList =
      name.toList ++ '<' :: (argumentsText (t :: ts) ++ ['>']) := by
  rw [text, texts]
  simp only [String.toList_append, List.append_assoc]
  rfl

/-- Arguments are read from their text if each of them is. -/
theorem readsArguments_text (rest : List Char) (ts : List TypeExpr) :
    ∀ (t : TypeExpr) (blanks : List Char), (∀ g ∈ t :: ts, ∀ blanks after : List Char,
      (∀ c ∈ blanks, Text.isBlank c = true) → Closes after →
        Reads (blanks ++ (g.text.toList ++ after)) g after) →
    (∀ c ∈ blanks, Text.isBlank c = true) →
    ReadsArguments (blanks ++ (argumentsText (t :: ts) ++ '>' :: rest)) (t :: ts) rest := by
  induction ts with
  | nil =>
    intro t blanks hread hb
    rw [argumentsText_singleton]
    exact .closed (hread t (by simp) blanks _ hb (by simp [Closes]))
  | cons u ts ih =>
    intro t blanks hread hb
    rw [argumentsText_cons_cons, List.append_assoc]
    refine .more (hread t (by simp) blanks _ hb (by simp [Closes])) ?_
    -- The blank behind the comma is the one that the next argument passes over.
    exact ih u [' '] (fun g hg => hread g (List.mem_cons_of_mem _ hg))
      (List.forall_mem_singleton.mpr rfl)

/-- A textual type is read from its text, without the blanks before it. -/
theorem Textual.reads {t : TypeExpr} (ht : Textual t) : ∀ blanks rest : List Char,
    (∀ c ∈ blanks, Text.isBlank c = true) → Closes rest →
    Reads (blanks ++ (t.text.toList ++ rest)) t rest := by
  induction ht with
  | @intro name generics hname _ ih =>
    intro blanks rest hb hrest
    cases generics with
    | nil =>
      rw [toList_text_of_nil]
      exact .plain (readName_append hname hb hrest.isDelimiter) hrest.ne_open
    | cons g gs =>
      rw [toList_text_of_cons, List.append_assoc, List.cons_append, List.append_assoc]
      refine .generic (readName_append hname hb (by simp; rfl)) ?_
      exact readsArguments_text rest gs g [] ih (by simp)

/-- Reading what was written gives the type back. -/
theorem Textual.parse_text {t : TypeExpr} (ht : Textual t) : parse t.text = t := by
  have h : Reads t.text.toList t [] := by
    simpa using ht.reads [] [] (by simp) (by simp [Closes])
  exact (reads_iff_parse.mp ⟨_, h⟩).symm

/-- What is read from any text can be written. -/
theorem textual_parse (s : String) : Textual (parse s) := by
  obtain ⟨rest, h⟩ := reads_iff_parse.mpr (rfl : parse s = parse s)
  exact h.textual

/-- A textual type is what is read from its text. Every text has exactly one reading, that of
`parse`, and writing what was read makes a text that reads the same. -/
theorem type_text_round_trip :
    (∀ t : TypeExpr, Textual t → parse t.text = t) ∧
    ∀ s : String, (∀ t, (∃ rest, Reads s.toList t rest) ↔ t = parse s) ∧
      parse (parse s).text = parse s :=
  ⟨fun _ ht => ht.parse_text, fun s => ⟨fun _ => reads_iff_parse, (textual_parse s).parse_text⟩⟩

/-- A list of pairs, of which the second member is a nameless type with a nameless argument. -/
theorem type_text_round_trip_pairs :
    let nameless : TypeExpr := { name := "", generics := [{ name := "" }] }
    let pairs : TypeExpr :=
      { name := "java.util.List",
        generics := [{ name := "Pair of", generics := [{ name := "K" }, nameless] }] }
    Textual pairs ∧ pairs.text = "java.util.List<Pair of<K, <>>>" ∧ parse pairs.text = pairs := by
  intro nameless pairs
  have hname : ∀ name ∈ ["java.util.List", "Pair of", "K", ""], IsName name := by
    decide
  have hempty : Textual { name := "" } := .intro (hname _ (by decide)) (by simp)
  have hpairs : Textual pairs := by
    refine .intro (hname _ (by decide)) (List.forall_mem_singleton.mpr ?_)
    refine .intro (hname _ (by decide)) (List.forall_mem_cons.mpr ⟨?_, ?_⟩)
    · exact .intro (hname _ (by decide)) (by simp)
    · refine List.forall_mem_singleton.mpr (.intro (hname _ (by decide)) ?_)
      exact List.forall_mem_singleton.mpr hempty
  exact ⟨hpairs, by decide, type_text_round_trip.1 pairs hpairs⟩

end TypeExpr

end Middleweight
