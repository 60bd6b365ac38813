import Middleweight.Proofs.Basic
import Middleweight.Types.ResolutionCache

/-!
# Reading a cache after writing to it

Names that share segments do not get in each other's way: a cache gives back what was put last under
a name and a key, and other entries stay as they were. Keys count as equal when their types are the
same, and sameness of types is an equivalence.

* `ResolutionCache.get?_insert` : what is read after a write
* `ResolutionCache.last_insertion_counts` : what is read after any insertions
-/

namespace Middleweight

/-! ## Sameness is an equivalence -/

namespace Ty

mutual

theorem same_comm : ∀ t u : Ty, t.same u = u.same t
  | cls n args, cls m brgs => by
    rw [same, same, sameAll_comm args brgs, Bool.beq_comm]
  | cls _ _, unbound _ => by rw [same, same] <;> simp
  | cls _ _, bound _ _ => by rw [same, same] <;> simp
  | unbound _, cls _ _ => by rw [same, same] <;> simp
  | bound _ _, cls _ _ => by rw [same, same] <;> simp
  | unbound n, unbound m => by rw [same, same, Bool.beq_comm]
  | unbound n, bound m _ => by rw [same, same, Bool.beq_comm]
  | bound n _, unbound m => by rw [same, same, Bool.beq_comm]
  | bound n _, bound m _ => by rw [same, same, Bool.beq_comm]

theorem sameAll_comm : ∀ ts us : List Ty, sameAll ts us = sameAll us ts
  | [], [] => rfl
  | [], _ :: _ => by rw [sameAll, sameAll] <;> simp
  | _ :: _, [] => by rw [sameAll, sameAll] <;> simp
  | t :: ts, u :: us => by rw [sameAll, sameAll, same_comm t u, sameAll_comm ts us]

end

mutual

theorem same_trans : ∀ {t u v : Ty}, t.same u = true → u.same v = true → t.same v = true
  | cls n args, cls m brgs, cls k crgs, h, h' => by
    rw [same, Bool.and_eq_true, beq_iff_eq] at h h' ⊢
    exact ⟨h.1.trans h'.1, sameAll_trans h.2 h'.2⟩
  | cls _ _, cls _ _, unbound _, _, h' => by simp [same] at h'
  | cls _ _, cls _ _, bound _ _, _, h' => by simp [same] at h'
  | cls _ _, unbound _, _, h, _ => by simp [same] at h
  | cls _ _, bound _ _, _, h, _ => by simp [same] at h
  | unbound _, cls _ _, _, h, _ => by simp [same] at h
  | bound _ _, cls _ _, _, h, _ => by simp [same] at h
  | unbound _, unbound _, v, h, h' => by cases v <;> simp_all [same]
  | unbound _, bound _ _, v, h, h' => by cases v <;> simp_all [same]
  | bound _ _, unbound _, v, h, h' => by cases v <;> simp_all [same]
  | bound _ _, bound _ _, v, h, h' => by cases v <;> simp_all [same]

theorem sameAll_trans : ∀ {ts us vs : List Ty}, sameAll ts us = true → sameAll us vs = true →
    sameAll ts vs = true
  | [], [], _, _, h' => h'
  | [], _ :: _, _, h, _ => by simp [sameAll] at h
  | _ :: _, [], _, h, _ => by simp [sameAll] at h
  | _ :: _, _ :: _, [], _, h' => by simp [sameAll] at h'
  | t :: ts, u :: us, v :: vs, h, h' => by
    rw [sameAll, Bool.and_eq_true] at h h' ⊢
    exact ⟨same_trans h.1 h'.1, sameAll_trans h.2 h'.2⟩

end

end Ty

/-! ## Keys -/

/-- Whether two keys ask for the same. -/
def CacheKey.same : CacheKey → CacheKey → Bool
  | .static, .static => true
  | .args ts, .args us => Ty.sameAll ts us
  | _, _ => false

/-! ## Nodes -/

namespace CacheNode

variable {α : Type}

theorem get?_empty (key : CacheKey) (path : List String) :
    (empty : CacheNode α).get? key path = none := by
  cases path with
  | nil => cases key <;> rfl
  | cons s rest => rfl

theorem value?_setValue (value : α) (key key' : CacheKey) (n : CacheNode α) :
    (n.setValue value key).value? key' =
      if key.same key' then some value else n.value? key' := by
  obtain ⟨st, is, cs⟩ := n
  cases key with
  | static => cases key' <;> rfl
  | args ts =>
    cases key' with
    | static => rfl
    | args us =>
      show (((ts, value) :: is.filter fun e => !Ty.sameAll e.1 ts).find?
        fun e => Ty.sameAll e.1 us).map Prod.snd = if Ty.sameAll ts us = true then _ else _
      rw [List.find?_cons]
      cases hsame : Ty.sameAll ts us with
      | true => rfl
      | false =>
        -- An entry that answers for `us` is not one that has given way to `ts`.
        have hkeep : ∀ e : List Ty × α, (!Ty.sameAll e.1 ts) = true ∧ Ty.sameAll e.1 us = true ↔
            Ty.sameAll e.1 us = true := by
          refine fun e => ⟨And.right, fun hus => ⟨?_, hus⟩⟩
          cases hts : Ty.sameAll e.1 ts with
          | false => rfl
          | true =>
            rw [Ty.sameAll_comm] at hts
            rw [Ty.sameAll_trans hts hus] at hsame
            cases hsame
        simp only [List.find?_filter, hkeep, Bool.decide_eq_true]
        rfl

theorem get?_insert (key key' : CacheKey) (value : α) :
    ∀ (path path' : List String) (n : CacheNode α), (n.insert key value path).get? key' path' =
      if path = path' ∧ key.same key' = true then some value else n.get? key' path'
  | [], [], n => by
    rw [insert, get?, get?, value?_setValue]
    simp
  | [], s :: rest, node st is cs => by
    cases key <;> simp [insert, setValue, get?, children]
  | s :: rest, [], node st is cs => by
    cases key' <;> simp [insert, get?, value?]
  | s :: rest, s' :: rest', node st is cs => by
    rw [insert, get?, get?]
    dsimp only [children]
    by_cases hs : s' = s
    · subst hs
      rw [List.lookup_cons_self]
      dsimp only
      rw [get?_insert key key' value rest rest']
      cases cs.lookup s' with
      | none => simp [get?_empty]
      | some child => simp
    · have hne : (s' == s) = false := by simpa using hs
      rw [List.lookup_cons, hne]
      dsimp only
      rw [lookup_filter_ne hs, if_neg]
      rintro ⟨h, -⟩
      exact hs (List.cons.inj h).1.symm

end CacheNode

/-- A cache gives what was put under the name and the key, and otherwise what it gave before. -/
theorem ResolutionCache.get?_insert {α : Type} (c : ResolutionCache α) (name name' : String)
    (key key' : CacheKey) (value : α) :
    (c.insert name key value).get? name' key' =
      if name = name' ∧ key.same key' = true then some value else c.get? name' key' := by
  unfold get? insert
  rw [CacheNode.get?_insert]
  simp only [Text.segments_inj]

theorem ResolutionCache.get?_empty {α : Type} (name : String) (key : CacheKey) :
    ({} : ResolutionCache α).get? name key = none :=
  CacheNode.get?_empty key _

/-! ## Histories -/

/-- An insertion: a value, and the name and key under which it is put. -/
structure CacheEntry (α : Type) where
  name : String
  key : CacheKey
  value : α

/-- Whether an insertion puts its value under a name and key. -/
def CacheEntry.isUnder {α : Type} (e : CacheEntry α) (name : String) (key : CacheKey) : Bool :=
  e.name = name && e.key.same key

namespace ResolutionCache

variable {α : Type}

/-- A cache after some insertions, the earliest first. -/
def insertAll (c : ResolutionCache α) (entries : List (CacheEntry α)) : ResolutionCache α :=
  entries.foldl (fun c e => c.insert e.name e.key e.value) c

/-- The last insertion under a name and key counts, and before the first one what the cache held. -/
theorem get?_insertAll (name : String) (key : CacheKey) (entries : List (CacheEntry α)) :
    ∀ c : ResolutionCache α, (c.insertAll entries).get? name key =
      ((entries.findRev? (·.isUnder name key)).map CacheEntry.value).or (c.get? name key) := by
  induction entries with
  | nil => exact fun c => rfl
  | cons e rest ih =>
    intro c
    rw [insertAll, List.foldl_cons]
    refine (ih (c.insert e.name e.key e.value)).trans ?_
    rw [List.findRev?, get?_insert]
    cases rest.findRev? (·.isUnder name key) with
    | some later => rfl
    | none =>
      by_cases h : e.isUnder name key = true
      · have hkey : e.name = name ∧ e.key.same key = true := by simpa [CacheEntry.isUnder] using h
        rw [if_pos hkey, h]
        rfl
      · have hkey : ¬(e.name = name ∧ e.key.same key = true) := by
          simpa [CacheEntry.isUnder] using h
        rw [if_neg hkey, Bool.eq_false_iff.mpr h]
        rfl

/-- An empty cache, after any insertions, gives under a name and key the value of the last insertion
under the same name and a key that is the same, and nothing if there was none. -/
theorem last_insertion_counts (entries : List (CacheEntry α)) (name : String) (key : CacheKey) :
    (({} : ResolutionCache α).insertAll entries).get? name key =
      (entries.findRev? fun e => e.name = name && e.key.same key).map CacheEntry.value := by
  rw [get?_insertAll, get?_empty, Option.or_none]
  rfl

end ResolutionCache

end Middleweight
