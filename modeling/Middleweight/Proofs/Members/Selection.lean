import Middleweight.Members.Source
import Middleweight.Proofs.Basic

/-!
# Chosen members

A member that resolution chooses is one that its owner declares, its signature is the lowered one,
and the arguments fit it with the bindings of the choice.

* `ClassTable.method_of_found`, `ClassTable.constructor_of_found` : over runtime classes
-/

namespace Middleweight

variable {F O : Type} {t : ClassTable F}

/-- A member is among some with its signature, and the arguments fit. -/
def Selected.From (t : ClassTable F) (args : List Ty) (cs : List (Member F × Signature))
    (s : Selected F O) : Prop :=
  (s.member, s.signature) ∈ cs ∧ t.applicable s.signature args = some s.bindings

/--
The only applicable candidate is one of the candidates, with the bindings that make it applicable.
-/
theorem ClassTable.from_of_applicables {cs : List (Member F × Signature)} {args : List Ty}
    {m : Member F} {s : Signature} {b : Bindings} (h : t.applicables cs args = [(m, s, b)])
    (o : O) : Selected.From t args cs ⟨o, m, s, b⟩ := by
  have hm : (m, s, b) ∈ t.applicables cs args := by simp [h]
  obtain ⟨⟨m', s'⟩, hmem, hb⟩ := List.mem_filterMap.mp hm
  obtain ⟨b', hb', he⟩ := Option.map_eq_some_iff.mp hb
  cases he
  exact ⟨hmem, hb'⟩

namespace MemberSource

variable {src : MemberSource F O}

/-- A method that is found stands at the level where the search ended. -/
theorem methodFrom_found {start : O} {name : String} {isStatic : Bool} {args : List Ty} :
    ∀ {fuel : Nat} {o : O} {s : Selected F O},
    src.methodFrom t start name isStatic args fuel o = .ok (.found s) →
    ∃ cs, src.methods s.owner name isStatic = .ok cs ∧ s.From t args cs := by
  intro fuel
  induction fuel with
  | zero => intro o s h; cases h
  | succ fuel ih =>
    intro o s h
    rw [methodFrom] at h
    split at h
    · cases h
    · next cs hcs =>
      split at h
      · next hone =>
        cases h
        exact ⟨cs, hcs, ClassTable.from_of_applicables hone o⟩
      · split at h
        · cases h
        · exact ih h
        · cases h
      · cases h

/-- A constructor that is found is one of the class itself. -/
theorem resolveConstructor_found {o : O} {args : List Ty} {s : Selected F O}
    (h : src.resolveConstructor t o args = .ok (.found s)) :
    s.owner = o ∧ ∃ cs, src.constructors o = .ok cs ∧ s.From t args cs := by
  rw [resolveConstructor] at h
  split at h
  · cases h
  · next cs hcs =>
    split at h
    · cases h
    · dsimp only at h
      split at h
      · next hone =>
        cases h
        exact ⟨rfl, cs, hcs, ClassTable.from_of_applicables hone o⟩
      · cases h
      · cases h

end MemberSource

/-- The methods of one name are methods of the class, static or not as asked for. -/
theorem Template.mem_methodsNamed {c : Template F} {name : String} {isStatic : Bool}
    {m : Member F} (h : m ∈ c.methodsNamed name isStatic) :
    m ∈ c.methods ∧ m.isStatic = isStatic := by
  obtain ⟨hm, hp⟩ := List.mem_filter.mp h
  rw [Bool.and_eq_true] at hp
  exact ⟨hm, beq_iff_eq.mp hp.2⟩

namespace ClassTable

/-- Typed members are the members one by one, each with its signature. -/
theorem signatures_ok_iff {params : TypeParams} {ms : List (Member F)}
    {ss : List (Member F × Signature)} : t.signatures params ms = .ok ss ↔
      List.Forall₂ (fun m c => c.1 = m ∧ t.signature m params = .ok c.2) ms ss := by
  constructor
  · intro h
    induction ms generalizing ss with
    | nil =>
      cases h
      exact .nil
    | cons m rest ih =>
      rw [signatures] at h
      split at h
      · cases h
      · next sig hsig =>
        split at h
        · cases h
        · next ss' hss =>
          cases h
          exact .cons ⟨rfl, hsig⟩ (ih hss)
  · intro h
    induction h with
    | nil => rfl
    | @cons m c _ _ hc _ ih =>
      obtain ⟨n, s⟩ := c
      obtain ⟨rfl, hs⟩ := hc
      rw [signatures, hs, ih]

/-- A signature that has been lowered is that of its member. -/
theorem mem_signatures {params : TypeParams} {ms : List (Member F)}
    {ss : List (Member F × Signature)} (h : t.signatures params ms = .ok ss) {m : Member F}
    {s : Signature} (hm : (m, s) ∈ ss) : m ∈ ms ∧ t.signature m params = .ok s := by
  obtain ⟨n, hn, rfl, hs⟩ := exists_of_forall₂_mem (signatures_ok_iff.mp h) hm
  exact ⟨hn, hs⟩

/-- A signature has the name and the parameters of its member. -/
theorem signature_ok {m : Member F} {params : TypeParams} {s : Signature}
    (h : t.signature m params = .ok s) :
    s.name = m.name ∧ s.isStatic = m.isStatic ∧ s.generics = m.generics := by
  rw [signature] at h
  split at h
  · cases h
  · split at h
    · cases h
      exact ⟨rfl, rfl, rfl⟩
    · split at h
      · cases h
      · cases h
        exact ⟨rfl, rfl, rfl⟩

/--
A method that a call finds is declared in the class of its owner and lowers to its signature there.
-/
theorem method_of_found {c : RuntimeClass F} {name : String} {isStatic : Bool} {args : List Ty}
    {s : Selected F (RuntimeClass F)}
    (h : t.runtimeMembers.resolveMethod t c name isStatic args = .ok (.found s)) :
    s.member ∈ s.owner.own.template.methodsNamed name isStatic ∧
      t.signature s.member s.owner.params = .ok s.signature ∧
      t.applicable s.signature args = some s.bindings := by
  obtain ⟨cs, hcs, hmem, happ⟩ := MemberSource.methodFrom_found h
  obtain ⟨hm, hs⟩ := mem_signatures hcs hmem
  exact ⟨hm, hs, happ⟩

/-- A constructor that is found is declared in the class and lowers to its signature there. -/
theorem constructor_of_found {c : RuntimeClass F} {args : List Ty}
    {s : Selected F (RuntimeClass F)}
    (h : t.runtimeMembers.resolveConstructor t c args = .ok (.found s)) :
    s.owner = c ∧ s.member ∈ c.constructors ∧ t.signature s.member c.params = .ok s.signature := by
  obtain ⟨ho, cs, hcs, hmem, -⟩ := MemberSource.resolveConstructor_found h
  obtain ⟨hm, hs⟩ := mem_signatures hcs hmem
  exact ⟨ho, hm, hs⟩

end ClassTable

end Middleweight
