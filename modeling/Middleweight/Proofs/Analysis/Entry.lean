import Middleweight.Proofs.Analysis.Checked
import Middleweight.Proofs.Members.Agreement
import Middleweight.Proofs.Members.Fit

/-!
# The methods with which a program can start

A call of `main` without arguments looks at the static methods of that name. In a class that the
checker accepts each of them has a signature, and those that the call fits are the ones that can
start a program. So the class decides the call if it has any of them: the call finds the only one,
and is ambiguous between several.

* `MethodDecl.exists_signature` : a checked static method has a signature
* `ClassTable.applicables_main` : the methods that a call of `main` fits
* `MemberSource.resolveMethod_main_iff` : what such a call finds
-/

namespace Middleweight

variable {F : Type} {t : ClassTable F} {cls : Template F}

/-- Without arguments, only a signature without parameters is applicable. -/
theorem ClassTable.applicable_nil (t : ClassTable F) (s : Signature) :
    t.applicable s [] = if s.params.isEmpty then some [] else none := by
  unfold applicable Signature.paramTypes
  cases s.params with
  | nil => rfl
  | cons q qs => simp

/-- A checked static method has a signature, with parameters if it has parameters. -/
theorem MethodDecl.exists_signature {m : MethodDecl} (h : m.check t cls = .ok ())
    (hstatic : m.isStatic = true) (owner : String) (params : TypeParams) :
    ∃ s, t.signature (.ofMethod owner m) params = .ok s ∧
      s.params.isEmpty = m.parameters.isEmpty := by
  obtain ⟨rt, L, L', hrt, hlocals, -, -⟩ := MethodDecl.check_ok h
  rw [BodyContext.initialLocals_eq] at hlocals
  obtain ⟨qs, hqs⟩ := BodyContext.params_of_defineParameters hlocals
  have hreturn := MethodDecl.loweredReturn_ok_iff.mp hrt
  -- A static method sees its own parameters only, and so does the body that was checked.
  have hparams : ClassTable.memberParams (F := F) (.ofMethod owner m) params = m.typeParams cls := by
    rw [ClassTable.memberParams, MethodDecl.typeParams, hstatic,
      show (Member.ofMethod (F := F) owner m).isStatic = true from hstatic]
    rfl
  have hqs : List.Forall₂ (fun e q => q.name = e.1 ∧ t.lower (m.typeParams cls) e.2 = .ok q.ty)
    (Member.writtenParams m.parameters) qs := hqs
  rw [← hparams] at hqs hreturn
  refine ⟨_, ClassTable.signature_of_lowers hqs hreturn, ?_⟩
  have hlength := hqs.length_eq
  rw [Member.writtenParams, List.length_map] at hlength
  rw [Bool.eq_iff_iff, List.isEmpty_iff_length_eq_zero, List.isEmpty_iff_length_eq_zero, hlength]

/-- The methods that a call of `main` without arguments fits are those that can start a program. -/
theorem ClassTable.applicables_main (owner : String) (params : TypeParams) :
    ∀ {ms : List MethodDecl}, (∀ m ∈ ms, m.check t cls = .ok ()) →
    ∃ cs, t.signatures params ((ms.map (Member.ofMethod owner)).filter
        fun m => m.name == "main" && m.isStatic == true) = .ok cs ∧
      (t.applicables cs []).map Prod.fst =
        (ms.filter MethodDecl.isEntry).map (Member.ofMethod owner)
  | [], _ => ⟨[], rfl, rfl⟩
  | m :: ms, hms => by
    obtain ⟨hm, hms⟩ := List.forall_mem_cons.mp hms
    obtain ⟨cs, hcs, happ⟩ := applicables_main owner params hms
    rw [List.map_cons, List.filter_cons, List.filter_cons]
    by_cases hnamed : m.name.name = "main" ∧ m.isStatic = true
    · obtain ⟨hname, hstatic⟩ := hnamed
      obtain ⟨s, hs, hempty⟩ := m.exists_signature hm hstatic owner params
      refine ⟨(.ofMethod owner m, s) :: cs, ?_, ?_⟩
      · rw [if_pos (by simp [Member.ofMethod, hname, hstatic]), signatures, hs, hcs]
      · rw [applicables_cons, applicable_nil, hempty]
        simp only [MethodDecl.isEntry, hname, hstatic]
        cases m.parameters.isEmpty with
        | true => simp [happ]
        | false => simp [happ]
    · refine ⟨cs, ?_, ?_⟩
      · rw [if_neg]
        · exact hcs
        · simpa [Member.ofMethod] using hnamed
      · rw [if_neg]
        · exact happ
        · intro hentry
          simp only [MethodDecl.isEntry, Bool.and_eq_true, beq_iff_eq] at hentry
          exact hnamed ⟨hentry.2, hentry.1.1⟩

namespace MemberSource

variable {O : Type} {source : MemberSource F O} {o : O}

/-- A class with applicable methods of its own decides a call of a method. -/
theorem resolveMethod_of_methods {name : String} {isStatic : Bool} {args : List Ty}
    {cs : List (Member F × Signature)} (hheight : 0 < source.height o)
    (hmethods : source.methods o name isStatic = .ok cs) (hne : t.applicables cs args ≠ []) :
    (∃ s, source.resolveMethod t o name isStatic args = .ok (.found s) ∧ s.owner = o ∧
      t.applicables cs args = [(s.member, s.signature, s.bindings)]) ∨
    (∃ a, source.resolveMethod t o name isStatic args = .ok (.ambiguous a)) ∧
      1 < (t.applicables cs args).length := by
  obtain ⟨n, hn⟩ := Nat.exists_eq_succ_of_ne_zero (Nat.ne_of_gt hheight)
  rw [resolveMethod, hn, methodFrom, hmethods]
  dsimp only
  cases happ : t.applicables cs args with
  | nil => exact absurd happ hne
  | cons first rest =>
    obtain ⟨member, signature, bindings⟩ := first
    cases rest with
    | nil => exact .inl ⟨_, rfl, rfl, rfl⟩
    | cons second rest => exact .inr ⟨⟨_, rfl⟩, by simp⟩

/--
A call of `main` without arguments, to a class with methods that can start a program, finds the only
one of them.
-/
theorem resolveMethod_main_iff {ms : List MethodDecl} {owner : String}
    {cs : List (Member F × Signature)} (hheight : 0 < source.height o)
    (hmethods : source.methods o "main" true = .ok cs)
    (happ : (t.applicables cs []).map Prod.fst =
      (ms.filter MethodDecl.isEntry).map (Member.ofMethod owner))
    (hany : ms.any MethodDecl.isEntry = true) {member : Member F} :
    (∃ s, source.resolveMethod t o "main" true [] = .ok (.found s) ∧ s.member = member) ↔
      ∃ m, ms.filter MethodDecl.isEntry = [m] ∧ member = .ofMethod owner m := by
  have hlength : (t.applicables cs []).length = (ms.filter MethodDecl.isEntry).length := by
    rw [← List.length_map, happ, List.length_map]
  have hne : t.applicables cs [] ≠ [] := by
    intro hnil
    obtain ⟨m, hm, hentry⟩ := List.any_eq_true.mp hany
    rw [hnil] at hlength
    exact absurd (List.mem_filter.mpr ⟨hm, hentry⟩)
      (by simp [List.length_eq_zero_iff.mp hlength.symm])
  rcases resolveMethod_of_methods hheight hmethods hne with ⟨s, hs, -, hone⟩ | ⟨⟨a, ha⟩, hmany⟩
  · rw [hone] at happ hlength
    obtain ⟨m, hm⟩ := List.length_eq_one_iff.mp hlength.symm
    rw [hm, List.map_singleton, List.map_singleton, List.singleton_inj] at happ
    rw [hs, hm]
    constructor
    · rintro ⟨s', heq, rfl⟩
      cases heq
      exact ⟨m, rfl, happ⟩
    · rintro ⟨m', heq, rfl⟩
      cases heq
      exact ⟨s, rfl, happ⟩
  · rw [ha]
    constructor
    · rintro ⟨s', heq, -⟩
      cases heq
    · rintro ⟨m, hm, -⟩
      rw [hlength, hm] at hmany
      exact absurd hmany (by simp)

end MemberSource

end Middleweight
