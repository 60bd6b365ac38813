import Middleweight.Members.Source
import Middleweight.Proofs.ClassTable.Rooted
import Middleweight.Proofs.ClassTable.Subtype
import Middleweight.Proofs.Members.Selection

/-!
# Arguments that fit alike

Two types fit alike when they fit the same types. A member whose parameters are ground is applicable
to arguments that fit alike or to none of them, and binds nothing; so the same member is chosen for
them.

* `ClassTable.applicable_eq_of_sameFit` : applicability looks at nothing but what arguments fit
* `MemberSource.methodFrom_of_sameFit` : resolution does not either
-/

namespace Middleweight

/-! ## Ground formal types bind nothing -/

mutual

/-- A formal type without parameters binds nothing. -/
theorem Bindings.fill_of_isGround : ∀ {formal : Ty} (actual : Ty), formal.IsGround →
    Bindings.fill formal actual = []
  | .cls n formals, actual, h => by
    rw [Bindings.fill]
    split
    · exact Bindings.fillAll_of_allGround _ (Ty.isGround_cls.mp h)
    · rfl
  | .unbound _, _, h => absurd h (by simp [Ty.IsGround])
  | .bound _ _, _, h => absurd h (by simp [Ty.IsGround])

theorem Bindings.fillAll_of_allGround : ∀ {formals : List Ty} (actuals : List Ty),
    Ty.AllGround formals → Bindings.fillAll formals actuals = []
  | [], actuals, _ => by rw [Bindings.fillAll]; simp
  | _ :: _, [], _ => by rw [Bindings.fillAll]; simp
  | formal :: formals, actual :: actuals, h => by
    obtain ⟨hf, hfs⟩ := Ty.allGround_cons.mp h
    rw [Bindings.fillAll, Bindings.fill_of_isGround actual hf,
      Bindings.fillAll_of_allGround actuals hfs]
    rfl

end

theorem Bindings.infer_of_allGround {formals : List Ty} (actuals : List Ty)
    (h : Ty.AllGround formals) : Bindings.infer formals actuals = [] := by
  rw [Bindings.infer, Bindings.fillAll_of_allGround actuals h]
  rfl

namespace ClassTable

variable {F : Type} {t : ClassTable F}

/-! ## Types that fit alike -/

/-- Two types that fit the same types. -/
def SameFit (t : ClassTable F) (a b : Ty) : Prop := ∀ target : Ty, t.check a target = t.check b target

theorem SameFit.refl (a : Ty) : t.SameFit a a := fun _ => rfl

/-- Lists of types that fit alike fit the same lists of targets. -/
theorem checkAll_eq_of_sameFit {as bs : List Ty} (h : List.Forall₂ t.SameFit as bs) :
    ∀ targets : List Ty, t.checkAll as targets = t.checkAll bs targets := by
  induction h with
  | nil => exact fun _ => rfl
  | cons hab _ ih =>
    intro targets
    cases targets with
    | nil => simp [checkAll]
    | cons target targets => rw [checkAll, checkAll, hab target, ih targets]

/-- A signature with ground parameters binds nothing. -/
theorem applicable_of_allGround {s : Signature} (h : Ty.AllGround s.paramTypes) (args : List Ty) :
    t.applicable s args =
      if s.paramTypes.length = args.length && t.checkAll args s.paramTypes then some [] else none := by
  unfold applicable
  dsimp only
  rw [Bindings.infer_of_allGround args h, Ty.substituteAll_of_allGround [] h]
  split
  · next hfits =>
    rw [Bool.and_eq_true] at hfits
    rw [if_pos hfits.2]
  · rfl

/-- A signature without parameters is applicable to arguments that fit alike, or to neither. -/
theorem applicable_eq_of_sameFit {s : Signature} (h : Ty.AllGround s.paramTypes)
    {args args' : List Ty} (hargs : List.Forall₂ t.SameFit args args') :
    t.applicable s args = t.applicable s args' := by
  rw [applicable_of_allGround h, applicable_of_allGround h, hargs.length_eq,
    checkAll_eq_of_sameFit hargs]

/-- Arguments that fit as a list fit one by one. -/
theorem forall₂_of_checkAll : ∀ {args : List Ty} {qs : List Param}, qs.length = args.length →
    t.checkAll args (qs.map Param.ty) = true →
    List.Forall₂ (fun arg q => t.check arg q.ty = true) args qs
  | [], [], _, _ => .nil
  | [], _ :: _, hlen, _ => by cases hlen
  | _ :: _, [], hlen, _ => by cases hlen
  | arg :: args, q :: qs, hlen, hall => by
    rw [List.map_cons, checkAll, Bool.and_eq_true] at hall
    exact .cons hall.1 (forall₂_of_checkAll (by simpa using hlen) hall.2)

/-- The arguments to which a signature with ground parameters is applicable fit its parameters. -/
theorem forall₂_of_applicable {s : Signature} (h : Ty.AllGround s.paramTypes) {args : List Ty}
    {b : Bindings} (happ : t.applicable s args = some b) :
    b = [] ∧ List.Forall₂ (fun arg q => t.check arg q.ty = true) args s.params := by
  rw [applicable_of_allGround h] at happ
  split at happ
  · next hfits =>
    cases happ
    rw [Bool.and_eq_true] at hfits
    obtain ⟨hlen, hall⟩ := hfits
    exact ⟨rfl, forall₂_of_checkAll (by simpa [Signature.paramTypes] using hlen) hall⟩
  · cases happ

/-- All signatures among some members have ground parameters. -/
def GroundSignatures (cs : List (Member F × Signature)) : Prop :=
  ∀ c ∈ cs, Ty.AllGround c.2.paramTypes

/-- So the same signatures are applicable to arguments that fit alike. -/
theorem applicables_eq_of_sameFit {cs : List (Member F × Signature)} (h : GroundSignatures cs)
    {args args' : List Ty} (hargs : List.Forall₂ t.SameFit args args') :
    t.applicables cs args = t.applicables cs args' := by
  unfold applicables
  refine List.filterMap_congr fun c hc => ?_
  obtain ⟨m, s⟩ := c
  dsimp only
  rw [applicable_eq_of_sameFit (h (m, s) hc) hargs]

end ClassTable

/-! ## Resolution -/

/--
Arguments that fit alike choose the same method, where the signatures of all classes on the way are
ground; and it belongs to one of these classes.
-/
theorem MemberSource.methodFrom_of_sameFit {F O : Type} {t : ClassTable F}
    {src : MemberSource F O} {name : String} {isStatic : Bool} {I : O → Prop}
    (hbase : ∀ o b, I o → src.base o = .ok (some b) → I b)
    (hground : ∀ o cs, I o → src.methods o name isStatic = .ok cs →
      ClassTable.GroundSignatures cs)
    {args args' : List Ty} (hargs : List.Forall₂ t.SameFit args' args) {start : O}
    {s : Selected F O} : ∀ {fuel : Nat} {o : O}, I o →
    src.methodFrom t start name isStatic args fuel o = .ok (.found s) →
    I s.owner ∧ src.methodFrom t start name isStatic args' fuel o = .ok (.found s) := by
  intro fuel
  induction fuel with
  | zero => intro o _ h; cases h
  | succ fuel ih =>
    intro o ho h
    rw [methodFrom] at h ⊢
    cases hcs : src.methods o name isStatic with
    | error e => simp [hcs] at h
    | ok cs =>
      simp only [hcs] at h ⊢
      rw [ClassTable.applicables_eq_of_sameFit (hground o cs ho hcs) hargs]
      split at h
      · cases h
        exact ⟨ho, rfl⟩
      · cases hb : src.base o with
        | error e => simp [hb] at h
        | ok base =>
          cases base with
          | none => simp [hb] at h
          | some b =>
            simp only [hb] at h
            exact ih (hbase o b ho hb) h
      · cases h

/-! ## Signatures where no parameter is in scope -/

namespace ClassTable

variable {F : Type} {t : ClassTable F}

/-- A member that is not generic sees no parameters if it is static or its class has none. -/
theorem memberParams_eq_nil {m : Member F} {params : TypeParams} (hg : m.generics = [])
    (hs : m.isStatic = true ∨ params = []) : memberParams m params = [] := by
  unfold memberParams
  rw [hg]
  rcases hs with hs | rfl
  · rw [if_pos hs]
    rfl
  · split <;> rfl

/-- Parameters are lowered one by one and keep their names. -/
theorem lowerParams_ok {params : TypeParams} : ∀ {es : List (String × TypeExpr)}
    {ps : List Param}, t.lowerParams params es = .ok ps →
    List.Forall₂ (fun e q => q.name = e.1 ∧ t.lower params e.2 = .ok q.ty) es ps := by
  intro es
  induction es with
  | nil =>
    intro ps h
    cases h
    exact .nil
  | cons e rest ih =>
    intro ps h
    obtain ⟨name, ty⟩ := e
    rw [lowerParams] at h
    split at h
    · cases h
    · next lowered hlowered =>
      split at h
      · cases h
      · next rest' hrest =>
        cases h
        exact .cons ⟨rfl, hlowered⟩ (ih hrest)

/-- The parts of a signature are the lowered parts of its member. -/
theorem signature_lowers {m : Member F} {params : TypeParams} {s : Signature}
    (h : t.signature m params = .ok s) :
    List.Forall₂ (fun e q => q.name = e.1 ∧ t.lower (memberParams m params) e.2 = .ok q.ty)
        m.params s.params ∧
      Option.Rel (fun e ty => t.lower (memberParams m params) e = .ok ty) m.returnType
        s.returnType := by
  rw [signature] at h
  split at h
  · cases h
  · next ps hps =>
    have hparams := lowerParams_ok hps
    split at h
    · next hr =>
      cases h
      rw [hr]
      exact ⟨hparams, .none⟩
    · next e he =>
      split at h
      · cases h
      · next ty hty =>
        cases h
        rw [he]
        exact ⟨hparams, .some hty⟩

/-- A signature has the parameters its member declares. -/
theorem paramNames_of_signature {m : Member F} {params : TypeParams} {s : Signature}
    (h : t.signature m params = .ok s) : s.params.map Param.name = m.params.map Prod.fst := by
  have hrel := (signature_lowers h).1
  generalize m.params = es, s.params = qs at hrel
  induction hrel with
  | nil => rfl
  | cons hq _ ih => rw [List.map_cons, List.map_cons, ih, hq.1]

theorem lowerParams_of_forall₂ {params : TypeParams} {es : List (String × TypeExpr)}
    {qs : List Param}
    (h : List.Forall₂ (fun e q => q.name = e.1 ∧ t.lower params e.2 = .ok q.ty) es qs) :
    t.lowerParams params es = .ok qs := by
  induction h with
  | nil => rfl
  | @cons e q _ _ hq _ ih =>
    obtain ⟨name, ty⟩ := q
    obtain ⟨rfl, hlower⟩ := hq
    rw [lowerParams, hlower, ih]

/-- A member whose parts lower has a signature of the lowered parts. -/
theorem signature_of_lowers {m : Member F} {params : TypeParams} {qs : List Param}
    {ty? : Option Ty}
    (hp : List.Forall₂ (fun e q => q.name = e.1 ∧
      t.lower (memberParams m params) e.2 = .ok q.ty) m.params qs)
    (hr : Option.Rel (fun e ty => t.lower (memberParams m params) e = .ok ty) m.returnType ty?) :
    t.signature m params = .ok ⟨m.name, m.isStatic, m.generics, qs, ty?⟩ := by
  rw [signature, lowerParams_of_forall₂ hp]
  rcases rel_elim hr with ⟨hnone, rfl⟩ | ⟨e, ty, hsome, rfl, hlower⟩
  · rw [hnone]
  · simp only [hsome, hlower]

/-- Where no parameter is in scope, the types of a signature are known. -/
theorem knows_signature {m : Member F} {params : TypeParams} {s : Signature}
    (h : t.signature m params = .ok s) (hp : memberParams m params = []) :
    (∀ q ∈ s.params, t.Knows q.ty) ∧ ∀ ty ∈ s.returnType, t.Knows ty := by
  obtain ⟨hparams, hreturn⟩ := signature_lowers h
  rw [hp] at hparams hreturn
  constructor
  · intro q hq
    obtain ⟨e, -, -, hlower⟩ := exists_of_forall₂_mem hparams hq
    exact knows_of_lower hlower
  · intro ty hty
    rcases rel_elim hreturn with ⟨-, hnone⟩ | ⟨e, ty', -, hsome, hlower⟩
    · rw [hnone] at hty
      cases hty
    · rw [hsome] at hty
      cases hty
      exact knows_of_lower hlower

/-- A member without parameters in scope has a ground signature. -/
theorem allGround_signature {m : Member F} {params : TypeParams} {s : Signature}
    (h : t.signature m params = .ok s) (hp : memberParams m params = []) :
    Ty.AllGround s.paramTypes := by
  rw [Ty.allGround_iff]
  intro ty hty
  obtain ⟨q, hq, rfl⟩ := List.mem_map.mp hty
  exact ((knows_signature h hp).1 q hq).isGround

end ClassTable

end Middleweight
