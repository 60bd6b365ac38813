import Mathlib.Data.List.Perm.Basic
import Middleweight.Proofs.ClassTable.Walk
import Middleweight.Proofs.Members.Agreement
import Middleweight.Proofs.Members.Selection

/-!
# Overloads, level by level

The levels of a class are the class, its base, and so on up to the root. Resolution of a method asks
level after level which of its overloads are applicable, and the first level that has any decides:
if it has one, that one is found, and if it has several, the call is ambiguous, for there is nothing
by which one overload would be preferred to another. So nothing depends on the order of overloads,
and classes without an applicable overload may as well be passed over.

* `MemberSource.Levels` : the levels of a class
* `MemberSource.methodFrom_eq_outcome` : resolution as a recursion on the list of levels
* `overloads_by_level` : what the levels decide
-/

namespace Middleweight

variable {F O : Type}

/-! ## Applicable members of a level -/

namespace ClassTable

variable {t : ClassTable F} {cs : List (Member F × Signature)} {args : List Ty}

/-- The members that are applicable, in order of declaration. -/
def fitting (t : ClassTable F) (cs : List (Member F × Signature)) (args : List Ty) :
    List (Member F × Signature) :=
  cs.filter fun c => (t.applicable c.2 args).isSome

theorem map_applicables (t : ClassTable F) (cs : List (Member F × Signature)) (args : List Ty) :
    (t.applicables cs args).map (fun c => (c.1, c.2.1)) = t.fitting cs args := by
  induction cs with
  | nil => rfl
  | cons c rest ih =>
    obtain ⟨m, s⟩ := c
    rw [applicables_cons, fitting, List.filter_cons, ← fitting, ← ih]
    cases t.applicable s args <;> rfl

theorem applicables_eq_nil (h : t.fitting cs args = []) : t.applicables cs args = [] :=
  List.map_eq_nil_iff.mp ((t.map_applicables cs args).trans h)

/-- The only applicable member comes with what the arguments bind. -/
theorem applicables_eq_singleton {m : Member F} {s : Signature}
    (h : t.fitting cs args = [(m, s)]) :
    ∃ b, t.applicable s args = some b ∧ t.applicables cs args = [(m, s, b)] := by
  obtain ⟨⟨m', s', b⟩, hc, heq⟩ :=
    List.map_eq_singleton_iff.mp ((t.map_applicables cs args).trans h)
  cases heq
  exact ⟨b, (from_of_applicables hc ()).2, hc⟩

theorem signatures_applicables (t : ClassTable F) (cs : List (Member F × Signature))
    (args : List Ty) :
    ((t.applicables cs args).map fun (_, s, _) => s) = (t.fitting cs args).map Prod.snd := by
  rw [← map_applicables, List.map_map]
  rfl

end ClassTable

namespace Resolution

/-- An outcome, had the call been made on a class of the given name. -/
def askedOf (className : String) : Resolution F O → Resolution F O
  | .missing m => .missing { m with className }
  | r => r

/-- Two outcomes that differ at most in the order in which the candidates of an ambiguity stand. -/
inductive Reordered : Resolution F O → Resolution F O → Prop
  | found (s : Selected F O) : Reordered (.found s) (.found s)
  | ambiguous {className member : String} {args : List Ty}
      {candidates candidates' : List Signature} :
      candidates.Perm candidates' →
        Reordered (.ambiguous ⟨className, member, args, candidates⟩)
          (.ambiguous ⟨className, member, args, candidates'⟩)
  | missing (m : Missing) : Reordered (.missing m) (.missing m)

end Resolution

namespace MemberSource

/-! ## Levels -/

/-- The levels of a class: the class itself, its base, and so on up to the root. -/
inductive Levels (source : MemberSource F O) : O → List O → Prop
  | root {o : O} : source.base o = .ok none → Levels source o [o]
  | step {o b : O} {levels : List O} :
      source.base o = .ok (some b) → Levels source b levels → Levels source o (o :: levels)

/--
Whether the bound on the number of classes from a class to its root is one, so that resolution is
never cut short.
-/
def Bounded (source : MemberSource F O) : Prop :=
  ∀ o levels, source.Levels o levels → levels.length ≤ source.height o

variable {source source' : MemberSource F O}

/-- The levels from a class further up are those that are left there. -/
theorem Levels.of_append {o above : O} {levels below rest : List O} (h : source.Levels o levels)
    (heq : levels = below ++ above :: rest) : source.Levels above (above :: rest) := by
  induction h generalizing below with
  | @root o hb =>
    cases below with
    | nil =>
      cases heq
      exact .root hb
    | cons _ _ => simp at heq
  | @step o b levels hb hlevels ih =>
    cases below with
    | nil =>
      cases heq
      exact .step hb hlevels
    | cons _ _ => exact ih (List.cons.inj heq).2

/-- Sources with the same bases have the same levels. -/
theorem Levels.congr {o : O} {levels : List O} (hbase : ∀ o, source'.base o = source.base o)
    (h : source.Levels o levels) : source'.Levels o levels := by
  induction h with
  | root hb => exact .root ((hbase _).trans hb)
  | step hb _ ih => exact .step ((hbase _).trans hb) ih

/-! ## The outcome that levels decide -/

section Outcome

variable (source : MemberSource F O) (t : ClassTable F) (asked name : String) (args : List Ty)
  (candidates : O → List (Member F × Signature))

/-- What some levels decide; `asked` is the class to be named when there is no applicable member. -/
def outcome : List O → Resolution F O
  | [] => .missing ⟨asked, name, args⟩
  | o :: rest =>
    match t.applicables (candidates o) args with
    | [(m, s, b)] => .found ⟨o, m, s, b⟩
    | [] => outcome rest
    | several => .ambiguous ⟨source.ownerName o, name, args, several.map fun (_, s, _) => s⟩

variable {source t asked name args candidates}

/-- With room for all levels, resolution gives what they decide. -/
theorem methodFrom_eq_outcome {start : O} {isStatic : Bool} {o : O} {levels : List O}
    (h : source.Levels o levels)
    (hmethods : ∀ l ∈ levels, source.methods l name isStatic = .ok (candidates l)) {fuel : Nat}
    (hroom : levels.length ≤ fuel) :
    source.methodFrom t start name isStatic args fuel o =
      .ok (source.outcome t (source.ownerName start) name args candidates levels) := by
  induction h generalizing fuel with
  | @root o hb =>
    obtain ⟨fuel, rfl⟩ := Nat.exists_eq_add_of_le' hroom
    rw [List.length_singleton, methodFrom, outcome, hmethods o List.mem_cons_self]
    rcases happ : t.applicables (candidates o) args with _ | ⟨⟨m, s, b⟩, _ | ⟨c, more⟩⟩
    · simp only [happ, hb, outcome]
    · simp only [happ]
    · simp only [happ]
  | @step o b levels hb hlevels ih =>
    obtain ⟨fuel, rfl⟩ := Nat.exists_eq_add_of_le' (Nat.le_trans (Nat.le_add_left 1 _) hroom)
    rw [methodFrom, outcome, hmethods o List.mem_cons_self]
    rcases happ : t.applicables (candidates o) args with _ | ⟨⟨m, s, b⟩, _ | ⟨c, more⟩⟩
    · simp only [happ, hb]
      exact ih (fun l hl => hmethods l (List.mem_cons_of_mem o hl)) (Nat.le_of_succ_le_succ hroom)
    · simp only [happ]
    · simp only [happ]

/-- Levels without an applicable member may be passed over. -/
theorem outcome_append {below rest : List O}
    (h : ∀ l ∈ below, t.fitting (candidates l) args = []) :
    source.outcome t asked name args candidates (below ++ rest) =
      source.outcome t asked name args candidates rest := by
  induction below with
  | nil => rfl
  | cons o below ih =>
    rw [List.cons_append, outcome, ClassTable.applicables_eq_nil (h o List.mem_cons_self)]
    exact ih fun l hl => h l (List.mem_cons_of_mem o hl)

theorem outcome_found {o : O} {rest : List O} {m : Member F} {s : Signature}
    (h : t.fitting (candidates o) args = [(m, s)]) :
    ∃ b, t.applicable s args = some b ∧
      source.outcome t asked name args candidates (o :: rest) = .found ⟨o, m, s, b⟩ := by
  obtain ⟨b, happ, hone⟩ := ClassTable.applicables_eq_singleton h
  exact ⟨b, happ, by rw [outcome, hone]⟩

theorem outcome_ambiguous {o : O} {rest : List O}
    (h : 1 < (t.fitting (candidates o) args).length) :
    source.outcome t asked name args candidates (o :: rest) =
      .ambiguous ⟨source.ownerName o, name, args,
        (t.fitting (candidates o) args).map Prod.snd⟩ := by
  rw [← ClassTable.map_applicables, List.length_map] at h
  rw [← ClassTable.signatures_applicables, outcome]
  split
  · next hone => simp [hone] at h
  · next hnone => simp [hnone] at h
  · rfl

/-- The class that was asked is named only when nothing is applicable. -/
theorem outcome_askedOf (asked asked' : String) (levels : List O) :
    source.outcome t asked' name args candidates levels =
      (source.outcome t asked name args candidates levels).askedOf asked' := by
  induction levels with
  | nil => rfl
  | cons o rest ih =>
    rw [outcome, outcome]
    rcases t.applicables (candidates o) args with _ | ⟨⟨m, s, b⟩, _ | ⟨c, more⟩⟩
    · exact ih
    · rfl
    · rfl

/-- The order of overloads does not matter, but for the order in which an ambiguity lists them. -/
theorem outcome_reordered {t' : ClassTable F} {candidates' : O → List (Member F × Signature)}
    (hname : ∀ o, source'.ownerName o = source.ownerName o) (ht : t.SameApplicability t')
    {levels : List O} (hperm : ∀ l ∈ levels, (candidates l).Perm (candidates' l)) :
    (source.outcome t asked name args candidates levels).Reordered
      (source'.outcome t' asked name args candidates' levels) := by
  induction levels with
  | nil => exact .missing _
  | cons o rest ih =>
    have hrest := ih fun l hl => hperm l (List.mem_cons_of_mem o hl)
    have happ : (t.applicables (candidates o) args).Perm (t'.applicables (candidates' o) args) := by
      rw [ClassTable.applicables_congr ht]
      exact (hperm o List.mem_cons_self).filterMap _
    rw [outcome, outcome, hname]
    rcases hone : t.applicables (candidates o) args with _ | ⟨⟨m, s, b⟩, _ | ⟨c, more⟩⟩
    · rw [hone, List.nil_perm] at happ
      rw [happ]
      exact hrest
    · rw [hone, List.singleton_perm] at happ
      rw [← happ]
      exact .found _
    · rw [hone] at happ
      have hlength := happ.length_eq
      rcases hseveral : t'.applicables (candidates' o) args with _ | ⟨⟨m', s', b'⟩, _ | ⟨c', more'⟩⟩
      · rw [hseveral] at hlength
        cases hlength
      · rw [hseveral] at hlength
        cases hlength
      · rw [hseveral] at happ
        exact .ambiguous (happ.map _)

end Outcome

/--
Whether another source has the same classes with the same bases, and their overloads in some order;
the tables for which they decide may differ if the same signatures are applicable.
-/
structure Reorders (source : MemberSource F O) (t : ClassTable F) (source' : MemberSource F O)
    (t' : ClassTable F) : Prop where
  ownerName : ∀ o, source'.ownerName o = source.ownerName o
  base : ∀ o, source'.base o = source.base o
  methods : ∀ o name isStatic cs, source.methods o name isStatic = .ok cs →
    ∃ cs', source'.methods o name isStatic = .ok cs' ∧ cs.Perm cs'
  applicable : t.SameApplicability t'

section Resolve

variable {source source' : MemberSource F O} {t t' : ClassTable F} {name : String} {isStatic : Bool}
  {args : List Ty} {candidates : O → List (Member F × Signature)}

theorem resolveMethod_eq_outcome (hsource : source.Bounded) {owner : O} {levels : List O}
    (hlevels : source.Levels owner levels)
    (hmethods : ∀ o ∈ levels, source.methods o name isStatic = .ok (candidates o)) :
    source.resolveMethod t owner name isStatic args =
      .ok (source.outcome t (source.ownerName owner) name args candidates levels) :=
  methodFrom_eq_outcome hlevels hmethods (hsource owner levels hlevels)

/-- Where overloads stand in another order, every level has the same ones. -/
theorem Reorders.exists_candidates (h : source.Reorders t source' t') {levels : List O}
    (hmethods : ∀ o ∈ levels, source.methods o name isStatic = .ok (candidates o)) :
    ∃ candidates' : O → List (Member F × Signature), ∀ o ∈ levels,
      source'.methods o name isStatic = .ok (candidates' o) ∧
        (candidates o).Perm (candidates' o) := by
  refine ⟨fun o => (source'.methods o name isStatic).toOption.getD [], fun o ho => ?_⟩
  obtain ⟨cs, hcs, hperm⟩ := h.methods o name isStatic _ (hmethods o ho)
  dsimp only
  rw [hcs]
  exact ⟨rfl, hperm⟩

end Resolve

end MemberSource

/-! ## The two sources -/

namespace ClassTable

variable {t : ClassTable F}

/-- The levels of a class type are the classes that its name climbs. -/
theorem climbs_of_levels {o : ClassTy} {levels : List ClassTy}
    (h : t.staticMembers.Levels o levels) : t.Climbs o.name levels.length := by
  induction h with
  | @root o hb =>
    obtain ⟨c, hc, hbase⟩ := ok_of_map hb
    exact .root (template_ok_iff.mp hc) (Option.map_eq_none_iff.mp hbase)
  | @step o b levels hb _ ih =>
    obtain ⟨c, hc, hbase⟩ := ok_of_map hb
    obtain ⟨base, hcbase, rfl⟩ := Option.map_eq_some_iff.mp hbase
    exact .step (template_ok_iff.mp hc) hcbase ih

theorem bounded_staticMembers (t : ClassTable F) : t.staticMembers.Bounded :=
  fun _ _ h => Nat.le_of_lt (climbs_of_levels h).lt_height

theorem bounded_runtimeMembers (t : ClassTable F) : t.runtimeMembers.Bounded := by
  intro o levels h
  show levels.length ≤ o.ancestors.length + 1
  induction h with
  | root _ => exact Nat.le_add_left 1 _
  | @step o b levels hb _ ih =>
    have hbase : o.base? = some b := Except.ok.inj hb
    obtain ⟨isStaticView, own, ancestors⟩ := o
    cases ancestors with
    | nil => cases hbase
    | cons layer rest =>
      cases hbase
      exact Nat.succ_le_succ ih

end ClassTable

/-! ## Classes with their overloads in another order -/

/-- Whether one class is another one with its methods in some order. -/
structure Template.Reorders (c c' : Template F) : Prop where
  generics : c'.generics = c.generics
  base : c'.base = c.base
  methods : c.methods.Perm c'.methods

/-- Whether a table has the classes of another one, each with its methods in some order. -/
structure ClassTable.Reorders (t t' : ClassTable F) : Prop where
  imports : t'.imports = t.imports
  get? : ∀ name, Option.Rel Template.Reorders (t.get? name) (t'.get? name)
  height : t'.height = t.height

namespace ClassTable

variable {t t' : ClassTable F}

theorem lowerParams_congr (h : t'.lowering = t.lowering) (params : TypeParams)
    (ps : List (String × TypeExpr)) : t'.lowerParams params ps = t.lowerParams params ps := by
  induction ps with
  | nil => rfl
  | cons p rest ih =>
    obtain ⟨name, e⟩ := p
    rw [lowerParams, lowerParams, lower, h, ← lower, ih]

theorem signature_congr (h : t'.lowering = t.lowering) (m : Member F) (params : TypeParams) :
    t'.signature m params = t.signature m params := by
  unfold signature lower
  simp only [lowerParams_congr h, h]

theorem signatures_of_perm (h : t'.lowering = t.lowering) {params : TypeParams}
    {ms ms' : List (Member F)} {cs : List (Member F × Signature)}
    (hcs : t.signatures params ms = .ok cs) (hperm : ms.Perm ms') :
    ∃ cs', t'.signatures params ms' = .ok cs' ∧ cs.Perm cs' := by
  obtain ⟨cs', hcs', hperm'⟩ := List.perm_comp_forall₂ hperm.symm (signatures_ok_iff.mp hcs)
  refine ⟨cs', signatures_ok_iff.mpr (hcs'.imp fun m c hc => ?_), hperm'.symm⟩
  rw [signature_congr h]
  exact hc

namespace Reorders

variable (h : t.Reorders t')

include h

theorem lowering : t'.lowering = t.lowering := by
  unfold ClassTable.lowering
  rw [h.imports]
  congr 1
  funext name
  unfold arity?
  rcases rel_elim (h.get? name) with ⟨h1, h2⟩ | ⟨c, c', h1, h2, hc⟩
  · rw [h1, h2]
  · rw [h1, h2, Option.map_some, Option.map_some, hc.generics]

theorem ancestors (name : String) : t'.ancestors name = t.ancestors name := by
  refine ancestors_congr (fun name => ?_) h.height name
  unfold baseName?
  rcases rel_elim (h.get? name) with ⟨h1, h2⟩ | ⟨c, c', h1, h2, hc⟩
  · rw [h1, h2]
  · rw [h1, h2, Option.bind_some, Option.bind_some, hc.base]

/-- A table with overloads in another order gives a source with overloads in another order. -/
theorem staticMembers : t.staticMembers.Reorders t t'.staticMembers t' where
  ownerName _ := rfl
  base o := by
    show t'.baseOf o = t.baseOf o
    unfold baseOf template
    rcases rel_elim (h.get? o.name) with ⟨h1, h2⟩ | ⟨c, c', h1, h2, hc⟩
    · rw [h1, h2]
    · rw [h1, h2]
      simp only [Except.map, hc.base, hc.generics]
  methods o name isStatic cs hcs := by
    simp only [ClassTable.staticMembers, template] at hcs ⊢
    rcases rel_elim (h.get? o.name) with ⟨h1, h2⟩ | ⟨c, c', h1, h2, hc⟩
    · simp [h1] at hcs
    · simp only [h1] at hcs
      simp only [h2, paramsFor, hc.generics]
      exact signatures_of_perm h.lowering hcs (hc.methods.filter _)
  applicable := sameApplicability_of_ancestors_eq h.ancestors

end Reorders

end ClassTable

/-! ## Resolution -/

/--
Resolution of a method, where bases and methods of all levels of a class can be told. If no member
of the levels `below` is applicable and the level `o` after them has applicable members, then

* a single one is found, with the level and with what the arguments bind,
* several make the call ambiguous, and the ambiguity names the level and lists them in order of
  declaration,

and in any case the call has the outcome that it has on `o`, but that it names its own class when
nothing is applicable. So it does when there is nothing applicable on any level. Whoever declares
the same overloads in another order gets the same outcome, the same member included.
-/
theorem overloads_by_level (source : MemberSource F O) (hsource : source.Bounded)
    (t : ClassTable F) (owner : O) (name : String) (isStatic : Bool) (args : List Ty)
    (levels : List O) (hlevels : source.Levels owner levels)
    (candidates : O → List (Member F × Signature))
    (hmethods : ∀ o ∈ levels, source.methods o name isStatic = .ok (candidates o)) :
    (∀ below o above, levels = below ++ o :: above →
      (∀ l ∈ below, t.fitting (candidates l) args = []) →
      (∀ m s, t.fitting (candidates o) args = [(m, s)] → ∃ b, t.applicable s args = some b ∧
        source.resolveMethod t owner name isStatic args = .ok (.found ⟨o, m, s, b⟩)) ∧
      (1 < (t.fitting (candidates o) args).length →
        source.resolveMethod t owner name isStatic args = .ok (.ambiguous
          ⟨source.ownerName o, name, args, (t.fitting (candidates o) args).map Prod.snd⟩)) ∧
      source.resolveMethod t owner name isStatic args =
        (source.resolveMethod t o name isStatic args).map
          (Resolution.askedOf (source.ownerName owner))) ∧
    ((∀ o ∈ levels, t.fitting (candidates o) args = []) →
      source.resolveMethod t owner name isStatic args =
        .ok (.missing ⟨source.ownerName owner, name, args⟩)) ∧
    ∀ (source' : MemberSource F O) (t' : ClassTable F), source'.Bounded →
      source.Reorders t source' t' →
      ∃ r r', source.resolveMethod t owner name isStatic args = .ok r ∧
        source'.resolveMethod t' owner name isStatic args = .ok r' ∧ r.Reordered r' := by
  have hresolve : source.resolveMethod t owner name isStatic args =
      .ok (source.outcome t (source.ownerName owner) name args candidates levels) :=
    MemberSource.resolveMethod_eq_outcome hsource hlevels hmethods
  refine ⟨?_, ?_, ?_⟩
  · rintro below o above rfl hbelow
    rw [MemberSource.outcome_append hbelow] at hresolve
    refine ⟨fun m s hone => ?_, fun hseveral => ?_, ?_⟩
    · obtain ⟨b, happ, hfound⟩ := MemberSource.outcome_found hone
      exact ⟨b, happ, by rw [hresolve, hfound]⟩
    · rw [hresolve, MemberSource.outcome_ambiguous hseveral]
    · have habove := hlevels.of_append rfl
      have hmethods' := fun l hl => hmethods l (List.mem_append_right below hl)
      rw [hresolve, MemberSource.resolveMethod_eq_outcome hsource habove hmethods',
        MemberSource.outcome_askedOf (source.ownerName o) (source.ownerName owner)]
      rfl
  · intro hnone
    rw [hresolve, ← List.append_nil levels, MemberSource.outcome_append hnone]
    rfl
  · intro source' t' hsource' h
    obtain ⟨candidates', hcandidates⟩ := h.exists_candidates hmethods
    refine ⟨_, _, hresolve, MemberSource.resolveMethod_eq_outcome hsource'
      (hlevels.congr h.base) fun o ho => (hcandidates o ho).1, ?_⟩
    rw [h.ownerName]
    exact MemberSource.outcome_reordered h.ownerName h.applicable fun o ho => (hcandidates o ho).2

/-- Animals meet objects and animals, and dogs meet cats besides. -/
def petTable : ClassTable Unit where
  classes :=
    [template "Object" none [], template "Animal" (some ⟨"Object", []⟩) ["Object", "Animal"],
      template "Cat" (some ⟨"Animal", []⟩) [], template "Dog" (some ⟨"Animal", []⟩) ["Cat"]]
  imports := ⟨[("Object", "Object"), ("Animal", "Animal"), ("Cat", "Cat")]⟩
  natives := {}
where
  method (owner whom : String) : Member Unit :=
    { owner, name := "meet", isStatic := false, isConstructor := false, generics := [],
      params := [("whom", ⟨whom, [], {}⟩)], returnType := none, body := .native (), span := {} }
  template (name : String) (base : Option ClassTy) (whom : List String) : Template Unit :=
    { name, generics := [], base, fields := [], constructors := [],
      methods := whom.map (method name), origin := .declared, span := {} }

/-- The overloads of a class of the table, with their signatures. -/
def petMethods (c : ClassTy) : List (Member Unit × Signature) :=
  match c.name with
  | "Animal" => [overload c "Object", overload c "Animal"]
  | "Dog" => [overload c "Cat"]
  | _ => []
where
  overload (c : ClassTy) (whom : String) : Member Unit × Signature :=
    (petTable.method c.name whom, ⟨"meet", false, [], [⟨"whom", .named whom⟩], none⟩)

/-- A dog meets a cat as a dog, an animal as one of two things, and nobody not at all. -/
theorem overloads_by_level_pets :
    (∃ b, petTable.staticMembers.resolveMethod petTable ⟨"Dog", []⟩ "meet" false [.named "Cat"] =
      .ok (.found ⟨⟨"Dog", []⟩, petTable.method "Dog" "Cat",
        ⟨"meet", false, [], [⟨"whom", .named "Cat"⟩], none⟩, b⟩)) ∧
    petTable.staticMembers.resolveMethod petTable ⟨"Dog", []⟩ "meet" false [.named "Animal"] =
      .ok (.ambiguous ⟨"Animal", "meet", [.named "Animal"],
        [⟨"meet", false, [], [⟨"whom", .named "Object"⟩], none⟩,
          ⟨"meet", false, [], [⟨"whom", .named "Animal"⟩], none⟩]⟩) ∧
    petTable.staticMembers.resolveMethod petTable ⟨"Dog", []⟩ "meet" false [] =
      .ok (.missing ⟨"Dog", "meet", []⟩) := by
  have hlevels : petTable.staticMembers.Levels ⟨"Dog", []⟩
      [⟨"Dog", []⟩, ⟨"Animal", []⟩, ⟨"Object", []⟩] := .step rfl (.step rfl (.root rfl))
  have hmethods : ∀ o ∈ [⟨"Dog", []⟩, ⟨"Animal", []⟩, ⟨"Object", []⟩],
      petTable.staticMembers.methods o "meet" false = .ok (petMethods o) := by
    intro o ho
    simp only [List.mem_cons, List.not_mem_nil, or_false] at ho
    rcases ho with rfl | rfl | rfl <;> rfl
  have hresolve (args : List Ty) := overloads_by_level petTable.staticMembers
    petTable.bounded_staticMembers petTable ⟨"Dog", []⟩ "meet" false args _ hlevels petMethods
    hmethods
  refine ⟨?_, ?_, ?_⟩
  · obtain ⟨b, -, hfound⟩ := ((hresolve [.named "Cat"]).1 [] _ _ rfl
      (fun l hl => absurd hl List.not_mem_nil)).1 _ _ rfl
    exact ⟨b, hfound⟩
  · exact ((hresolve [.named "Animal"]).1 [⟨"Dog", []⟩] ⟨"Animal", []⟩ _ rfl
      (List.forall_mem_singleton.mpr rfl)).2.1 (by decide)
  · refine (hresolve []).2.1 fun o ho => ?_
    simp only [List.mem_cons, List.not_mem_nil, or_false] at ho
    rcases ho with rfl | rfl | rfl <;> rfl

end Middleweight
