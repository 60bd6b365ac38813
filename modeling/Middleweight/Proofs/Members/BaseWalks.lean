import Middleweight.Analysis.TypeCheck
import Middleweight.Proofs.ClassTable.Hierarchy
import Middleweight.Proofs.Registry.Sessions

/-!
# Which walks along bases end

Classes, methods and fields are looked for along bases without asking whether they lead back: that is
left to the check for cycles when the table is built. The check starts from declared classes only. So
bases end from every declared class, and from every class whatever exactly if no native class is above
itself. Where they end, no walk is given up.

* `Bases.Ends` : following bases comes to an end
* `ClassTable.ends_iff` : bases end unless native classes are above themselves
* `ClassTable.EndsWalks` : the walks that start at a class
* `base_walks_end` : which walks end in the table of a program
* `native_ring_endless` : a table with walks that do not
-/

namespace Middleweight

variable {F : Type}

/-- Following bases from a name comes, after some steps, to a name without a base. -/
def Bases.Ends (base : Bases) (a : String) : Prop :=
  ∃ b, Relation.ReflTransGen base.Step a b ∧ base b = none

/-- Following bases from a name comes back to it. -/
def Bases.AboveItself (base : Bases) (a : String) : Prop := Relation.TransGen base.Step a a

namespace Bases

variable {base : Bases} {a b : String}

theorem ends_iff_ascends : base.Ends a ↔ ∃ l, base.Ascends a l := by
  constructor
  · rintro ⟨b, hab, hb⟩
    induction hab using Relation.ReflTransGen.head_induction_on with
    | refl => exact ⟨[b], .last hb⟩
    | head hstep _ ih =>
      obtain ⟨l, hl⟩ := ih
      exact ⟨_, .step hstep hl⟩
  · rintro ⟨l, hl⟩
    induction hl with
    | last ha => exact ⟨_, .refl, ha⟩
    | step ha _ ih =>
      obtain ⟨b, hreach, hb⟩ := ih
      exact ⟨b, .head ha hreach, hb⟩

/-- What is above itself stays so one step further. -/
theorem AboveItself.step (h : base.AboveItself a) (hstep : base a = some b) :
    base.AboveItself b := by
  obtain ⟨c, hac, hca⟩ := Relation.TransGen.head'_iff.mp h
  cases hac.symm.trans hstep
  exact .tail' hca hstep

theorem AboveItself.not_ends (h : base.AboveItself a) : ¬ base.Ends a := by
  intro hends
  obtain ⟨l, hl⟩ := ends_iff_ascends.mp hends
  exact hl.not_revisits ⟨a, .refl, h⟩

end Bases

namespace ClassTable

open Bases

variable {p : Program} {natives : NativeRegistry F} {t : ClassTable F}

/-! ## Bases that end -/

theorem ends_of_declared (h : build p natives = .ok t) {d : ClassDecl} (hd : d ∈ p.classes) :
    Ends t.baseName? d.name.name :=
  ends_iff_ascends.mpr (ascends_of_declared h hd)

/-- A class above itself is native, or it is a primitive and extends the root class. -/
theorem native_or_primitive_of_aboveItself (h : build p natives = .ok t) {a : String}
    (ha : AboveItself t.baseName? a) :
    (∃ n ∈ natives.classes, n.fullName = a) ∨
      ∃ q : Primitive, q.name = a ∧ t.baseName? a = some Ty.objectName := by
  obtain ⟨b, hstep, -⟩ := Relation.TransGen.head'_iff.mp ha
  obtain ⟨base, hbase, rfl⟩ := Option.map_eq_some_iff.mp hstep
  obtain ⟨c, hc, hcb⟩ := Option.bind_eq_some_iff.mp hbase
  have hname := get?_name hc
  rcases mem_classes_cases h (get?_mem hc) with ⟨q, rfl⟩ | ⟨n, hn, hmade⟩ | ⟨d, hd, hmade⟩
  · cases hcb
    exact .inr ⟨q, hname, hstep⟩
  · rw [name_nativeTemplate n c hmade] at hname
    exact .inl ⟨n, hn, hname⟩
  · rw [name_declaredTemplate d c hmade] at hname
    exact absurd (hname ▸ ends_of_declared h hd) ha.not_ends

/-- Bases end unless they lead to a native class that is above itself. -/
theorem ends_iff (h : build p natives = .ok t) {a : String} : Ends t.baseName? a ↔
    ∀ n ∈ natives.classes, Relation.ReflTransGen (Step t.baseName?) a n.fullName →
      ¬ AboveItself t.baseName? n.fullName := by
  constructor
  · intro hends n _ hreach hn
    obtain ⟨l, hl⟩ := ends_iff_ascends.mp hends
    exact hl.not_revisits ⟨n.fullName, hreach, hn⟩
  · intro hnatives
    refine ends_iff_ascends.mpr ((t.ascends_or_revisits a).resolve_right ?_)
    rintro ⟨b, hreach, hb⟩
    rcases native_or_primitive_of_aboveItself h hb with ⟨n, hn, rfl⟩ | ⟨q, -, hstep⟩
    · exact hnatives n hn hreach hb
    -- The base of a primitive is above itself as well, and that is not a primitive.
    · have hobject := AboveItself.step hb hstep
      rcases native_or_primitive_of_aboveItself h hobject with ⟨n, hn, hname⟩ | ⟨q', hq', -⟩
      · exact hnatives n hn (hname ▸ hreach.tail hstep) (hname ▸ hobject)
      · exact absurd hq' (by cases q' <;> decide)

/-! ## Walks -/

theorem baseOf_some {owner base : ClassTy} (h : t.baseOf owner = .ok (some base)) :
    t.baseName? owner.name = some base.name := by
  obtain ⟨c, hc, hbase⟩ := ok_of_map h
  obtain ⟨b, hb, rfl⟩ := Option.map_eq_some_iff.mp hbase
  show t.baseName? owner.name = some b.name
  exact baseName?_of_template hc hb

theorem baseOf_error {owner : ClassTy} {e : TypeError} (h : t.baseOf owner = .error e) :
    e.isMisnamed = true := by
  unfold baseOf at h
  cases hc : t.template owner.name {} with
  | ok c =>
    rw [hc] at h
    cases h
  | error e' =>
    rw [hc] at h
    cases h
    exact template_error hc

theorem methods_staticMembers_error {owner : ClassTy} {name : String} {isStatic : Bool}
    {e : TypeError} (h : t.staticMembers.methods owner name isStatic = .error e) :
    e.isMisnamed = true := by
  unfold staticMembers at h
  dsimp only at h
  split at h
  · next hc =>
    cases h
    exact template_error hc
  · exact signatures_error h

/-- Looking for a method of a class type is not given up where bases end. -/
theorem methodFrom_staticMembers_error {start : ClassTy} {name : String} {isStatic : Bool}
    {args : List Ty} {e : TypeError} : ∀ {fuel : Nat} {owner : ClassTy} {l : List String},
    Ascends t.baseName? owner.name l → l.length ≤ fuel →
    t.staticMembers.methodFrom t start name isStatic args fuel owner = .error e →
    e.isEndless = false := by
  intro fuel
  induction fuel with
  | zero =>
    intro owner l hl hle
    cases hl <;> simp at hle
  | succ fuel ih =>
    intro owner l hl hle h
    rw [MemberSource.methodFrom] at h
    split at h
    · next hmethods =>
      cases h
      exact TypeError.isEndless_of_isMisnamed (methods_staticMembers_error hmethods)
    · split at h
      · cases h
      · split at h
        · next hbase =>
          cases h
          exact TypeError.isEndless_of_isMisnamed (baseOf_error hbase)
        · next base hbase =>
          obtain ⟨rest, hrest, rfl⟩ := hl.of_step (baseOf_some hbase)
          exact ih hrest (Nat.le_of_succ_le_succ hle) h
        · cases h
      · cases h

theorem length_ancestors_of_base? {c base : RuntimeClass F} (h : c.base? = some base) :
    c.ancestors.length = base.ancestors.length + 1 := by
  unfold RuntimeClass.base? at h
  cases hc : c.ancestors with
  | nil =>
    rw [hc] at h
    cases h
  | cons l rest =>
    rw [hc] at h
    cases h
    rfl

/-- Looking for a method of a runtime class is never given up: it keeps its bases with it. -/
theorem methodFrom_runtimeMembers_error {start : RuntimeClass F} {name : String} {isStatic : Bool}
    {args : List Ty} {e : TypeError} : ∀ {fuel : Nat} {c : RuntimeClass F},
    c.ancestors.length < fuel →
    t.runtimeMembers.methodFrom t start name isStatic args fuel c = .error e →
    e.isEndless = false := by
  intro fuel
  induction fuel with
  | zero => exact fun hlt => absurd hlt (Nat.not_lt_zero _)
  | succ fuel ih =>
    intro c hlt h
    rw [MemberSource.methodFrom] at h
    split at h
    · next hmethods =>
      cases h
      exact TypeError.isEndless_of_isMisnamed (signatures_error hmethods)
    · split at h
      · cases h
      · split at h
        · next hbase => cases hbase
        · next base hbase =>
          exact ih (by rw [length_ancestors_of_base? (Except.ok.inj hbase)] at hlt; omega) h
        · cases h
      · cases h

/-- Looking for a field is not given up where bases end. -/
theorem fieldTypeWithin_error {name : String} {e : TypeError} : ∀ {fuel : Nat} {owner : ClassTy}
    {l : List String}, Ascends t.baseName? owner.name l → l.length ≤ fuel →
    t.fieldTypeWithin name fuel owner = .error e → e.isEndless = false := by
  intro fuel
  induction fuel with
  | zero =>
    intro owner l hl hle
    cases hl <;> simp at hle
  | succ fuel ih =>
    intro owner l hl hle h
    rw [fieldTypeWithin] at h
    split at h
    · next hc =>
      cases h
      exact TypeError.isEndless_of_isMisnamed (template_error hc)
    · split at h
      · cases h
      · split at h
        · next hbase =>
          cases h
          exact TypeError.isEndless_of_isMisnamed (baseOf_error hbase)
        · cases h
        · next base hbase =>
          obtain ⟨rest, hrest, rfl⟩ := hl.of_step (baseOf_some hbase)
          exact ih hrest (Nat.le_of_succ_le_succ hle) h

/--
No walk along bases that starts at a class is given up: making the class, its static view, looking
for a method and looking for a field.
-/
structure EndsWalks (t : ClassTable F) (name : String) : Prop where
  «instantiate» : ∀ (r : Registry F) args span e,
    r.instantiate t ⟨name, args⟩ span = .error e → e.isEndless = false
  staticView : ∀ (r : Registry F) span e, r.staticView t name span = .error e → e.isEndless = false
  method : ∀ args method isStatic argTypes e,
    t.staticMembers.resolveMethod t ⟨name, args⟩ method isStatic argTypes = .error e →
    e.isEndless = false
  runtimeMethod : ∀ (c : RuntimeClass F) method isStatic argTypes e, c.name = name →
    t.runtimeMembers.resolveMethod t c method isStatic argTypes = .error e → e.isEndless = false
  field : ∀ args field e, t.fieldType ⟨name, args⟩ field = .error e → e.isEndless = false

theorem endsWalks_of_ends {name : String} (h : Ends t.baseName? name) : t.EndsWalks name := by
  obtain ⟨l, hl⟩ := ends_iff_ascends.mp h
  have howner : ∀ args, Ascends t.baseName? (ClassTy.mk name args).name l := fun _ => hl
  have hle := length_le_height hl
  refine ⟨fun r args span e h => ?_, fun r span e h => ?_, fun args method isStatic argTypes e h => ?_,
    fun c method isStatic argTypes e _ h => ?_, fun args field e h => ?_⟩
  · exact Registry.instantiate_error (howner args) h
  · exact Registry.staticView_error hl h
  · exact methodFrom_staticMembers_error (howner args) hle h
  · exact methodFrom_runtimeMembers_error (Nat.lt_succ_self _) h
  · exact fieldTypeWithin_error (howner args) hle h

/-- Where bases do not end, no number of steps is enough to make the static view of the class. -/
theorem staticViewWithin_of_not_ends (span : Span) : ∀ (fuel : Nat) {name : String},
    ¬ Ends t.baseName? name →
    ∃ e, Registry.staticViewWithin t fuel {} name span = .error e ∧ e.isEndless = true
  | 0, name, _ => ⟨_, rfl, rfl⟩
  | fuel + 1, name, h => by
    obtain ⟨b, hstep⟩ : ∃ b, t.baseName? name = some b :=
      Option.ne_none_iff_exists'.mp fun hnone => h ⟨name, .refl, hnone⟩
    have hb : ¬ Ends t.baseName? b := fun ⟨c, hreach, hc⟩ => h ⟨c, .head hstep hreach, hc⟩
    obtain ⟨base, hbase, rfl⟩ := Option.map_eq_some_iff.mp hstep
    obtain ⟨c, hc, hcb⟩ := Option.bind_eq_some_iff.mp hbase
    obtain ⟨e, he, hendless⟩ := staticViewWithin_of_not_ends span fuel hb
    refine ⟨e, ?_, hendless⟩
    rw [Registry.staticViewWithin, template_ok_iff.mpr hc]
    dsimp only [Registry.staticView?, List.lookup]
    rw [hcb]
    dsimp only
    rw [he]

/-- The walks that start at a class end exactly if its bases do. -/
theorem endsWalks_iff {name : String} : t.EndsWalks name ↔ Ends t.baseName? name := by
  refine ⟨fun h => ?_, endsWalks_of_ends⟩
  by_contra hends
  obtain ⟨e, he, hendless⟩ := staticViewWithin_of_not_ends {} t.height hends
  rw [h.staticView {} {} e he] at hendless
  cases hendless

/--
In the table of a program bases end from every declared class, and from any class exactly if they do
not lead to a native class that is above itself. Where they end, and nowhere else, all walks along
bases do.
-/
theorem base_walks_end (h : build p natives = .ok t) :
    (∀ d ∈ p.classes, Ends t.baseName? d.name.name) ∧
    (∀ a, Ends t.baseName? a ↔
      ∀ n ∈ natives.classes, Relation.ReflTransGen (Step t.baseName?) a n.fullName →
        ¬ AboveItself t.baseName? n.fullName) ∧
    ∀ a, t.EndsWalks a ↔ Ends t.baseName? a :=
  ⟨fun _ hd => ends_of_declared h hd, fun _ => ends_iff h, fun _ => endsWalks_iff⟩

theorem base_walks_end_boxes : ∃ t, build boxesProgram NativeRegistry.standard = .ok t ∧
    Ends t.baseName? "Pair" ∧ t.EndsWalks "Pair" := by
  obtain ⟨t, ht⟩ : ∃ t, build boxesProgram NativeRegistry.standard = .ok t := by decide +kernel
  obtain ⟨hdeclared, -, hwalks⟩ := base_walks_end ht
  have hends : Ends t.baseName? "Pair" := hdeclared _ List.mem_cons_self
  exact ⟨t, ht, hends, (hwalks "Pair").mpr hends⟩

/-- The standard library, and two native classes that extend each other. -/
def ringNatives : NativeRegistry StandardFn :=
  NativeRegistry.ofClasses (NativeClass.standard ++
    [{ «namespace» := "demo", name := "A", base := some (TypeExpr.parse "demo.B") },
     { «namespace» := "demo", name := "B", base := some (TypeExpr.parse "demo.A") }])

/--
A program without classes has a table over native classes that extend each other. Bases do not end
there, and no number of steps is enough to make the static view of one of the two.
-/
theorem native_ring_endless : ∃ t, build (Build.program []) ringNatives = .ok t ∧
    (∃ c, t.get? "demo.A" = some c) ∧ ¬ Ends t.baseName? "demo.A" ∧
    ∀ fuel span, ∃ e, Registry.staticViewWithin t fuel {} "demo.A" span = .error e ∧
      e.isEndless = true := by
  have hbases : (build (Build.program []) ringNatives).toOption.map (fun t =>
      (t.baseName? "demo.A", t.baseName? "demo.B")) = some (some "demo.B", some "demo.A") := by
    decide +kernel
  obtain ⟨t, hsome, hpair⟩ := Option.map_eq_some_iff.mp hbases
  obtain ⟨ha, hb⟩ := Prod.mk.inj hpair
  have ht : build (Build.program []) ringNatives = .ok t := ok_of_toOption hsome
  have hnot : ¬ Ends t.baseName? "demo.A" :=
    AboveItself.not_ends (.tail (.single ha) hb)
  obtain ⟨base, hbase, -⟩ := Option.map_eq_some_iff.mp ha
  obtain ⟨c, hc, -⟩ := Option.bind_eq_some_iff.mp hbase
  exact ⟨t, ht, ⟨c, hc⟩, hnot, fun fuel span => staticViewWithin_of_not_ends span fuel hnot⟩

end ClassTable

end Middleweight
