import Middleweight.Proofs.ClassTable.Standard

/-!
# Tables in which every formed type has a class

In a complete table the walk from every class comes to an end, and the base and the fields of every
class are formed over its parameters. Then every type that is formed without parameters has a class,
and so have the types of the fields of its objects.

* `ClassTable.complete_of_build` : tables over the standard library are complete
* `ClassTable.Complete.classFor_ok` : the class of a formed type
* `ClassTable.Complete.formed_allFields` : the fields of its objects
-/

namespace Middleweight.ClassTable

variable {F : Type} {t : ClassTable F}

/-- Every walk along bases ends; bases and fields are formed over the parameters of their class. -/
structure Complete (t : ClassTable F) : Prop where
  climbs : ∀ {name : String} {c : Template F}, t.get? name = some c → ∃ n, t.Climbs name n
  base : ∀ {name : String} {c : Template F} {base : ClassTy}, t.get? name = some c →
    c.base = some base → base.toTy.Formed t.arity? c.generics
  fields : ∀ {name : String} {c : Template F}, t.get? name = some c →
    ∀ f ∈ c.fields, f.ty.Formed t.arity? c.generics

theorem complete_of_build {p : Program} {t : ClassTable StandardFn}
    (h : build p .standard = .ok t) : t.Complete where
  climbs := climbs_of_build h
  base := formed_base_of_build h
  fields := by
    intro name c hc f hf
    rcases mem_classes_cases h (get?_mem hc) with ⟨q, rfl⟩ | ⟨n, -, hmade⟩ | ⟨d, -, hmade⟩
    · cases hf
    · obtain ⟨base, -, rfl⟩ := nativeTemplate_ok hmade
      cases hf
    · obtain ⟨base, fields, -, hfields, rfl⟩ := declaredTemplate_ok hmade
      obtain ⟨e, -, -, -, hlower⟩ := exists_of_forall₂_mem (lowerFields_ok_iff.mp hfields) hf
      exact LoweringContext.formed_lower hlower

/-- The base of an instantiation with formed arguments has formed arguments. -/
theorem Complete.formed_baseKey (ht : t.Complete) {name : String} {c : Template F} {base : ClassTy}
    (hc : t.get? name = some c) (hb : c.base = some base) {args : List Ty}
    (hargs : Ty.AllFormed t.arity? [] args) (hlen : c.generics.length = args.length) :
    (c.baseKey base args).toTy.Formed t.arity? [] := by
  have hformed := (ht.base hc hb).substitute (Bindings.bindsFormed_zip hargs hlen)
  rw [ClassTy.toTy, Ty.substitute] at hformed
  have hground := (Ty.formed_cls.mp hformed).2.allGround
  rw [Template.baseKey, ClassTy.substitute, Ty.resolvedAll_of_allGround hground]
  exact hformed

/-- A class type that is formed without parameters has an instantiation. -/
theorem Complete.exists_instantiates (ht : t.Complete) {key : ClassTy}
    (h : key.toTy.Formed t.arity? []) : ∃ c, t.Instantiates key c := by
  obtain ⟨tm, htm, -⟩ := get?_of_arity? (Ty.formed_cls.mp h).1
  obtain ⟨n, hn⟩ := ht.climbs htm
  clear htm
  obtain ⟨name, args⟩ := key
  dsimp only at hn
  induction hn generalizing args with
  | root hg hb =>
    obtain ⟨harity, hargs⟩ := Ty.formed_cls.mp h
    obtain ⟨c, hc, hlen⟩ := get?_of_arity? harity
    cases hg.symm.trans hc
    exact ⟨_, .root hargs.allGround hg hlen hb⟩
  | step hg hb _ ih =>
    obtain ⟨harity, hargs⟩ := Ty.formed_cls.mp h
    obtain ⟨c, hc, hlen⟩ := get?_of_arity? harity
    cases hg.symm.trans hc
    obtain ⟨b, hbase⟩ := ih _ (ht.formed_baseKey hg hb hargs hlen)
    exact ⟨_, .derived hargs.allGround hg hlen hb hbase⟩

/-- A type that is formed without parameters has a class, wherever it is written. -/
theorem Complete.classFor_ok (ht : t.Complete) {ty : Ty} (h : ty.resolved.Formed t.arity? []) :
    ∃ c, (∀ span, t.classFor ty span = .ok c) ∧ c.asTy = ty.resolved ∧ t.Instantiates c.ty c := by
  cases hres : ty.resolved with
  | unbound n =>
    rw [hres] at h
    exact absurd (Ty.formed_unbound.mp h) List.not_mem_nil
  | bound n s =>
    rw [hres] at h
    exact absurd h Ty.not_formed_bound
  | cls name args =>
    rw [hres] at h
    obtain ⟨c, hc⟩ : ∃ c, t.Instantiates ⟨name, args⟩ c := ht.exists_instantiates h
    have hground : (ClassTy.toTy ⟨name, args⟩).resolved = .cls name args :=
      Ty.resolved_of_isGround h.isGround
    refine ⟨c, fun span => ?_, ?_, ?_⟩
    · rw [← hc.classFor_eq span, classFor, classFor, hres, hground]
    · rw [RuntimeClass.asTy, hc.ty_eq]
      rfl
    · rw [hc.ty_eq]
      exact hc

/-- The fields of an object of a formed type have formed types. -/
theorem Complete.formed_allFields (ht : t.Complete) {key : ClassTy} {c : RuntimeClass F}
    (hc : t.Instantiates key c) (h : key.toTy.Formed t.arity? []) :
    ∀ s ∈ c.allFields, s.ty.Formed t.arity? [] := by
  have hown : ∀ {key : ClassTy} {tm : Template F}, t.get? key.name = some tm →
      tm.generics.length = key.args.length → key.toTy.Formed t.arity? [] →
      ∀ s ∈ tm.fields.map fun f => (⟨f.name, f.ty.substitute (Bindings.zip tm.generics key.args)⟩ :
        FieldSlot), s.ty.Formed t.arity? [] := by
    intro key tm htm hlen h s hs
    obtain ⟨f, hf, rfl⟩ := List.mem_map.mp hs
    exact (ht.fields htm f hf).substitute (Bindings.bindsFormed_zip (Ty.formed_cls.mp h).2 hlen)
  induction hc with
  | root _ hg hlen _ =>
    intro s hs
    obtain ⟨l, hl, hs⟩ := List.mem_flatMap.mp hs
    cases List.mem_singleton.mp hl
    exact hown hg hlen h s hs
  | @derived key tm base b _ hg hlen hb _ ih =>
    intro s hs
    obtain ⟨l, hl, hs⟩ := List.mem_flatMap.mp hs
    rcases List.mem_cons.mp hl with rfl | hl
    · exact hown hg hlen h s hs
    · exact ih (ht.formed_baseKey hg hb (Ty.formed_cls.mp h).2 hlen) s
        (List.mem_flatMap.mpr ⟨l, hl, hs⟩)

end Middleweight.ClassTable
