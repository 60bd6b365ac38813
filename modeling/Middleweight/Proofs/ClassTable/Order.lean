import Middleweight.Proofs.ClassTable.Hierarchy
import Middleweight.Proofs.ClassTable.Match

/-!
# The order of classes in a program

A table is built class by class, in the order of the program, but what it is asked does not depend
on that order: the names of declared classes are different, so that each name stands for the same
and has the same template wherever its class is declared, and there are as many templates.

* `ImportTable.build_of_perm` : names stand for the same
* `ClassTable.putAll_of_perm` : names have the same templates
* `ClassTable.build_of_perm` : programs with the same classes have matching tables
-/

namespace Middleweight

variable {F : Type} {natives : NativeRegistry F} {p q : Program}

/-- Where the names of classes are different, their order does not change what names stand for. -/
theorem ImportTable.build_of_perm (himports : q.imports = p.imports)
    (hperm : p.classes.Perm q.classes) (hnd : (p.classes.map fun d => d.name.name).Nodup)
    {t : ImportTable} (h : build p natives = .ok t) :
    ∃ t', build q natives = .ok t' ∧ ∀ name, t'.resolve? name = t.resolve? name := by
  unfold build at h ⊢
  rw [himports]
  cases hadd : addImports natives (implicit natives) p.imports with
  | error e =>
    rw [hadd] at h
    cases h
  | ok t₁ =>
    rw [hadd] at h
    cases h
    refine ⟨_, rfl, fun name => ?_⟩
    have hkeys :
        ((p.classes.map fun c => (c.name.name, c.name.name)).reverse.map Prod.fst).Nodup := by
      rw [List.map_reverse, List.nodup_reverse, List.map_map]
      exact hnd
    have hsame : (q.classes.map fun c => (c.name.name, c.name.name)).reverse.lookup name =
        (p.classes.map fun c => (c.name.name, c.name.name)).reverse.lookup name := by
      refine lookup_of_perm ?_ hkeys name
      exact ((List.reverse_perm _).trans (hperm.map _)).trans (List.reverse_perm _).symm
    simp only [resolve?, add, List.lookup_append, hsame]

namespace ClassTable

variable {t : ClassTable F}

/-! ## Templates added in another order -/

section PutAll

variable {α : Type} {make : α → Except TypeError (Template F)} {key : α → String}
  (hkey : ∀ a c, make a = .ok c → c.name = key a) {as : List α} {cs cs' : List (Template F)}
  (hnd : (as.map key).Nodup) (h : putAll make cs as = .ok cs')

include hkey hnd h

/-- Classes of different names can be added in another order; each name has the same template. -/
theorem putAll_of_perm {bs : List α} (hperm : as.Perm bs) :
    ∃ ds, putAll make cs bs = .ok ds ∧ ∀ name, findIn ds name = findIn cs' name := by
  have hnd' : (bs.map key).Nodup := (hperm.map key).nodup_iff.mp hnd
  obtain ⟨ds, hds⟩ : ∃ ds, putAll make cs bs = .ok ds := by
    refine putAll_ok fun b hb => ?_
    obtain ⟨c, hc, -⟩ := findIn_putAll_of_mem hkey h hnd b (hperm.mem_iff.mpr hb)
    exact ⟨c, hc⟩
  refine ⟨ds, hds, fun name => ?_⟩
  by_cases hname : name ∈ as.map key
  · obtain ⟨a, ha, rfl⟩ := List.mem_map.mp hname
    obtain ⟨c, hc, hfind⟩ := findIn_putAll_of_mem hkey h hnd a ha
    obtain ⟨c', hc', hfind'⟩ := findIn_putAll_of_mem hkey hds hnd' a (hperm.mem_iff.mp ha)
    cases hc.symm.trans hc'
    rw [hfind, hfind']
  · have hname' : name ∉ bs.map key := fun hm => hname ((hperm.map key).mem_iff.mpr hm)
    rw [findIn_putAll_of_notMem hkey h hname, findIn_putAll_of_notMem hkey hds hname']

end PutAll

/-- Classes of new and different names are all added. -/
theorem length_putAll {α : Type} {make : α → Except TypeError (Template F)} {key : α → String}
    (hkey : ∀ a c, make a = .ok c → c.name = key a) : ∀ {as : List α} {cs cs' : List (Template F)},
    (as.map key).Nodup → (∀ a ∈ as, findIn cs (key a) = none) → putAll make cs as = .ok cs' →
    cs'.length = as.length + cs.length := by
  intro as
  induction as with
  | nil =>
    intro cs cs' _ _ h
    cases h
    simp
  | cons a rest ih =>
    intro cs cs' hnd hfresh h
    rw [List.map_cons, List.nodup_cons] at hnd
    rw [putAll] at h
    split at h
    · cases h
    · next c hc =>
      have hname := hkey a c hc
      have hput : (put c cs).length = cs.length + 1 := by
        have hnone := List.find?_eq_none.mp (hfresh a List.mem_cons_self)
        rw [put, List.length_cons, List.filter_eq_self.mpr]
        intro d hd
        rw [hname]
        simpa using hnone d hd
      rw [ih hnd.2 (fun b hb => ?_) h, hput, List.length_cons]
      · omega
      · rw [findIn_put, if_neg, hfresh b (List.mem_cons_of_mem _ hb)]
        rw [hname]
        exact fun heq => hnd.1 (List.mem_map.mpr ⟨b, hb, heq.symm⟩)

/-- The names of declared classes are new to primitives and native classes. -/
theorem findIn_natives_of_fresh {ctx : LoweringContext} {ws : List (Template F)}
    (hws : putAll (nativeTemplate ctx) primitiveTemplates natives.classes = .ok ws) {name : String}
    (hnative : ∀ c ∈ natives.classes, c.fullName ≠ name)
    (hprimitive : ∀ q : Primitive, q.name ≠ name) : findIn ws name = none := by
  rw [findIn_putAll_of_notMem name_nativeTemplate hws]
  · rw [primitiveTemplates_eq]
    simp [findIn, Template.ofPrimitive, hprimitive]
  · intro hm
    obtain ⟨c, hc, heq⟩ := List.mem_map.mp hm
    exact hnative c hc heq

/-! ## Templates in another context -/

theorem nativeTemplate_congr {ctx ctx' : LoweringContext} (h : ctx.SameNames ctx') :
    (nativeTemplate ctx' : NativeClass F → Except TypeError (Template F)) = nativeTemplate ctx := by
  funext c
  unfold nativeTemplate
  rw [h.lowerBase_eq]

theorem lowerFields_congr {ctx ctx' : LoweringContext} (h : ctx.SameNames ctx')
    (params : TypeParams) :
    ∀ ds : List FieldDecl, lowerFields ctx' params ds = lowerFields ctx params ds
  | [] => rfl
  | d :: rest => by rw [lowerFields, lowerFields, h.lower_eq, lowerFields_congr h params rest]

theorem declaredTemplate_congr {ctx ctx' : LoweringContext} (h : ctx.SameNames ctx') :
    (declaredTemplate ctx' : ClassDecl → Except TypeError (Template F)) = declaredTemplate ctx := by
  funext d
  unfold declaredTemplate
  simp only [h.lowerBase_eq, lowerFields_congr h]

/-! ## Tables -/

/-- A template of a built table matches itself, with every body the same. -/
theorem matches_self_of_mem (h : build p natives = .ok t) {c : Template F} (hc : c ∈ t.classes) :
    c.Matches t.lowering (fun _ b b' => b' = b) c := by
  have hmembers : ∀ ms : List (Member F), List.Forall₂
      (Member.Matches t.lowering (fun _ b b' => b' = b) c.generics) ms ms :=
    fun ms => List.forall₂_same.mpr fun m _ => Member.matches_refl rfl
  refine ⟨rfl, rfl, rfl, rfl, hmembers _, hmembers _, fun m hm b s hbody => ?_, rfl, rfl⟩
  rcases mem_classes_cases h hc with ⟨q, rfl⟩ | ⟨n, -, hmade⟩ | ⟨d, -, hmade⟩
  · cases hm
  · obtain ⟨base, -, rfl⟩ := nativeTemplate_ok hmade
    obtain ⟨n, -, rfl⟩ := List.mem_map.mp hm
    cases hbody
  · obtain ⟨base, fields, -, -, rfl⟩ := declaredTemplate_ok hmade
    obtain ⟨k, -, rfl⟩ := List.mem_map.mp hm
    rfl

/-- A program with the same classes in another order has a matching table. -/
theorem build_of_perm (himports : q.imports = p.imports) (hperm : p.classes.Perm q.classes)
    (h : build p natives = .ok t) :
    ∃ t', build q natives = .ok t' ∧ t.Matches (fun _ b b' => b' = b) t' := by
  obtain ⟨hnatives, himp, ⟨arities, ha⟩, ⟨ws, hws, hcs⟩, hacyclic⟩ := build_ok_iff.mp h
  obtain ⟨harities, hnd, hnew⟩ := declaredArities_ok ha
  obtain ⟨imports, himports', hresolve⟩ := ImportTable.build_of_perm himports hperm hnd himp
  -- The numbers of parameters, and with them the templates, are those of the other order.
  have hnd' : (q.classes.map fun d => d.name.name).Nodup := (hperm.map _).nodup_iff.mp hnd
  have ha' := declaredArities_eq hnd' fun d hd => hnew d (hperm.mem_iff.mpr hd)
  have harity : ∀ name, ((q.classes.map fun d => (d.name.name, d.generics.length)).reverse ++
      knownArities natives).lookup name = arities.lookup name := by
    intro name
    rw [harities, List.lookup_append, List.lookup_append]
    congr 1
    refine lookup_of_perm ?_ ?_ name
    · exact ((List.reverse_perm _).trans (hperm.map _)).trans (List.reverse_perm _).symm
    · rw [List.map_reverse, List.nodup_reverse, List.map_map]
      exact hnd
  have hctx : t.lowering = ⟨t.imports, fun name => arities.lookup name⟩ :=
    congrArg (LoweringContext.mk t.imports) (funext (arity_of_parts ha hws hcs))
  have hsame : t.lowering.SameNames ⟨imports, fun name => ((q.classes.map fun d =>
      (d.name.name, d.generics.length)).reverse ++ knownArities natives).lookup name⟩ := by
    rw [hctx]
    exact ⟨hresolve, harity⟩
  obtain ⟨cs', hcs', hfind⟩ := putAll_of_perm name_declaredTemplate hnd hcs hperm
  rw [← nativeTemplate_congr hsame] at hws
  rw [← declaredTemplate_congr hsame] at hcs'
  -- So the tables match, and the check for cycles finds nothing in the new one either.
  have hlength : cs'.length = t.classes.length := by
    have hfresh : ∀ d ∈ p.classes, findIn ws d.name.name = none := fun d hd =>
      findIn_natives_of_fresh hws (declared_fresh h hd).1 (declared_fresh h hd).2
    rw [length_putAll name_declaredTemplate hnd hfresh hcs,
      length_putAll name_declaredTemplate hnd' (fun d hd => hfresh d (hperm.mem_iff.mpr hd)) hcs',
      hperm.length_eq]
  have hmatch : t.Matches (fun _ b b' => b' = b) ⟨cs', imports, natives⟩ := by
    refine ⟨hresolve, hnatives.symm, fun name => ?_, ?_⟩
    · rw [show (⟨cs', imports, natives⟩ : ClassTable F).get? name = t.get? name from hfind name]
      cases hget : t.get? name with
      | none => exact .none
      | some c => exact .some (matches_self_of_mem h (get?_mem hget))
    · unfold height
      rw [hlength]
  refine ⟨_, ?_, hmatch⟩
  rw [build_of_parts himports' ha' hws hcs', checkAcyclic_ok_iff.mpr fun d hd => ?_]
  · rfl
  · rw [hmatch.height_eq, hmatch.revisits_eq]
    exact checkAcyclic_ok_iff.mp hacyclic d (hperm.mem_iff.mpr hd)

end ClassTable

end Middleweight
