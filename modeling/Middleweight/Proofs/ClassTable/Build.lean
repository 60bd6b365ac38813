import Middleweight.Proofs.ClassTable.ImportClosure
import Middleweight.Proofs.ClassTable.Walk

/-!
# What a class table is built from

A table that was built has the import table of its program, and a template for every primitive,
native and declared class, lowered with the imports and the numbers of parameters of the table
itself.

* `ClassTable.build_ok_iff` : the parts of a build
* `ClassTable.mem_classes_cases` : where a template comes from
* `ClassTable.get?_declared`, `ClassTable.get?_native` : which template a name has
* `ClassTable.arity?_of_resolve?` : what a name stands for is in the table
-/

namespace Middleweight.ClassTable

variable {F : Type} {t : ClassTable F} {p : Program} {natives : NativeRegistry F}

/-! ## The template of a name -/

/-- The template of a name among some. -/
def findIn (cs : List (Template F)) (name : String) : Option (Template F) :=
  cs.find? fun c => c.name == name

theorem get?_eq_findIn (t : ClassTable F) (name : String) : t.get? name = findIn t.classes name :=
  rfl

theorem findIn_put (c : Template F) (cs : List (Template F)) (name : String) :
    findIn (put c cs) name = if c.name = name then some c else findIn cs name := by
  unfold findIn put
  by_cases hc : c.name = name
  · simp [hc]
  · rw [if_neg hc, List.find?_cons_of_neg (by simpa using hc), List.find?_filter]
    refine congrArg (List.find? · cs) (funext fun d => ?_)
    by_cases hd : d.name = name
    · simp [hd, Ne.symm hc]
    · simp [hd]

section PutAll

variable {α : Type} {make : α → Except TypeError (Template F)} {key : α → String}
  (hkey : ∀ a c, make a = .ok c → c.name = key a)

include hkey

/-- A name that none of the added classes has keeps its template. -/
theorem findIn_putAll_of_notMem {name : String} : ∀ {as : List α} {cs cs' : List (Template F)},
    putAll make cs as = .ok cs' → name ∉ as.map key → findIn cs' name = findIn cs name := by
  intro as
  induction as with
  | nil =>
    intro cs cs' h _
    cases h
    rfl
  | cons a rest ih =>
    intro cs cs' h hn
    rw [List.map_cons, List.mem_cons, not_or] at hn
    rw [putAll] at h
    split at h
    · cases h
    · next c hc =>
      rw [ih h hn.2, findIn_put, if_neg]
      rw [hkey a c hc]
      exact fun heq => hn.1 heq.symm

/-- Of classes with different names each one has the template made for it. -/
theorem findIn_putAll_of_mem : ∀ {as : List α} {cs cs' : List (Template F)},
    putAll make cs as = .ok cs' → (as.map key).Nodup → ∀ a ∈ as,
    ∃ c, make a = .ok c ∧ findIn cs' (key a) = some c := by
  intro as
  induction as with
  | nil => intro _ _ _ _ a ha; cases ha
  | cons b rest ih =>
    intro cs cs' h hnd a ha
    rw [List.map_cons, List.nodup_cons] at hnd
    rw [putAll] at h
    split at h
    · cases h
    · next c hc =>
      rcases List.mem_cons.mp ha with rfl | ha
      · refine ⟨c, hc, ?_⟩
        rw [findIn_putAll_of_notMem hkey h hnd.1, findIn_put, if_pos (hkey a c hc)]
      · exact ih h hnd.2 a ha

/-- What is known of templates after adding some classes: of a name, what the last class added
under it brings. -/
theorem map_findIn_putAll {γ : Type} {f : Template F → γ} {g : α → γ}
    (hf : ∀ a c, make a = .ok c → f c = g a) (name : String) :
    ∀ {as : List α} {cs cs' : List (Template F)}, putAll make cs as = .ok cs' →
    (findIn cs' name).map f =
      ((as.map fun a => (key a, g a)).reverse.lookup name).or ((findIn cs name).map f) := by
  intro as
  induction as with
  | nil =>
    intro cs cs' h
    cases h
    rfl
  | cons a rest ih =>
    intro cs cs' h
    rw [putAll] at h
    split at h
    · cases h
    · next c hc =>
      rw [ih h, findIn_put, List.map_cons, List.reverse_cons, List.lookup_append, Option.or_assoc]
      congr 1
      rw [hkey a c hc]
      by_cases hn : key a = name
      · subst hn
        rw [if_pos rfl, Option.map_some, hf a c hc, List.lookup_cons_self]
        rfl
      · have hlookup : [(key a, g a)].lookup name = none :=
          List.lookup_eq_none_iff.mpr (by simpa using fun heq => hn heq.symm)
        rw [if_neg hn, hlookup]
        rfl

end PutAll

theorem mem_putAll {α : Type} {make : α → Except TypeError (Template F)} {c : Template F} :
    ∀ {as : List α} {cs cs' : List (Template F)}, putAll make cs as = .ok cs' → c ∈ cs' →
    c ∈ cs ∨ ∃ a ∈ as, make a = .ok c := by
  intro as
  induction as with
  | nil =>
    intro cs cs' h hc
    cases h
    exact .inl hc
  | cons a rest ih =>
    intro cs cs' h hc
    rw [putAll] at h
    split at h
    · cases h
    · next d hd =>
      rcases ih h hc with hm | ⟨b, hb, hmake⟩
      · rcases List.mem_cons.mp hm with rfl | hm
        · exact .inr ⟨a, by simp, hd⟩
        · exact .inl (List.mem_filter.mp hm).1
      · exact .inr ⟨b, by simp [hb], hmake⟩

/-! ## Names and numbers of parameters of templates -/

theorem nativeTemplate_ok {ctx : LoweringContext} {c : NativeClass F} {tm : Template F}
    (h : nativeTemplate ctx c = .ok tm) : ∃ base,
    ctx.lowerBase c.fullName (TypeParams.unbound c.generics) c.base = .ok base ∧
    tm = { name := c.fullName, generics := c.generics, base, fields := [],
           constructors := c.constructors.map (Member.ofNative c.fullName),
           methods := c.methods.map (Member.ofNative c.fullName), origin := .native c,
           span := {} } := by
  unfold nativeTemplate at h
  split at h
  · cases h
  · next base hbase =>
    cases h
    exact ⟨base, hbase, rfl⟩

theorem declaredTemplate_ok {ctx : LoweringContext} {d : ClassDecl} {tm : Template F}
    (h : declaredTemplate ctx d = .ok tm) : ∃ base fields,
    ctx.lowerBase d.name.name (TypeParams.unbound (d.generics.map Identifier.name)) d.base =
      .ok base ∧
    lowerFields ctx (TypeParams.unbound (d.generics.map Identifier.name)) d.fields = .ok fields ∧
    tm = { name := d.name.name, generics := d.generics.map Identifier.name, base, fields,
           constructors := d.constructors.map (Member.ofConstructor d.name.name),
           methods := d.methods.map (Member.ofMethod d.name.name), origin := .declared,
           span := d.span } := by
  unfold declaredTemplate at h
  dsimp only at h
  split at h
  · cases h
  · next base hbase =>
    split at h
    · cases h
    · next fields hfields =>
      cases h
      exact ⟨base, fields, hbase, hfields, rfl⟩

theorem declaredTemplate_eq {ctx : LoweringContext} {d : ClassDecl} {base : Option ClassTy}
    {fields : List FieldTemplate}
    (hb : ctx.lowerBase d.name.name (TypeParams.unbound (d.generics.map Identifier.name)) d.base =
      .ok base)
    (hf : lowerFields ctx (TypeParams.unbound (d.generics.map Identifier.name)) d.fields =
      .ok fields) :
    (declaredTemplate ctx d : Except TypeError (Template F)) =
      .ok { name := d.name.name, generics := d.generics.map Identifier.name, base, fields,
            constructors := d.constructors.map (Member.ofConstructor d.name.name),
            methods := d.methods.map (Member.ofMethod d.name.name), origin := .declared,
            span := d.span } := by
  unfold declaredTemplate
  simp only [hb, hf]

theorem name_nativeTemplate {ctx : LoweringContext} (c : NativeClass F) (tm : Template F)
    (h : nativeTemplate ctx c = .ok tm) : tm.name = c.fullName := by
  obtain ⟨base, -, rfl⟩ := nativeTemplate_ok h
  rfl

theorem name_declaredTemplate {ctx : LoweringContext} (d : ClassDecl) (tm : Template F)
    (h : declaredTemplate ctx d = .ok tm) : tm.name = d.name.name := by
  obtain ⟨base, fields, -, -, rfl⟩ := declaredTemplate_ok h
  rfl

/-- Declared names are new and different; their numbers of parameters come in front. -/
theorem declaredArities_ok : ∀ {ds : List ClassDecl} {known arities : Arities},
    declaredArities known ds = .ok arities →
    arities = (ds.map fun d => (d.name.name, d.generics.length)).reverse ++ known ∧
      (ds.map fun d => d.name.name).Nodup ∧ ∀ d ∈ ds, known.lookup d.name.name = none := by
  intro ds
  induction ds with
  | nil =>
    intro known arities h
    cases h
    exact ⟨rfl, List.nodup_nil, by simp⟩
  | cons d rest ih =>
    intro known arities h
    rw [declaredArities] at h
    split at h
    · cases h
    · next hnew =>
      obtain ⟨harities, hnd, hfresh⟩ := ih h
      have hd : known.lookup d.name.name = none := Option.not_isSome_iff_eq_none.mp hnew
      have hrest : ∀ e ∈ rest, e.name.name ≠ d.name.name ∧ known.lookup e.name.name = none := by
        intro e he
        have := hfresh e he
        rw [List.lookup_cons] at this
        split at this
        · cases this
        · next hne => exact ⟨by simpa using hne, this⟩
      refine ⟨by rw [harities]; simp, ?_, ?_⟩
      · rw [List.map_cons, List.nodup_cons]
        refine ⟨fun hm => ?_, hnd⟩
        obtain ⟨e, he, heq⟩ := List.mem_map.mp hm
        exact (hrest e he).1 heq
      · intro e he
        rcases List.mem_cons.mp he with rfl | he
        · exact hd
        · exact (hrest e he).2

/-! ## The parts of a build -/

/-- The templates of primitives. -/
def primitiveTemplates : List (Template F) :=
  Primitive.all.foldl (fun cs p => put (Template.ofPrimitive p) cs) []

theorem primitiveTemplates_eq : (primitiveTemplates : List (Template F)) =
    [.ofPrimitive .boolean, .ofPrimitive .float, .ofPrimitive .int] := rfl

/-- What is known of the templates of primitives. -/
theorem map_findIn_primitives {γ : Type} {f : Template F → γ} {g : Primitive → γ}
    (hf : ∀ q, f (.ofPrimitive q) = g q) {name : String} :
    (findIn primitiveTemplates name).map f =
      (Primitive.all.map fun q => (q.name, g q)).lookup name := by
  rw [primitiveTemplates_eq]
  by_cases hname : ∃ q : Primitive, q.name = name
  · obtain ⟨q, rfl⟩ := hname
    cases q <;> exact congrArg some (hf _)
  · have hne : ∀ q : Primitive, q.name ≠ name := fun q hq => hname ⟨q, hq⟩
    have hlookup : (Primitive.all.map fun q => (q.name, g q)).lookup name = none := by
      refine List.lookup_eq_none_iff.mpr fun e he => ?_
      obtain ⟨q, -, rfl⟩ := List.mem_map.mp he
      simpa using (hne q).symm
    rw [hlookup]
    simp [findIn, Template.ofPrimitive, hne]

/-- The arities of the templates of a table, natives before declared classes. -/
theorem arity_of_parts {ctx : LoweringContext} {arities : Arities} {ws cs : List (Template F)}
    (ha : declaredArities (knownArities natives) p.classes = .ok arities)
    (hws : putAll (nativeTemplate ctx) primitiveTemplates natives.classes = .ok ws)
    (hcs : putAll (declaredTemplate ctx) ws p.classes = .ok cs) (name : String) :
    (findIn cs name).map (fun c => c.generics.length) = arities.lookup name := by
  have hdeclared : ∀ (d : ClassDecl) (tm : Template F), declaredTemplate ctx d = .ok tm →
      tm.generics.length = d.generics.length := by
    intro d tm h
    obtain ⟨base, fields, -, -, rfl⟩ := declaredTemplate_ok h
    simp
  have hnative : ∀ (c : NativeClass F) (tm : Template F), nativeTemplate ctx c = .ok tm →
      tm.generics.length = c.generics.length := by
    intro c tm h
    obtain ⟨base, -, rfl⟩ := nativeTemplate_ok h
    rfl
  rw [map_findIn_putAll name_declaredTemplate hdeclared name hcs,
    map_findIn_putAll name_nativeTemplate hnative name hws,
    map_findIn_primitives (g := fun _ => 0) fun _ => rfl,
    (declaredArities_ok ha).1, List.lookup_append, knownArities, List.lookup_append]

/-- Once all templates are there, the check for cycles decides whether there is a table. -/
theorem build_of_parts {imports : ImportTable} {arities : Arities} {ws cs : List (Template F)}
    (himports : ImportTable.build p natives = .ok imports)
    (harities : declaredArities (knownArities natives) p.classes = .ok arities)
    (hws : putAll (nativeTemplate ⟨imports, fun name => arities.lookup name⟩) primitiveTemplates
      natives.classes = .ok ws)
    (hcs : putAll (declaredTemplate ⟨imports, fun name => arities.lookup name⟩) ws p.classes =
      .ok cs) :
    build p natives = ((⟨cs, imports, natives⟩ : ClassTable F).checkAcyclic p.classes).map
      fun _ => ⟨cs, imports, natives⟩ := by
  unfold build
  rw [himports]
  simp only [bind, Except.bind, harities]
  rw [show Primitive.all.foldl (fun cs p => put (Template.ofPrimitive p) cs) [] =
    (primitiveTemplates : List (Template F)) from rfl, hws]
  dsimp only
  rw [hcs]
  dsimp only
  cases checkAcyclic _ p.classes <;> rfl

/-- A table is built from its imports and from templates lowered with its own arities. -/
theorem build_ok_iff : build p natives = .ok t ↔
    t.natives = natives ∧ ImportTable.build p natives = .ok t.imports ∧
    (∃ arities, declaredArities (knownArities natives) p.classes = .ok arities) ∧
    (∃ ws, putAll (nativeTemplate t.lowering) primitiveTemplates natives.classes = .ok ws ∧
      putAll (declaredTemplate t.lowering) ws p.classes = .ok t.classes) ∧
    t.checkAcyclic p.classes = .ok () := by
  constructor
  · intro h
    obtain ⟨imports, himports, h⟩ := ok_of_bind h
    obtain ⟨arities, harities, h⟩ := ok_of_bind h
    dsimp only at h
    obtain ⟨ws, hws, h⟩ := ok_of_bind h
    obtain ⟨cs, hcs, h⟩ := ok_of_bind h
    obtain ⟨u, hacyclic, h⟩ := ok_of_bind h
    cases h
    have hctx : (⟨cs, imports, natives⟩ : ClassTable F).lowering =
        ⟨imports, fun name => arities.lookup name⟩ :=
      congrArg (LoweringContext.mk imports) (funext (arity_of_parts harities hws hcs))
    exact ⟨rfl, himports, ⟨arities, harities⟩, ⟨ws, by rw [hctx]; exact hws, by rw [hctx]; exact hcs⟩,
      hacyclic⟩
  · rintro ⟨rfl, himports, ⟨arities, harities⟩, ⟨ws, hws, hcs⟩, hacyclic⟩
    have hctx : t.lowering = ⟨t.imports, fun name => arities.lookup name⟩ :=
      congrArg (LoweringContext.mk t.imports) (funext (arity_of_parts harities hws hcs))
    rw [hctx] at hws hcs
    rw [build_of_parts himports harities hws hcs, show (⟨t.classes, t.imports, t.natives⟩ :
      ClassTable F) = t from rfl, hacyclic]
    rfl

variable (h : build p natives = .ok t)

include h

theorem natives_of_build : t.natives = natives := (build_ok_iff.1 h).1

theorem imports_of_build : ImportTable.build p natives = .ok t.imports := (build_ok_iff.1 h).2.1

theorem mem_classes_cases {c : Template F} (hc : c ∈ t.classes) :
    (∃ q : Primitive, c = .ofPrimitive q) ∨
    (∃ n ∈ natives.classes, nativeTemplate t.lowering n = .ok c) ∨
    ∃ d ∈ p.classes, declaredTemplate t.lowering d = .ok c := by
  obtain ⟨-, -, -, ⟨ws, hws, hcs⟩, -⟩ := build_ok_iff.1 h
  rcases mem_putAll hcs hc with hm | ⟨d, hd, hmake⟩
  · rcases mem_putAll hws hm with hm | ⟨n, hn, hmake⟩
    · simp only [primitiveTemplates_eq, List.mem_cons, List.not_mem_nil, or_false] at hm
      rcases hm with rfl | rfl | rfl
      · exact .inl ⟨.boolean, rfl⟩
      · exact .inl ⟨.float, rfl⟩
      · exact .inl ⟨.int, rfl⟩
    · exact .inr (.inl ⟨n, hn, hmake⟩)
  · exact .inr (.inr ⟨d, hd, hmake⟩)

theorem nodup_declared : (p.classes.map fun d => d.name.name).Nodup := by
  obtain ⟨-, -, ⟨arities, ha⟩, -, -⟩ := build_ok_iff.1 h
  exact (declaredArities_ok ha).2.1

/-- A declared class goes by the name of no native class and of no primitive. -/
theorem declared_fresh {d : ClassDecl} (hd : d ∈ p.classes) :
    (∀ c ∈ natives.classes, c.fullName ≠ d.name.name) ∧ ∀ q : Primitive, q.name ≠ d.name.name := by
  obtain ⟨-, -, ⟨arities, ha⟩, -, -⟩ := build_ok_iff.1 h
  have hnone := (declaredArities_ok ha).2.2 d hd
  rw [List.lookup_eq_none_iff] at hnone
  have hkey : ∀ k, (∃ n, (k, n) ∈ knownArities natives) → k ≠ d.name.name := by
    rintro k ⟨n, hm⟩ rfl
    simpa using hnone _ hm
  refine ⟨fun c hc => hkey _ ⟨c.generics.length, ?_⟩, fun q => hkey _ ⟨0, ?_⟩⟩
  · exact List.mem_append_left _ (List.mem_reverse.mpr (List.mem_map.mpr ⟨c, hc, rfl⟩))
  · refine List.mem_append_right _ (List.mem_map.mpr ⟨q, ?_, rfl⟩)
    cases q <;> decide

/-- A declared class has the template of its declaration. -/
theorem get?_declared {d : ClassDecl} (hd : d ∈ p.classes) :
    ∃ c, declaredTemplate t.lowering d = .ok c ∧ t.get? d.name.name = some c := by
  obtain ⟨-, -, -, ⟨ws, -, hcs⟩, -⟩ := build_ok_iff.1 h
  exact findIn_putAll_of_mem name_declaredTemplate hcs (nodup_declared h) d hd

/-- A native class has its own template, if native names are different. -/
theorem get?_native (hnd : (natives.classes.map NativeClass.fullName).Nodup) {n : NativeClass F}
    (hn : n ∈ natives.classes) :
    ∃ c, nativeTemplate t.lowering n = .ok c ∧ t.get? n.fullName = some c := by
  obtain ⟨-, -, -, ⟨ws, hws, hcs⟩, -⟩ := build_ok_iff.1 h
  obtain ⟨c, hc, hfind⟩ := findIn_putAll_of_mem name_nativeTemplate hws hnd n hn
  refine ⟨c, hc, ?_⟩
  rw [get?_eq_findIn, findIn_putAll_of_notMem name_declaredTemplate hcs, hfind]
  intro hm
  obtain ⟨d, hd, heq⟩ := List.mem_map.mp hm
  exact (declared_fresh h hd).1 n hn heq.symm

/-- A primitive has its own template, if no native class takes its name. -/
theorem get?_primitive (q : Primitive) (hq : ∀ c ∈ natives.classes, c.fullName ≠ q.name) :
    t.get? q.name = some (.ofPrimitive q) := by
  obtain ⟨-, -, -, ⟨ws, hws, hcs⟩, -⟩ := build_ok_iff.1 h
  rw [get?_eq_findIn, findIn_putAll_of_notMem name_declaredTemplate hcs,
    findIn_putAll_of_notMem name_nativeTemplate hws]
  · cases q <;> rfl
  · intro hm
    obtain ⟨c, hc, heq⟩ := List.mem_map.mp hm
    exact hq c hc heq
  · intro hm
    obtain ⟨d, hd, heq⟩ := List.mem_map.mp hm
    exact (declared_fresh h hd).2 q heq.symm

/-- What a name stands for has a number of parameters. -/
theorem arity?_of_resolve? {name full : String} (hf : t.imports.resolve? name = some full) :
    ∃ n, t.arity? full = some n := by
  obtain ⟨-, himports, ⟨arities, ha⟩, ⟨ws, hws, hcs⟩, -⟩ := build_ok_iff.1 h
  have hnative : ∀ c ∈ natives.classes, c.fullName ∈ arities.map Prod.fst := by
    intro c hc
    rw [(declaredArities_ok ha).1]
    exact List.mem_map.mpr ⟨(c.fullName, c.generics.length), List.mem_append_right _
      (List.mem_append_left _ (List.mem_reverse.mpr (List.mem_map.mpr ⟨c, hc, rfl⟩))), rfl⟩
  have hkey : full ∈ arities.map Prod.fst := by
    rcases ImportTable.resolve?_cases himports hf with
      ⟨rfl, ⟨c, hc, rfl⟩ | ⟨d, hd, rfl⟩⟩ | ⟨q, rfl⟩ | ⟨c, hc, rfl⟩
    · exact hnative c hc
    · rw [(declaredArities_ok ha).1]
      exact List.mem_map.mpr ⟨(d.name.name, d.generics.length), List.mem_append_left _
        (List.mem_reverse.mpr (List.mem_map.mpr ⟨d, hd, rfl⟩)), rfl⟩
    · rw [(declaredArities_ok ha).1]
      refine List.mem_map.mpr ⟨(q.name, 0), List.mem_append_right _ (List.mem_append_right _
        (List.mem_map.mpr ⟨q, ?_, rfl⟩)), rfl⟩
      cases q <;> decide
    · exact hnative c hc
  have hsome := isSome_lookup_iff.mpr hkey
  obtain ⟨n, hn⟩ := Option.isSome_iff_exists.mp hsome
  exact ⟨n, (arity_of_parts ha hws hcs full).trans hn⟩

end Middleweight.ClassTable
