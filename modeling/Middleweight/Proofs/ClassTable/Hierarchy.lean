import Middleweight.Native.Standard
import Middleweight.Proofs.ClassTable.Build
import Middleweight.Proofs.ClassTable.Cycles
import Middleweight.Proofs.Types.Formed
import Middleweight.Syntax.Build

/-!
# When a class table can be built

A program resolves when its imports name something, its class names are new, and its `extends`
clauses and field types lower. All that can then go wrong is that bases lead back, and which class
has which base is known from the `extends` clauses alone.

* `ClassTable.build_of_resolves` : what is left of a build is the check for cycles
* `ClassTable.baseName?_of_parts` : bases are the ones written
* `ClassTable.build_hierarchy` : which programs have a table, and what hierarchy it has
-/

namespace Middleweight

variable {F : Type}

/-! ## What is written -/

/-- The name of the base class that a class has by its `extends` clause. -/
def ImportTable.baseOf (imports : ImportTable) (className : String) :
    Option TypeExpr → Option String
  | none => if className = Ty.objectName then none else some Ty.objectName
  | some e => imports.resolve? e.name

namespace Program

/-- The `extends` clauses of all classes by name, the latest first. -/
def extendsClauses (natives : NativeRegistry F) (p : Program) : List (String × Option TypeExpr) :=
  (p.classes.map fun d => (d.name.name, d.base)).reverse ++
    ((natives.classes.map fun c => (c.fullName, c.base)).reverse ++
      Primitive.all.map fun q => (q.name, none))

/-- The bases of all classes, as their `extends` clauses give them. -/
def bases (natives : NativeRegistry F) (p : Program) (imports : ImportTable) : Bases := fun name =>
  ((p.extendsClauses natives).lookup name).bind (imports.baseOf name)

/-- The numbers of parameters of all classes. -/
def arities (natives : NativeRegistry F) (p : Program) : ClassTable.Arities :=
  (p.classes.map fun d => (d.name.name, d.generics.length)).reverse ++
    ClassTable.knownArities natives

/-- What the classes of a program lower their types with. -/
def lowering (natives : NativeRegistry F) (p : Program) (imports : ImportTable) : LoweringContext :=
  ⟨imports, fun name => (p.arities natives).lookup name⟩

end Program

/-- An `extends` clause names no parameter of its class and lowers, if there is one. -/
def LoweringContext.Admits (ctx : LoweringContext) (generics : List String)
    (clause : Option TypeExpr) : Prop :=
  ∀ e, clause = some e →
    e.name ∉ generics ∧ ∃ ty, ctx.lower (TypeParams.unbound generics) e = .ok ty

/-- Imports name something, class names are new, `extends` clauses and field types lower. -/
structure Program.Resolves (natives : NativeRegistry F) (p : Program) (imports : ImportTable) :
    Prop where
  resolved : ImportTable.build p natives = .ok imports
  unique : (p.classes.map fun d => d.name.name).Nodup
  notNative : ∀ d ∈ p.classes, ∀ c ∈ natives.classes, c.fullName ≠ d.name.name
  notPrimitive : ∀ d ∈ p.classes, ∀ q : Primitive, q.name ≠ d.name.name
  declared : ∀ d ∈ p.classes,
    (p.lowering natives imports).Admits (d.generics.map Identifier.name) d.base
  native : ∀ c ∈ natives.classes, (p.lowering natives imports).Admits c.generics c.base
  fields : ∀ d ∈ p.classes, ∀ f ∈ d.fields, ∃ ty, (p.lowering natives imports).lower
    (TypeParams.unbound (d.generics.map Identifier.name)) f.ty = .ok ty

/-! ## Checking that a program resolves -/

instance decidableIsOk {ε α : Type} (x : Except ε α) : Decidable (∃ a, x = .ok a) :=
  match x with
  | .ok a => isTrue ⟨a, rfl⟩
  | .error _ => isFalse fun ⟨_, h⟩ => nomatch h

instance decidableEqOk {ε α : Type} [DecidableEq α] (x : Except ε α) (a : α) :
    Decidable (x = .ok a) :=
  match x with
  | .ok b => decidable_of_iff (b = a) ⟨congrArg Except.ok, Except.ok.inj⟩
  | .error _ => isFalse fun h => nomatch h

deriving instance DecidableEq for ImportTable

instance (ctx : LoweringContext) (generics : List String) (clause : Option TypeExpr) :
    Decidable (ctx.Admits generics clause) :=
  match clause with
  | none => isTrue fun _ h => nomatch h
  | some e =>
    decidable_of_iff (e.name ∉ generics ∧ ∃ ty, ctx.lower (TypeParams.unbound generics) e = .ok ty)
      ⟨fun h _ he => Option.some.inj he ▸ h, fun h => h e rfl⟩

instance (natives : NativeRegistry F) (p : Program) (imports : ImportTable) :
    Decidable (p.Resolves natives imports) :=
  decidable_of_iff
    (ImportTable.build p natives = .ok imports ∧ (p.classes.map fun d => d.name.name).Nodup ∧
      (∀ d ∈ p.classes, ∀ c ∈ natives.classes, c.fullName ≠ d.name.name) ∧
      (∀ d ∈ p.classes, ∀ q ∈ Primitive.all, q.name ≠ d.name.name) ∧
      (∀ d ∈ p.classes,
        (p.lowering natives imports).Admits (d.generics.map Identifier.name) d.base) ∧
      (∀ c ∈ natives.classes, (p.lowering natives imports).Admits c.generics c.base) ∧
      ∀ d ∈ p.classes, ∀ f ∈ d.fields, ∃ ty, (p.lowering natives imports).lower
        (TypeParams.unbound (d.generics.map Identifier.name)) f.ty = .ok ty)
    ⟨fun ⟨hi, hu, hn, hp, hd, hc, hf⟩ =>
        ⟨hi, hu, hn, fun d hd q => hp d hd q (by cases q <;> decide), hd, hc, hf⟩,
      fun h => ⟨h.resolved, h.unique, h.notNative, fun d hd q _ => h.notPrimitive d hd q, h.declared,
        h.native, h.fields⟩⟩

/-! ## Bases and fields lower -/

namespace LoweringContext

variable {ctx : LoweringContext} {className : String} {generics : List String}

theorem Admits.lowerBase_ok {clause : Option TypeExpr} (h : ctx.Admits generics clause)
    (className : String) :
    ∃ base, ctx.lowerBase className (TypeParams.unbound generics) clause = .ok base := by
  cases clause with
  | none => exact ⟨_, rfl⟩
  | some e =>
    obtain ⟨hname, ty, hty⟩ := h e rfl
    have hget := TypeParams.get?_unbound_of_notMem hname
    rw [lower_eq_lowerClass ctx hget] at hty
    obtain ⟨c, hc, -⟩ := ok_of_map hty
    refine ⟨some c, ?_⟩
    rw [lowerBase, hget, hc]
    rfl

/-- What an `extends` clause lowers to: the class type that the written type lowers to. -/
theorem lowerBase_some {e : TypeExpr} {base : Option ClassTy}
    (h : ctx.lowerBase className (TypeParams.unbound generics) (some e) = .ok base) :
    ∃ c, base = some c ∧ ctx.imports.resolve? e.name = some c.name ∧
      ctx.lower (TypeParams.unbound generics) e = .ok c.toTy := by
  rw [lowerBase] at h
  split at h
  · cases h
  · next hget =>
    obtain ⟨c, hc, rfl⟩ := ok_of_map h
    refine ⟨c, rfl, (formed_lowerClass hc).1, ?_⟩
    rw [lower_eq_lowerClass ctx hget, hc]
    rfl

theorem name_lowerBase {clause : Option TypeExpr} {base : Option ClassTy}
    (h : ctx.lowerBase className (TypeParams.unbound generics) clause = .ok base) :
    base.map ClassTy.name = ctx.imports.baseOf className clause := by
  cases clause with
  | none =>
    cases h
    by_cases hobject : className = Ty.objectName
    · simp [ImportTable.baseOf, hobject]
    · simp [ImportTable.baseOf, hobject]
  | some e =>
    obtain ⟨c, rfl, hres, -⟩ := lowerBase_some h
    exact hres.symm

end LoweringContext

namespace ClassTable

variable {t : ClassTable F} {p : Program} {natives : NativeRegistry F} {imports : ImportTable}

/-- Fields lower one by one. -/
theorem lowerFields_ok_iff {ctx : LoweringContext} {params : TypeParams} :
    ∀ {ds : List FieldDecl} {fs : List FieldTemplate}, lowerFields ctx params ds = .ok fs ↔
    List.Forall₂ (fun d f => f.name = d.name.name ∧ f.span = d.span ∧
      ctx.lower params d.ty = .ok f.ty) ds fs := by
  intro ds
  induction ds with
  | nil =>
    intro fs
    rw [lowerFields, List.forall₂_nil_left_iff]
    exact ⟨fun h => (Except.ok.inj h).symm, fun h => h ▸ rfl⟩
  | cons d rest ih =>
    intro fs
    constructor
    · intro h
      rw [lowerFields] at h
      split at h
      · cases h
      · next ty hty =>
        split at h
        · cases h
        · next fs' hfs =>
          cases h
          exact .cons ⟨rfl, rfl, hty⟩ (ih.mp hfs)
    · rintro (_ | @⟨_, f, _, fs', ⟨hname, hspan, hty⟩, hrest⟩)
      rw [lowerFields, hty, ih.mpr hrest, ← hname, ← hspan]

theorem lowerFields_ok {ctx : LoweringContext} {params : TypeParams} {ds : List FieldDecl}
    (h : ∀ d ∈ ds, ∃ ty, ctx.lower params d.ty = .ok ty) :
    ∃ fs, lowerFields ctx params ds = .ok fs := by
  induction ds with
  | nil => exact ⟨[], rfl⟩
  | cons d rest ih =>
    obtain ⟨ty, hty⟩ := h d List.mem_cons_self
    obtain ⟨fs, hfs⟩ := ih fun e he => h e (List.mem_cons_of_mem _ he)
    exact ⟨⟨d.name.name, ty, d.span⟩ :: fs, by rw [lowerFields, hty, hfs]⟩

/-! ## The parts of a table -/

theorem declaredArities_eq : ∀ {ds : List ClassDecl} {known : Arities},
    (ds.map fun d => d.name.name).Nodup → (∀ d ∈ ds, known.lookup d.name.name = none) →
    declaredArities known ds =
      .ok ((ds.map fun d => (d.name.name, d.generics.length)).reverse ++ known) := by
  intro ds
  induction ds with
  | nil => exact fun _ _ => rfl
  | cons d rest ih =>
    intro known hnd hnew
    rw [List.map_cons, List.nodup_cons] at hnd
    have hrest : ∀ e ∈ rest,
        ((d.name.name, d.generics.length) :: known).lookup e.name.name = none := by
      intro e he
      have hne : (e.name.name == d.name.name) = false :=
        beq_eq_false_iff_ne.mpr fun heq => hnd.1 (List.mem_map.mpr ⟨e, he, heq⟩)
      rw [List.lookup_cons, hne]
      exact hnew e (List.mem_cons_of_mem _ he)
    rw [declaredArities, hnew d List.mem_cons_self, ih hnd.2 hrest]
    simp

theorem putAll_ok {α : Type} {make : α → Except TypeError (Template F)} : ∀ {as : List α}
    {cs : List (Template F)}, (∀ a ∈ as, ∃ c, make a = .ok c) →
    ∃ cs', putAll make cs as = .ok cs' := by
  intro as
  induction as with
  | nil => exact fun _ => ⟨_, rfl⟩
  | cons a rest ih =>
    intro cs h
    obtain ⟨c, hc⟩ := h a List.mem_cons_self
    rw [putAll, hc]
    exact ih fun b hb => h b (List.mem_cons_of_mem _ hb)

/-- The check for cycles fails at the first class from which bases lead back. -/
theorem checkAcyclic_error_iff {e : TypeError} : ∀ {ds : List ClassDecl},
    t.checkAcyclic ds = .error e ↔ ∃ before d after, ds = before ++ d :: after ∧
      (∀ b ∈ before, ¬ Bases.Revisits t.baseName? b.name.name) ∧
      Bases.Revisits t.baseName? d.name.name ∧ e = .inheritanceCycle d.name.name d.name.span := by
  intro ds
  induction ds with
  | nil =>
    refine ⟨fun h => (nomatch h), ?_⟩
    rintro ⟨before, d, after, h, -⟩
    cases before <;> cases h
  | cons c rest ih =>
    rw [checkAcyclic]
    split
    · next hc =>
      rw [revisits_iff] at hc
      constructor
      · intro h
        cases h
        exact ⟨[], c, rest, rfl, by simp, hc, rfl⟩
      · rintro ⟨before, d, after, hsplit, hbefore, hd, rfl⟩
        cases before with
        | nil =>
          cases hsplit
          rfl
        | cons b before =>
          cases hsplit
          exact absurd hc (hbefore c List.mem_cons_self)
    · next hc =>
      rw [revisits_iff] at hc
      rw [ih]
      constructor
      · rintro ⟨before, d, after, rfl, hbefore, hd, rfl⟩
        exact ⟨c :: before, d, after, rfl, List.forall_mem_cons.mpr ⟨hc, hbefore⟩, hd, rfl⟩
      · rintro ⟨before, d, after, hsplit, hbefore, hd, rfl⟩
        cases before with
        | nil =>
          cases hsplit
          exact absurd hd hc
        | cons b before =>
          cases hsplit
          exact ⟨before, d, after, rfl, fun e he => hbefore e (List.mem_cons_of_mem _ he), hd, rfl⟩

/-- The bases of the classes of a table are the ones that their `extends` clauses name. -/
theorem baseName?_of_parts {ctx : LoweringContext} {ws : List (Template F)}
    (hws : putAll (nativeTemplate ctx) primitiveTemplates natives.classes = .ok ws)
    (hcs : putAll (declaredTemplate ctx) ws p.classes = .ok t.classes) :
    t.baseName? = p.bases natives ctx.imports := by
  have hdeclared : ∀ (d : ClassDecl) (tm : Template F), declaredTemplate ctx d = .ok tm →
      tm.base.map ClassTy.name = ctx.imports.baseOf d.name.name d.base := by
    intro d tm h
    obtain ⟨base, fields, hbase, -, rfl⟩ := declaredTemplate_ok h
    exact LoweringContext.name_lowerBase hbase
  have hnative : ∀ (c : NativeClass F) (tm : Template F), nativeTemplate ctx c = .ok tm →
      tm.base.map ClassTy.name = ctx.imports.baseOf c.fullName c.base := by
    intro c tm h
    obtain ⟨base, hbase, rfl⟩ := nativeTemplate_ok h
    exact LoweringContext.name_lowerBase hbase
  have hprimitive : ∀ q : Primitive, ((Template.ofPrimitive q : Template F).base.map ClassTy.name) =
      ctx.imports.baseOf q.name none := by
    intro q
    cases q <;> rfl
  -- Templates are put over the earlier ones of their name, as clauses are looked up latest first.
  funext name
  have hlookup : (t.get? name).map (fun c => c.base.map ClassTy.name) =
      ((p.extendsClauses natives).lookup name).map (ctx.imports.baseOf name) := by
    rw [get?_eq_findIn, map_findIn_putAll name_declaredTemplate hdeclared name hcs,
      map_findIn_putAll name_nativeTemplate hnative name hws, map_findIn_primitives hprimitive,
      ← lookup_map_snd, Program.extendsClauses, List.map_append, List.map_append, List.map_reverse,
      List.map_reverse, List.map_map, List.map_map, List.map_map, List.lookup_append,
      List.lookup_append]
    rfl
  have hbind : t.baseName? name = (t.get? name).bind fun c => c.base.map ClassTy.name := by
    unfold baseName?
    cases t.get? name <;> rfl
  rw [hbind, Program.bases]
  cases hl : (p.extendsClauses natives).lookup name with
  | none =>
    rw [hl, Option.map_none, Option.map_eq_none_iff] at hlookup
    rw [hlookup]
    rfl
  | some clause =>
    rw [hl, Option.map_some, Option.map_eq_some_iff] at hlookup
    obtain ⟨c, hc, hbase⟩ := hlookup
    rw [hc]
    exact hbase

/-- Of the classes of a program that resolves, all have templates; the check for cycles is left. -/
theorem build_of_resolves (h : p.Resolves natives imports) : ∃ t : ClassTable F,
    t.imports = imports ∧ t.lowering = p.lowering natives imports ∧
    (∃ ws, putAll (nativeTemplate t.lowering) primitiveTemplates natives.classes = .ok ws ∧
      putAll (declaredTemplate t.lowering) ws p.classes = .ok t.classes) ∧
    build p natives = (t.checkAcyclic p.classes).map fun _ => t := by
  have hfresh : ∀ d ∈ p.classes, (knownArities natives).lookup d.name.name = none := by
    intro d hd
    refine List.lookup_eq_none_iff.mpr fun e he => ?_
    rcases List.mem_append.mp he with he | he
    · obtain ⟨c, hc, rfl⟩ := List.mem_map.mp (List.mem_reverse.mp he)
      simpa using (h.notNative d hd c hc).symm
    · obtain ⟨q, -, rfl⟩ := List.mem_map.mp he
      simpa using (h.notPrimitive d hd q).symm
  have harities : declaredArities (knownArities natives) p.classes = .ok (p.arities natives) :=
    declaredArities_eq h.unique hfresh
  obtain ⟨ws, hws⟩ : ∃ ws : List (Template F), putAll (nativeTemplate (p.lowering natives imports))
      primitiveTemplates natives.classes = .ok ws := by
    refine putAll_ok fun c hc => ?_
    obtain ⟨base, hbase⟩ := (h.native c hc).lowerBase_ok c.fullName
    exact ⟨_, by rw [nativeTemplate, hbase]⟩
  obtain ⟨cs, hcs⟩ : ∃ cs : List (Template F), putAll (declaredTemplate (p.lowering natives imports))
      ws p.classes = .ok cs := by
    refine putAll_ok fun d hd => ?_
    obtain ⟨base, hbase⟩ := (h.declared d hd).lowerBase_ok d.name.name
    obtain ⟨fields, hfields⟩ := lowerFields_ok (h.fields d hd)
    exact ⟨_, declaredTemplate_eq hbase hfields⟩
  have hctx : (⟨cs, imports, natives⟩ : ClassTable F).lowering = p.lowering natives imports :=
    congrArg (LoweringContext.mk imports) (funext (arity_of_parts harities hws hcs))
  refine ⟨⟨cs, imports, natives⟩, rfl, hctx,
    ⟨ws, by rw [hctx]; exact hws, by rw [hctx]; exact hcs⟩, ?_⟩
  exact build_of_parts h.resolved harities hws hcs

/-! ## The hierarchy of a table -/

section Built

variable (h : build p natives = .ok t)

include h

/-- Only the root class has no base. -/
theorem name_of_base_none {name : String} {c : Template F} (hc : t.get? name = some c)
    (hb : c.base = none) : name = Ty.objectName := by
  have hnone : ∀ {generics : List String} {clause : Option TypeExpr},
      t.lowering.lowerBase name (TypeParams.unbound generics) clause = .ok none →
      name = Ty.objectName := by
    intro generics clause hbase
    cases clause with
    | none =>
      rw [LoweringContext.lowerBase] at hbase
      split at hbase
      · assumption
      · cases hbase
    | some e =>
      obtain ⟨_, hsome, -⟩ := LoweringContext.lowerBase_some hbase
      cases hsome
  rw [← get?_name hc] at hnone ⊢
  rcases mem_classes_cases h (get?_mem hc) with ⟨q, rfl⟩ | ⟨n, -, hmade⟩ | ⟨d, -, hmade⟩
  · cases hb
  · obtain ⟨base, hbase, rfl⟩ := nativeTemplate_ok hmade
    cases hb
    exact hnone hbase
  · obtain ⟨base, fields, hbase, -, rfl⟩ := declaredTemplate_ok hmade
    cases hb
    exact hnone hbase

/-- The base of a class is the root class or a formed type. -/
theorem formed_of_base {name : String} {c : Template F} {base : ClassTy}
    (hc : t.get? name = some c) (hb : c.base = some base) :
    base = ⟨Ty.objectName, []⟩ ∨ base.toTy.Formed t.arity? c.generics := by
  have hsome : ∀ {className : String} {generics : List String} {clause : Option TypeExpr},
      t.lowering.lowerBase className (TypeParams.unbound generics) clause = .ok (some base) →
      base = ⟨Ty.objectName, []⟩ ∨ base.toTy.Formed t.arity? generics := by
    intro className generics clause hbase
    cases clause with
    | none =>
      rw [LoweringContext.lowerBase] at hbase
      split at hbase
      · cases hbase
      · cases hbase
        exact .inl rfl
    | some e =>
      obtain ⟨_, heq, -, hlower⟩ := LoweringContext.lowerBase_some hbase
      cases heq
      exact .inr (LoweringContext.formed_lower hlower)
  rcases mem_classes_cases h (get?_mem hc) with ⟨q, rfl⟩ | ⟨n, -, hmade⟩ | ⟨d, -, hmade⟩
  · cases hb
    exact .inl rfl
  · obtain ⟨base', hbase, rfl⟩ := nativeTemplate_ok hmade
    cases hb
    exact hsome hbase
  · obtain ⟨base', fields, hbase, -, rfl⟩ := declaredTemplate_ok hmade
    cases hb
    exact hsome hbase

/-- The last name on a walk from a class is the root class. -/
theorem getLast?_of_ascends {name : String} {l : List String}
    (hl : Bases.Ascends t.baseName? name l)
    (hname : name = Ty.objectName ∨ ∃ c, t.get? name = some c) :
    l.getLast? = some Ty.objectName := by
  induction hl with
  | @last a ha =>
    rcases hname with rfl | ⟨c, hc⟩
    · rfl
    · have hb : c.base = none := by
        simpa [baseName?, hc] using ha
      rw [name_of_base_none h hc hb]
      rfl
  | @step a b rest ha hrest ih =>
    rw [List.getLast?_cons, ih ?_]
    · rfl
    · obtain ⟨base, hbase, rfl⟩ := Option.map_eq_some_iff.mp ha
      obtain ⟨c, hc, hcb⟩ := Option.bind_eq_some_iff.mp hbase
      rcases formed_of_base h hc hcb with rfl | hformed
      · exact .inl rfl
      · obtain ⟨tm, htm, -⟩ := Option.map_eq_some_iff.mp (Ty.formed_cls.mp hformed).1
        exact .inr ⟨tm, htm⟩

end Built

/-- What the table of a program says of a declared class. -/
structure Places (t : ClassTable F) (bases : Bases) (d : ClassDecl) : Prop where
  nodup : (t.ancestors d.name.name).Nodup
  starts : (t.ancestors d.name.name).head? = some d.name.name
  climbs : (t.ancestors d.name.name).IsChain bases.Step
  ends : (t.ancestors d.name.name).getLast? = some Ty.objectName
  formed : ∃ c, t.get? d.name.name = some c ∧ c.generics = d.generics.map Identifier.name ∧
    (∀ e, d.base = some e → ∃ base, c.base = some base ∧
      t.lower (TypeParams.unbound c.generics) e = .ok base.toTy ∧
      base.toTy.Formed t.arity? c.generics) ∧
    List.Forall₂ (fun f g => g.name = f.name.name ∧
      t.lower (TypeParams.unbound c.generics) f.ty = .ok g.ty ∧
      g.ty.Formed t.arity? c.generics) d.fields c.fields

/-- From a declared class bases come to an end. -/
theorem ascends_of_declared (h : build p natives = .ok t) {d : ClassDecl} (hd : d ∈ p.classes) :
    ∃ l, Bases.Ascends t.baseName? d.name.name l := by
  refine (t.ascends_or_revisits _).resolve_right fun hrev => ?_
  have hfalse := checkAcyclic_ok_iff.mp (build_ok_iff.mp h).2.2.2.2 d hd
  rw [revisits_iff.mpr hrev] at hfalse
  cases hfalse

theorem places_of_build (h : build p natives = .ok t)
    (hbases : t.baseName? = p.bases natives t.imports)
    {d : ClassDecl} (hd : d ∈ p.classes) : t.Places (p.bases natives t.imports) d := by
  obtain ⟨c, hmade, hc⟩ := get?_declared h hd
  obtain ⟨l, hl⟩ := ascends_of_declared h hd
  have hancestors := ancestors_of_ascends hl
  obtain ⟨base, fields, hbase, hfields, rfl⟩ := declaredTemplate_ok hmade
  refine ⟨?_, ?_, ?_, ?_, _, hc, rfl, ?_, ?_⟩
  · rw [hancestors]
    exact hl.nodup
  · rw [hancestors]
    exact hl.head?_eq
  · rw [hancestors, ← hbases]
    exact hl.isChain
  · rw [hancestors]
    exact getLast?_of_ascends h hl (.inr ⟨_, hc⟩)
  · intro e he
    rw [he] at hbase
    obtain ⟨b, rfl, -, hlower⟩ := LoweringContext.lowerBase_some hbase
    exact ⟨b, rfl, hlower, LoweringContext.formed_lower hlower⟩
  · exact (lowerFields_ok_iff.mp hfields).imp fun f g hg =>
      ⟨hg.1, hg.2.2, LoweringContext.formed_lower hg.2.2⟩

/--
The table of a program that resolves. There is none exactly if following bases from some declared
class comes back to a class, and then the first such class is the one refused. Otherwise the
ancestors of each declared class lead from it to the root class, each the base of the one before and
none twice, and its base and the types of its fields are formed over its own parameters and the
classes of the table.
-/
theorem build_hierarchy (h : p.Resolves natives imports) :
    ((∃ e, build p natives = .error e) ↔
      ∃ d ∈ p.classes, (p.bases natives imports).Revisits d.name.name) ∧
    (∀ e, build p natives = .error e → ∃ before d after, p.classes = before ++ d :: after ∧
      (∀ b ∈ before, ¬ (p.bases natives imports).Revisits b.name.name) ∧
      (p.bases natives imports).Revisits d.name.name ∧
      e = .inheritanceCycle d.name.name d.name.span) ∧
    ∀ t, build p natives = .ok t → ∀ d ∈ p.classes, t.Places (p.bases natives imports) d := by
  -- All that can go wrong once names resolve is the check for cycles of one table `t`.
  obtain ⟨t, rfl, hctx, ⟨ws, hws, hcs⟩, hbuild⟩ := build_of_resolves h
  have hbases : t.baseName? = p.bases natives t.imports := baseName?_of_parts hws hcs
  have herror : ∀ e, build p natives = .error e → t.checkAcyclic p.classes = .error e := by
    intro e he
    rw [hbuild] at he
    cases hcheck : t.checkAcyclic p.classes with
    | error e' =>
      rw [hcheck] at he
      cases he
      rfl
    | ok u =>
      rw [hcheck] at he
      cases he
  have hfirst := fun e he => checkAcyclic_error_iff.mp (herror e he)
  rw [hbases] at hfirst
  refine ⟨⟨?_, ?_⟩, hfirst, ?_⟩
  · rintro ⟨e, he⟩
    obtain ⟨before, d, after, hsplit, -, hd, -⟩ := hfirst e he
    exact ⟨d, by rw [hsplit]; simp, hd⟩
  · rintro ⟨d, hd, hrev⟩
    cases hcheck : t.checkAcyclic p.classes with
    | error e => exact ⟨e, by rw [hbuild, hcheck]; rfl⟩
    | ok u =>
      have hfalse := checkAcyclic_ok_iff.mp hcheck d hd
      rw [← hbases] at hrev
      rw [revisits_iff.mpr hrev] at hfalse
      cases hfalse
  · intro t' ht'
    have heq : t' = t := by
      rw [hbuild] at ht'
      obtain ⟨-, -, rfl⟩ := ok_of_map ht'
      rfl
    subst heq
    exact fun d hd => places_of_build ht' hbases hd

open Build in
/-- A pair is a box of its second component, and keeps the first. -/
def boxesProgram : Program :=
  program
    [{ name := ident "Pair", generics := [ident "A", ident "B"], base := some (ty "Box<B>"),
       fields := [field "A" "first"] },
     { name := ident "Box", generics := [ident "T"], fields := [field "T" "held"] }]

open Build in
/-- A ring and a band extend each other, and a gem leads to them. -/
def ringProgram : Program :=
  program
    [{ name := ident "Main" }, { name := ident "Gem", base := some (ty "Ring") },
     { name := ident "Ring", base := some (ty "Band") },
     { name := ident "Band", base := some (ty "Ring") }]

/-- The import table of a program whose imports name something. -/
def importsOf (p : Program) : ImportTable :=
  (ImportTable.build p (.standard : NativeRegistry StandardFn)).toOption.getD {}

theorem build_hierarchy_boxes_ring :
    (∃ t, build boxesProgram .standard = .ok t ∧
      ∀ d ∈ boxesProgram.classes, t.Places (boxesProgram.bases .standard (importsOf boxesProgram)) d) ∧
    (ringProgram.bases .standard (importsOf ringProgram)).Revisits "Gem" ∧
    ∃ e, build ringProgram .standard = .error e := by
  have hpair : boxesProgram.Resolves .standard (importsOf boxesProgram) := by decide +kernel
  have hring : ringProgram.Resolves .standard (importsOf ringProgram) := by decide +kernel
  have hstep : ∀ e ∈ [("Gem", "Ring"), ("Ring", "Band"), ("Band", "Ring")],
      ringProgram.bases .standard (importsOf ringProgram) e.1 = some e.2 := by decide +kernel
  have hgem : (ringProgram.bases .standard (importsOf ringProgram)).Revisits "Gem" :=
    ⟨"Ring", .single (hstep ("Gem", "Ring") (by simp)),
      .tail (.single (hstep ("Ring", "Band") (by simp))) (hstep ("Band", "Ring") (by simp))⟩
  obtain ⟨t, ht⟩ : ∃ t, build boxesProgram .standard = .ok t := by decide +kernel
  exact ⟨⟨t, ht, (build_hierarchy hpair).2.2 t ht⟩, hgem,
    (build_hierarchy hring).1.mpr ⟨_, List.mem_cons_of_mem _ List.mem_cons_self, hgem⟩⟩

end ClassTable

end Middleweight
