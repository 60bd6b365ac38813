import Middleweight.Analysis.TypeCheck
import Middleweight.Proofs.Analysis.Expansion
import Middleweight.Proofs.Syntax.Renaming

/-!
# Tables of programs that follow a renaming

Programs that differ in the names of parameters of methods have tables that differ in the same way.
What one table tells of a type, the other tells of the renamed type: what it fits, which fields it
has, which of its members accept renamed arguments, and what these return, renamed.

* `LoweringContext.lower_concur` : written types that follow lower to renamed types
* `ClassTable.Renamed.check_eq` : what fits
* `ClassTable.Renamed.resolveMethod_concur`, `ClassTable.Renamed.resolveConstructor_concur` : calls
* `ClassTable.build_concur` : the tables of two programs
-/

namespace Middleweight

variable {F : Type} {σ : String → String}

/-! ## Lowering -/

namespace LoweringContext

variable {ctx : LoweringContext} {params : TypeParams} {g : List String}

mutual

/-- A written type that follows a renaming lowers to the renamed type. -/
theorem lower_concur (hσ : σ.Injective) (hp : params.Named g) : ∀ {e e' : TypeExpr},
    e.Follows σ g e' →
      Concur (fun a b => b = a.rename σ) (ctx.lower params e) (ctx.lower (params.rename σ) e')
  | ⟨n, args, span⟩, ⟨n', args', _⟩, .mk _ hname hargs => by
    rw [lower, lower]
    rcases hname with ⟨hn, heq⟩ | ⟨hn, heq, hn'⟩
    · obtain ⟨ty, hty⟩ := hp.exists_get? hn
      have hempty : args'.isEmpty = args.isEmpty := by cases hargs <;> rfl
      simp only [heq, TypeParams.get?_rename hσ, hty, Option.map_some, hempty]
      split
      · exact .ok rfl
      · exact .error _ _
    · have hclass : ctx.className ⟨n, args', span⟩ = ctx.className ⟨n, args, span⟩ := by
        unfold className
        simp only [hargs.length_eq]
      simp only [heq, hp.get?_eq_none hn, hp.rename.get?_eq_none hn', hclass]
      cases ctx.className ⟨n, args, span⟩ with
      | error e => exact .error e e
      | ok name =>
        rcases (lowerAll_concur hσ hp hargs).elim with ⟨e, e', h, h'⟩ | ⟨ts, ts', h, h', rfl⟩
        · simp only [h, h']
          exact .error e e'
        · simp only [h, h']
          exact .ok (Ty.rename_cls name ts).symm

theorem lowerAll_concur (hσ : σ.Injective) (hp : params.Named g) : ∀ {es es' : List TypeExpr},
    TypeExpr.AllFollow σ g es es' → Concur (fun a b => b = Ty.renameAll σ a)
      (ctx.lowerAll params es) (ctx.lowerAll (params.rename σ) es')
  | _, _, .nil => by
    rw [lowerAll, lowerAll]
    exact .ok Ty.renameAll_nil.symm
  | _, _, .cons h hrest => by
    rw [lowerAll, lowerAll]
    rcases (lower_concur hσ hp h).elim with ⟨e, e', h, h'⟩ | ⟨t, t', h, h', rfl⟩
    · simp only [h, h']
      exact .error e e'
    · simp only [h, h']
      rcases (lowerAll_concur hσ hp hrest).elim with ⟨e, e', h, h'⟩ | ⟨ts, ts', h, h', rfl⟩
      · simp only [h, h']
        exact .error e e'
      · simp only [h, h']
        exact .ok (Ty.renameAll_cons t ts).symm

end

/-- Parameters that `σ` leaves alone are in scope as before. -/
theorem rename_unbound_of_fixed (hg : ∀ n ∈ g, σ n = n) :
    (TypeParams.unbound g).rename σ = TypeParams.unbound g := by
  rw [TypeParams.rename_unbound, map_eq_self hg]

/-- Where all parameters in scope keep their names, types lower to types that stay. -/
theorem rename_of_lower (hσ : σ.Injective) (hg : ∀ n ∈ g, σ n = n) {e : TypeExpr} {ty : Ty}
    (h : ctx.lower (TypeParams.unbound g) e = .ok ty) : ty.rename σ = ty := by
  have hconcur : Concur (fun a b => b = a.rename σ) (ctx.lower (TypeParams.unbound g) e)
      (ctx.lower ((TypeParams.unbound g).rename σ) e) :=
    lower_concur hσ (TypeParams.named_unbound g) (TypeExpr.follows_of_fixed hg e)
  rw [rename_unbound_of_fixed hg, h] at hconcur
  cases hconcur with
  | ok heq => exact heq.symm

/-- So do lists of lowered types. -/
theorem renameAll_of_lowerAll (hσ : σ.Injective) (hg : ∀ n ∈ g, σ n = n) {es : List TypeExpr}
    {tys : List Ty} (h : ctx.lowerAll (TypeParams.unbound g) es = .ok tys) :
    Ty.renameAll σ tys = tys := by
  have hconcur : Concur (fun a b => b = Ty.renameAll σ a) (ctx.lowerAll (TypeParams.unbound g) es)
      (ctx.lowerAll ((TypeParams.unbound g).rename σ) es) :=
    lowerAll_concur hσ (TypeParams.named_unbound g) (TypeExpr.allFollow_of_fixed hg es)
  rw [rename_unbound_of_fixed hg, h] at hconcur
  cases hconcur with
  | ok heq => exact heq.symm

/-- The base of a class whose parameters keep their names stays. -/
theorem rename_of_lowerBase (hσ : σ.Injective) (hg : ∀ n ∈ g, σ n = n) {name : String}
    {e? : Option TypeExpr} {b : ClassTy}
    (h : ctx.lowerBase name (TypeParams.unbound g) e? = .ok (some b)) : b.rename σ = b := by
  cases e? with
  | none =>
    rw [lowerBase] at h
    split at h
    · cases h
    · cases h
      rw [ClassTy.rename, Ty.renameAll_nil]
  | some e =>
    rw [lowerBase] at h
    split at h
    · cases h
    · obtain ⟨b', hb, heq⟩ := ok_of_map h
      cases heq
      unfold lowerClass at hb
      split at hb
      · cases hb
      · split at hb
        · cases hb
        · next args hargs =>
          cases hb
          rw [ClassTy.rename, renameAll_of_lowerAll hσ hg hargs]

end LoweringContext

/-! ## Renamed members, classes and tables -/

/-- A member of a class with given parameters, and the same with other names for its own. -/
structure Member.Renamed (σ : String → String) (g : List String) (m m' : Member F) : Prop where
  name : m'.name = m.name
  isStatic : m'.isStatic = m.isStatic
  generics : m'.generics = m.generics.map σ
  params : List.Forall₂
    (fun a b => a.2.Follows σ ((if m.isStatic then [] else g) ++ m.generics) b.2)
    m.params m'.params
  returnType : Option.Rel (TypeExpr.Follows σ ((if m.isStatic then [] else g) ++ m.generics))
    m.returnType m'.returnType

/-- A class, and the same with other names for the parameters of its members; its own stay. -/
structure Template.Renamed (σ : String → String) (c c' : Template F) : Prop where
  name : c'.name = c.name
  generics : c'.generics = c.generics
  base : c'.base = c.base
  fields : c'.fields = c.fields
  origin : c'.origin = c.origin
  constructors : List.Forall₂ (Member.Renamed σ c.generics) c.constructors c'.constructors
  methods : List.Forall₂ (Member.Renamed σ c.generics) c.methods c'.methods
  fixed : ∀ n ∈ c.generics, σ n = n
  fixedBase : ∀ b ∈ c.base, b.rename σ = b
  fixedFields : ∀ f ∈ c.fields, f.ty.rename σ = f.ty

/-- A table, and the same with other names for the parameters of members. -/
structure ClassTable.Renamed (σ : String → String) (t t' : ClassTable F) : Prop where
  injective : σ.Injective
  imports : t'.imports = t.imports
  natives : t'.natives = t.natives
  get? : ∀ name, Option.Rel (Template.Renamed σ) (t.get? name) (t'.get? name)
  height_eq : t'.height = t.height

/--
A member without parameters of its own is its own renaming where `σ` leaves those of its class
alone.
-/
theorem Member.renamed_self {g : List String} (hg : ∀ n ∈ g, σ n = n) {m : Member F}
    (hm : m.generics = []) : m.Renamed σ g m := by
  have hfixed : ∀ n ∈ (if m.isStatic then [] else g) ++ m.generics, σ n = n := by
    intro n hn
    rw [hm, List.append_nil] at hn
    split at hn
    · cases hn
    · exact hg n hn
  refine ⟨rfl, rfl, by rw [hm]; rfl, List.forall₂_same.mpr fun a _ =>
    TypeExpr.follows_of_fixed hfixed a.2, ?_⟩
  cases m.returnType with
  | none => exact .none
  | some e => exact .some (TypeExpr.follows_of_fixed hfixed e)

/-- The methods of one name are renamed one by one, in order. -/
theorem Template.Renamed.methodsNamed {c c' : Template F} (h : c.Renamed σ c') (name : String)
    (isStatic : Bool) : List.Forall₂ (Member.Renamed σ c.generics) (c.methodsNamed name isStatic)
      (c'.methodsNamed name isStatic) := by
  unfold Template.methodsNamed
  have hm := h.methods
  generalize c.methods = ms, c'.methods = ms' at hm
  induction hm with
  | nil => exact .nil
  | @cons m m' rest rest' hmm _ ih =>
    rw [List.filter_cons, List.filter_cons, hmm.name, hmm.isStatic]
    split
    · exact .cons hmm ih
    · exact ih

namespace ClassTable

/-! ## What fits -/

mutual

/-- Fitting does not depend on the names of parameters. -/
theorem check_rename (t : ClassTable F) : ∀ candidate target : Ty,
    t.check (candidate.rename σ) (target.rename σ) = t.check candidate target
  | _, .unbound n => by rw [Ty.rename_unbound, check, check]
  | candidate, .bound n ty => by rw [Ty.rename_bound, check, check, check_rename t candidate ty]
  | candidate, .cls name args => by
    rw [Ty.rename_cls, check, check, Ty.head_rename]
    cases candidate.head with
    | cls n given => simp only [Ty.rename_cls, checkAll_renameAll t given args]
    | unbound n => rw [Ty.rename_unbound]
    | bound n ty => rw [Ty.rename_bound]

theorem checkAll_renameAll (t : ClassTable F) : ∀ candidates targets : List Ty,
    t.checkAll (Ty.renameAll σ candidates) (Ty.renameAll σ targets) = t.checkAll candidates targets
  | [], us => by rw [Ty.renameAll_nil, checkAll_nil_left, checkAll_nil_left]
  | _ :: _, [] => by rw [Ty.renameAll_nil, checkAll_nil, checkAll_nil]
  | c :: cs, u :: us => by
    rw [Ty.renameAll_cons, Ty.renameAll_cons, checkAll, checkAll, check_rename t c u,
      checkAll_renameAll t cs us]

end

namespace Renamed

variable {t t' : ClassTable F}

/-- Tables with the same imports whose classes are renamed one after the other. -/
theorem of_classes (hσ : σ.Injective) (himports : t'.imports = t.imports)
    (hnatives : t'.natives = t.natives)
    (hclasses : List.Forall₂ (Template.Renamed σ) t.classes t'.classes) : t.Renamed σ t' where
  injective := hσ
  imports := himports
  natives := hnatives
  get? name := by
    unfold ClassTable.get?
    generalize t.classes = cs, t'.classes = cs' at hclasses
    induction hclasses with
    | nil => exact .none
    | @cons c c' rest rest' hcc _ ih =>
      rw [List.find?_cons, List.find?_cons, hcc.name]
      split
      · exact .some hcc
      · exact ih
  height_eq := by
    unfold height
    rw [hclasses.length_eq]

variable (h : t.Renamed σ t')

include h

/-- A class is found in both tables or in neither, and one is the renaming of the other. -/
theorem template (name : String) (span : Span) :
    Concur (Template.Renamed σ) (t.template name span) (t'.template name span) := by
  unfold ClassTable.template
  rcases rel_elim (h.get? name) with ⟨h1, h2⟩ | ⟨c, c', h1, h2, hc⟩
  · rw [h1, h2]
    exact .error _ _
  · rw [h1, h2]
    exact .ok hc

/-- A renamed class has as many parameters. -/
theorem arity?_eq (name : String) : t'.arity? name = t.arity? name := by
  unfold arity?
  rcases rel_elim (h.get? name) with ⟨h1, h2⟩ | ⟨c, c', h1, h2, hc⟩
  · rw [h1, h2]
  · rw [h1, h2]
    simp only [Option.map_some, hc.generics]

/-- Lowering sees the same names and arities in both tables. -/
theorem lowering_eq : t'.lowering = t.lowering := by
  rw [lowering, lowering, h.imports, funext h.arity?_eq]

/-- A base clause names the same class, whatever its arguments. -/
theorem baseName?_eq (name : String) : t'.baseName? name = t.baseName? name := by
  unfold baseName?
  rcases rel_elim (h.get? name) with ⟨h1, h2⟩ | ⟨c, c', h1, h2, hc⟩
  · rw [h1, h2]
  · rw [h1, h2]
    simp only [Option.bind_some, hc.base]

/-- So the ancestors are the same. -/
theorem ancestors_eq (name : String) : t'.ancestors name = t.ancestors name :=
  ancestors_congr h.baseName?_eq h.height_eq name

/-- The check for cycles follows names only. -/
theorem checkAcyclic_eq {ds ds' : List ClassDecl}
    (hds : List.Forall₂ (fun d d' => d'.name = d.name ∧ d'.generics = d.generics) ds ds') :
    t'.checkAcyclic ds' = t.checkAcyclic ds := by
  induction hds with
  | nil => rfl
  | cons hd _ ih =>
    rw [checkAcyclic, checkAcyclic, h.height_eq, revisits_congr h.baseName?_eq, hd.1, ih]

/-- Renamed types fit each other as the types do. -/
theorem check_eq (candidate target : Ty) :
    t'.check (candidate.rename σ) (target.rename σ) = t.check candidate target := by
  rw [check_congr h.ancestors_eq, check_rename]

theorem checkAll_eq (candidates targets : List Ty) :
    t'.checkAll (Ty.renameAll σ candidates) (Ty.renameAll σ targets) =
      t.checkAll candidates targets := by
  rw [checkAll_congr h.ancestors_eq, checkAll_renameAll]

/-! ## Signatures -/

theorem lower_concur {params : TypeParams} {g : List String} (hp : params.Named g)
    {e e' : TypeExpr} (he : e.Follows σ g e') :
    Concur (fun a b => b = a.rename σ) (t.lower params e) (t'.lower (params.rename σ) e') := by
  rw [lower, lower, h.lowering_eq]
  exact LoweringContext.lower_concur h.injective hp he

/-- The types of renamed parameters are the renamed types. -/
theorem lowerParams_concur {params : TypeParams} {g : List String} (hp : params.Named g)
    {ps ps' : List (String × TypeExpr)}
    (hps : List.Forall₂ (fun a b => a.2.Follows σ g b.2) ps ps') :
    Concur (fun a b => b.map Param.ty = Ty.renameAll σ (a.map Param.ty)) (t.lowerParams params ps)
      (t'.lowerParams (params.rename σ) ps') := by
  induction hps with
  | nil => exact .ok Ty.renameAll_nil.symm
  | @cons a b rest rest' hab _ ih =>
    obtain ⟨n, e⟩ := a
    obtain ⟨n', e'⟩ := b
    rw [lowerParams, lowerParams]
    rcases (h.lower_concur hp hab).elim with ⟨e, e', h1, h2⟩ | ⟨ty, ty', h1, h2, rfl⟩
    · simp only [h1, h2]
      exact .error e e'
    · simp only [h1, h2]
      rcases ih.elim with ⟨e, e', h1, h2⟩ | ⟨qs, qs', h1, h2, hqs⟩
      · simp only [h1, h2]
        exact .error e e'
      · simp only [h1, h2]
        refine .ok ?_
        rw [List.map_cons, List.map_cons, Ty.renameAll_cons, hqs]

end Renamed

end ClassTable

/-- A signature, and the same with renamed types. -/
structure Signature.Renamed (σ : String → String) (s s' : Signature) : Prop where
  paramTypes : s'.paramTypes = Ty.renameAll σ s.paramTypes
  returnType : s'.returnType = s.returnType.map (Ty.rename σ)

namespace ClassTable.Renamed

variable {t t' : ClassTable F} (h : t.Renamed σ t')

include h

/-- The signature of a renamed member is the renamed signature. -/
theorem signature_concur {g : List String} {params : TypeParams} (hp : params.Named g)
    {m m' : Member F} (hm : m.Renamed σ g m') :
    Concur (Signature.Renamed σ) (t.signature m params) (t'.signature m' (params.rename σ)) := by
  have hmember : memberParams m' (params.rename σ) = (memberParams m params).rename σ := by
    unfold memberParams
    rw [hm.isStatic, hm.generics, TypeParams.rename_pushUnbound]
    split <;> rfl
  have hnamed : (memberParams m params).Named ((if m.isStatic then [] else g) ++ m.generics) := by
    unfold memberParams
    split
    · exact TypeParams.named_nil.pushUnbound m.generics
    · exact hp.pushUnbound m.generics
  unfold signature
  simp only [hmember]
  rcases (h.lowerParams_concur hnamed hm.params).elim with
    ⟨e, e', h1, h2⟩ | ⟨ps, ps', h1, h2, hps⟩
  · simp only [h1, h2]
    exact .error e e'
  · simp only [h1, h2]
    rcases rel_elim hm.returnType with ⟨h3, h4⟩ | ⟨e, e', h3, h4, he⟩
    · simp only [h3, h4]
      exact .ok ⟨hps, rfl⟩
    · simp only [h3, h4]
      rcases (h.lower_concur hnamed he).elim with ⟨e, e', h5, h6⟩ | ⟨ty, ty', h5, h6, rfl⟩
      · simp only [h5, h6]
        exact .error e e'
      · simp only [h5, h6]
        exact .ok ⟨hps, rfl⟩

theorem signatures_concur {g : List String} {params : TypeParams} (hp : params.Named g)
    {ms ms' : List (Member F)} (hms : List.Forall₂ (Member.Renamed σ g) ms ms') :
    Concur (List.Forall₂ fun a b => a.2.Renamed σ b.2) (t.signatures params ms)
      (t'.signatures (params.rename σ) ms') := by
  induction hms with
  | nil => exact .ok .nil
  | cons hm _ ih =>
    rw [signatures, signatures]
    rcases (h.signature_concur hp hm).elim with ⟨e, e', h1, h2⟩ | ⟨s, s', h1, h2, hs⟩
    · simp only [h1, h2]
      exact .error e e'
    · simp only [h1, h2]
      rcases ih.elim with ⟨e, e', h1, h2⟩ | ⟨ss, ss', h1, h2, hss⟩
      · simp only [h1, h2]
        exact .error e e'
      · simp only [h1, h2]
        exact .ok (.cons hs hss)

/-! ## Applicable members -/

/-- Renamed arguments bind the renamed parameters. -/
theorem applicable_eq {s s' : Signature} (hs : s.Renamed σ s') (args : List Ty) :
    t'.applicable s' (Ty.renameAll σ args) = (t.applicable s args).map (Bindings.rename σ) := by
  unfold applicable
  simp only [hs.paramTypes, Ty.length_renameAll, h.checkAll_eq, Bindings.infer_rename,
    Ty.substituteAll_renameAll h.injective]
  split
  · split <;> rfl
  · rfl

/-- A member that renamed arguments fit, and what they bind. -/
def Candidate (σ : String → String) (a b : Member F × Signature × Bindings) : Prop :=
  a.2.1.Renamed σ b.2.1 ∧ b.2.2 = a.2.2.rename σ

/-- The same members apply, with renamed bindings. -/
theorem applicables_candidate {cs cs' : List (Member F × Signature)}
    (hcs : List.Forall₂ (fun a b => a.2.Renamed σ b.2) cs cs') (args : List Ty) :
    List.Forall₂ (Candidate σ) (t.applicables cs args)
      (t'.applicables cs' (Ty.renameAll σ args)) := by
  unfold applicables
  induction hcs with
  | nil => exact .nil
  | @cons a b rest rest' hab _ ih =>
    obtain ⟨m, s⟩ := a
    obtain ⟨m', s'⟩ := b
    rw [List.filterMap_cons, List.filterMap_cons]
    simp only [h.applicable_eq hab]
    cases t.applicable s args with
    | none => exact ih
    | some bindings => exact .cons ⟨hab, rfl⟩ ih

end ClassTable.Renamed

/-! ## Calls -/

/-- What a call comes to, and what it comes to with renamed types. -/
inductive Resolution.Renamed (σ : String → String) :
    Resolution F ClassTy → Resolution F ClassTy → Prop
  | found {s s' : Selected F ClassTy} : s'.returnType = s.returnType.map (Ty.rename σ) →
      Renamed σ (.found s) (.found s')
  | defaultConstructor : Renamed σ .defaultConstructor .defaultConstructor
  | ambiguous (a a' : Ambiguity) : Renamed σ (.ambiguous a) (.ambiguous a')
  | missing (m m' : Missing) : Renamed σ (.missing m) (.missing m')

namespace ClassTable.Renamed

variable {t t' : ClassTable F} (h : t.Renamed σ t')

theorem found_of_candidate (hσ : σ.Injective) (o o' : ClassTy)
    {a b : Member F × Signature × Bindings} (hab : Candidate σ a b) :
    Resolution.Renamed σ (.found ⟨o, a.1, a.2.1, a.2.2⟩) (.found ⟨o', b.1, b.2.1, b.2.2⟩) := by
  refine .found ?_
  simp only [Selected.returnType, hab.1.returnType, hab.2, Option.map_map]
  exact congrArg (fun f => Option.map f a.2.1.returnType)
    (funext fun ty => Ty.substitute_rename hσ a.2.2 ty)

/-- The arguments of a renamed class type bind the renamed parameters. -/
theorem paramsFor_rename {c c' : Template F} (hc : c.Renamed σ c') (args : List Ty) :
    paramsFor c' (Ty.renameAll σ args) = (paramsFor c args).rename σ := by
  unfold paramsFor
  rw [hc.generics, Ty.length_renameAll]
  split
  · rw [TypeParams.rename_bound, map_eq_self hc.fixed]
  · rw [TypeParams.rename_unbound, map_eq_self hc.fixed]

theorem named_paramsFor (c : Template F) (args : List Ty) :
    (paramsFor c args).Named c.generics := by
  unfold paramsFor
  split
  · next hlen => exact TypeParams.named_bound hlen
  · exact TypeParams.named_unbound c.generics

include h

/-- The base of a renamed class type is the renamed base. -/
theorem baseOf_concur (owner : ClassTy) :
    Concur (fun a b => b = a.map (ClassTy.rename σ)) (t.baseOf owner)
      (t'.baseOf (owner.rename σ)) := by
  unfold baseOf
  refine (h.template owner.name {}).map fun {c c'} hc => ?_
  rw [hc.base, hc.generics]
  cases hb : c.base with
  | none => rfl
  | some b =>
    have hzip := Bindings.zip_rename (σ := σ) c.generics owner.args
    rw [map_eq_self hc.fixed] at hzip
    rw [Option.map_some, Option.map_some, Option.map_some, ClassTy.args_rename, hzip,
      ← ClassTy.substitute_rename h.injective, hc.fixedBase b hb]

/-- A level lists renamed members with renamed signatures, in the same order. -/
theorem members_concur (owner : ClassTy) {members : Template F → List (Member F)}
    (hmem : ∀ {c c'}, Template.Renamed σ c c' →
      List.Forall₂ (Member.Renamed σ c.generics) (members c) (members c')) :
    Concur (List.Forall₂ fun a b => a.2.Renamed σ b.2)
      (match t.template owner.name {} with
        | .error e => .error e
        | .ok c => t.signatures (paramsFor c owner.args) (members c))
      (match t'.template owner.name {} with
        | .error e => .error e
        | .ok c => t'.signatures (paramsFor c (Ty.renameAll σ owner.args)) (members c)) := by
  rcases (h.template owner.name {}).elim with ⟨e, e', h1, h2⟩ | ⟨c, c', h1, h2, hc⟩
  · rw [h1, h2]
    exact .error e e'
  · rw [h1, h2]
    dsimp only
    rw [paramsFor_rename hc]
    exact h.signatures_concur (named_paramsFor c owner.args) (hmem hc)

theorem methodFrom_concur (start : ClassTy) (name : String) (isStatic : Bool) (args : List Ty)
    (fuel : Nat) : ∀ owner : ClassTy, Concur (Resolution.Renamed σ)
      (t.staticMembers.methodFrom t start name isStatic args fuel owner)
      (t'.staticMembers.methodFrom t' (start.rename σ) name isStatic (Ty.renameAll σ args) fuel
        (owner.rename σ)) := by
  induction fuel with
  | zero => exact fun owner => .error _ _
  | succ fuel ih =>
    intro owner
    rw [MemberSource.methodFrom, MemberSource.methodFrom]
    have hmethods : Concur (List.Forall₂ fun a b => a.2.Renamed σ b.2)
        (t.staticMembers.methods owner name isStatic)
        (t'.staticMembers.methods (owner.rename σ) name isStatic) :=
      h.members_concur owner fun hc => hc.methodsNamed name isStatic
    rcases hmethods.elim with ⟨e, e', h1, h2⟩ | ⟨cs, cs', h1, h2, hcs⟩
    · simp only [h1, h2]
      exact .error e e'
    · simp only [h1, h2]
      have happ := h.applicables_candidate hcs args
      generalize t.applicables cs args = xs, t'.applicables cs' (Ty.renameAll σ args) = ys at happ
      cases happ with
      | nil =>
        have hbase : Concur (fun a b => b = a.map (ClassTy.rename σ))
            (t.staticMembers.base owner) (t'.staticMembers.base (owner.rename σ)) :=
          h.baseOf_concur owner
        rcases hbase.elim with ⟨e, e', h3, h4⟩ | ⟨b, b', h3, h4, rfl⟩
        · simp only [h3, h4]
          exact .error e e'
        · cases b with
          | none =>
            simp only [h3, h4, Option.map_none]
            exact .ok (.missing _ _)
          | some b =>
            simp only [h3, h4, Option.map_some]
            exact ih b
      | cons hab hrest =>
        cases hrest with
        | nil => exact .ok (found_of_candidate h.injective _ _ hab)
        | cons _ _ => exact .ok (.ambiguous _ _)

/-- A call of a method comes to the same with renamed types. -/
theorem resolveMethod_concur (owner : ClassTy) (name : String) (isStatic : Bool) (args : List Ty) :
    Concur (Resolution.Renamed σ) (t.staticMembers.resolveMethod t owner name isStatic args)
      (t'.staticMembers.resolveMethod t' (owner.rename σ) name isStatic
        (Ty.renameAll σ args)) := by
  have hheight : t'.staticMembers.height (owner.rename σ) = t.staticMembers.height owner :=
    h.height_eq
  rw [MemberSource.resolveMethod, MemberSource.resolveMethod, hheight]
  exact h.methodFrom_concur owner name isStatic args _ owner

/-- A construction comes to the same with renamed types. -/
theorem resolveConstructor_concur (owner : ClassTy) (args : List Ty) :
    Concur (Resolution.Renamed σ) (t.staticMembers.resolveConstructor t owner args)
      (t'.staticMembers.resolveConstructor t' (owner.rename σ) (Ty.renameAll σ args)) := by
  rw [MemberSource.resolveConstructor, MemberSource.resolveConstructor]
  have hconstructors : Concur (List.Forall₂ fun a b => a.2.Renamed σ b.2)
      (t.staticMembers.constructors owner) (t'.staticMembers.constructors (owner.rename σ)) :=
    h.members_concur owner fun hc => hc.constructors
  rcases hconstructors.elim with ⟨e, e', h1, h2⟩ | ⟨cs, cs', h1, h2, hcs⟩
  · simp only [h1, h2]
    exact .error e e'
  · have hempty : cs'.isEmpty = cs.isEmpty := by cases hcs <;> rfl
    have hargs : (Ty.renameAll σ args).isEmpty = args.isEmpty := by
      cases args with
      | nil => rw [Ty.renameAll_nil]
      | cons a rest => rw [Ty.renameAll_cons]; rfl
    simp only [h1, h2, hempty, hargs]
    split
    · exact .ok .defaultConstructor
    · have happ := h.applicables_candidate hcs args
      generalize t.applicables cs args = xs, t'.applicables cs' (Ty.renameAll σ args) = ys at happ
      cases happ with
      | nil => exact .ok (.missing _ _)
      | cons hab hrest =>
        cases hrest with
        | nil => exact .ok (found_of_candidate h.injective _ _ hab)
        | cons _ _ => exact .ok (.ambiguous _ _)

/-! ## Fields -/

theorem fieldTypeWithin_concur (name : String) (fuel : Nat) : ∀ owner : ClassTy,
    Concur (fun a b => b = a.map (Ty.rename σ)) (t.fieldTypeWithin name fuel owner)
      (t'.fieldTypeWithin name fuel (owner.rename σ)) := by
  induction fuel with
  | zero => exact fun owner => .error _ _
  | succ fuel ih =>
    intro owner
    rw [fieldTypeWithin, fieldTypeWithin, ClassTy.name_rename]
    rcases (h.template owner.name {}).elim with ⟨e, e', h1, h2⟩ | ⟨c, c', h1, h2, hc⟩
    · simp only [h1, h2]
      exact .error e e'
    · have hfield : c'.field? name = c.field? name := by
        rw [Template.field?, Template.field?, hc.fields]
      simp only [h1, h2, hfield]
      cases hf : c.field? name with
      | some f =>
        have hzip := Bindings.zip_rename (σ := σ) c.generics owner.args
        rw [map_eq_self hc.fixed] at hzip
        refine .ok ?_
        rw [hc.generics, ClassTy.args_rename, hzip, Option.map_some,
          ← Ty.substitute_rename h.injective, hc.fixedFields f (List.mem_of_find?_eq_some hf)]
      | none =>
        rcases (h.baseOf_concur owner).elim with ⟨e, e', h3, h4⟩ | ⟨b, b', h3, h4, rfl⟩
        · simp only [h3, h4]
          exact .error e e'
        · cases b with
          | none =>
            simp only [h3, h4, Option.map_none]
            exact .ok rfl
          | some b =>
            simp only [h3, h4, Option.map_some]
            exact ih b

/-- A renamed class has the fields of the class, with renamed types. -/
theorem fieldType_concur (owner : ClassTy) (name : String) :
    Concur (fun a b => b = a.map (Ty.rename σ)) (t.fieldType owner name)
      (t'.fieldType (owner.rename σ) name) := by
  rw [fieldType, fieldType, h.height_eq]
  exact h.fieldTypeWithin_concur name t.height owner

theorem staticFieldIn_concur (name : String) (owners : List String) :
    Concur (fun a b => b = a.map (Ty.rename σ)) (t.staticFieldIn name owners)
      (t'.staticFieldIn name owners) := by
  induction owners with
  | nil => exact .ok rfl
  | cons owner rest ih =>
    rw [staticFieldIn, staticFieldIn]
    rcases (h.template owner {}).elim with ⟨e, e', h1, h2⟩ | ⟨c, c', h1, h2, hc⟩
    · simp only [h1, h2]
      exact .error e e'
    · have hnative : c'.native? = c.native? := by rw [Template.native?, Template.native?, hc.origin]
      simp only [h1, h2, hnative]
      cases c.native?.bind (·.staticField? name) with
      | none => exact ih
      | some f =>
        have hlower : Concur (fun a b => b = a.rename σ) (t.lower [] f.ty) (t'.lower [] f.ty) :=
          h.lower_concur TypeParams.named_nil (TypeExpr.follows_of_fixed (by simp) f.ty)
        exact hlower.map fun heq => congrArg some heq

theorem staticFieldType_concur (className name : String) :
    Concur (fun a b => b = a.map (Ty.rename σ)) (t.staticFieldType className name)
      (t'.staticFieldType className name) := by
  rw [staticFieldType, staticFieldType, h.ancestors_eq]
  exact h.staticFieldIn_concur name _

end ClassTable.Renamed

/-! ## The tables of two programs -/

/-- Names of primitives and native classes, and of the parameters of native classes, stay. -/
structure NativeRegistry.FixedBy (σ : String → String) (natives : NativeRegistry F) : Prop where
  primitives : ∀ q : Primitive, σ q.name = q.name
  names : ∀ c ∈ natives.classes, σ c.fullName = c.fullName
  generics : ∀ c ∈ natives.classes, ∀ n ∈ c.generics, σ n = n

theorem Member.renamed_ofMethod {g : List String} (owner : String) {m m' : MethodDecl}
    (h : m.Renamed σ g m') :
    (Member.ofMethod owner m : Member F).Renamed σ g (.ofMethod owner m') where
  name := congrArg Identifier.name h.name
  isStatic := h.isStatic
  generics := h.generics
  params := by
    show List.Forall₂ _ (Member.writtenParams m.parameters) (Member.writtenParams m'.parameters)
    unfold Member.writtenParams
    rw [List.forall₂_map_left_iff, List.forall₂_map_right_iff]
    exact h.parameters.imp fun _ _ => And.right
  returnType := h.returnType

namespace ClassTable

theorem nativeTemplate_concur (hσ : σ.Injective) {c : NativeClass F}
    (hc : ∀ n ∈ c.generics, σ n = n) (ctx : LoweringContext) :
    Concur (Template.Renamed σ) (nativeTemplate ctx c) (nativeTemplate ctx c) := by
  cases hmade : nativeTemplate ctx c with
  | error e => exact .error e e
  | ok tm =>
    obtain ⟨base, hbase, rfl⟩ := nativeTemplate_ok hmade
    have hmembers : ∀ ms : List (NativeMember F),
        List.Forall₂ (Member.Renamed σ c.generics) (ms.map (Member.ofNative c.fullName))
          (ms.map (Member.ofNative c.fullName)) := by
      intro ms
      refine List.forall₂_same.mpr fun m hm => ?_
      obtain ⟨n, -, rfl⟩ := List.mem_map.mp hm
      exact Member.renamed_self hc rfl
    refine .ok ⟨rfl, rfl, rfl, rfl, rfl, hmembers _, hmembers _, hc, ?_, fun f hf => nomatch hf⟩
    rintro b rfl
    exact LoweringContext.rename_of_lowerBase hσ hc hbase

theorem rename_of_lowerFields {ctx : LoweringContext} {g : List String} (hσ : σ.Injective)
    (hg : ∀ n ∈ g, σ n = n) : ∀ {ds : List FieldDecl} {fs : List FieldTemplate},
    lowerFields ctx (TypeParams.unbound g) ds = .ok fs → ∀ f ∈ fs, f.ty.rename σ = f.ty := by
  intro ds
  induction ds with
  | nil =>
    intro fs h f hf
    cases h
    cases hf
  | cons d rest ih =>
    intro fs h f hf
    rw [lowerFields] at h
    split at h
    · cases h
    · next ty hty =>
      split at h
      · cases h
      · next fs' hfs =>
        cases h
        rcases List.mem_cons.mp hf with rfl | hf
        · exact LoweringContext.rename_of_lower hσ hg hty
        · exact ih hfs f hf

theorem declaredTemplate_concur (hσ : σ.Injective) {d d' : ClassDecl} (hd : d.Renamed σ d')
    (ctx : LoweringContext) : Concur (Template.Renamed σ)
      (declaredTemplate ctx d : Except TypeError (Template F)) (declaredTemplate ctx d') := by
  obtain ⟨heq, hfixed, hmethods⟩ := hd
  rw [heq]
  unfold declaredTemplate
  dsimp only
  cases hbase : ctx.lowerBase d.name.name (TypeParams.unbound (d.generics.map Identifier.name))
    d.base with
  | error e => exact .error e e
  | ok base =>
    dsimp only
    cases hfields : lowerFields ctx (TypeParams.unbound (d.generics.map Identifier.name))
      d.fields with
    | error e => exact .error e e
    | ok fields =>
      refine .ok ⟨rfl, rfl, rfl, rfl, rfl, ?_, ?_, hfixed, ?_,
        rename_of_lowerFields hσ hfixed hfields⟩
      · refine List.forall₂_same.mpr fun m hm => ?_
        obtain ⟨k, -, rfl⟩ := List.mem_map.mp hm
        exact Member.renamed_self hfixed rfl
      · rw [List.forall₂_map_left_iff, List.forall₂_map_right_iff]
        exact hmethods.imp fun _ _ => Member.renamed_ofMethod d.name.name
      · rintro b rfl
        exact LoweringContext.rename_of_lowerBase hσ hfixed hbase

theorem put_renamed {c c' : Template F} (hc : c.Renamed σ c') {cs cs' : List (Template F)}
    (hcs : List.Forall₂ (Template.Renamed σ) cs cs') :
    List.Forall₂ (Template.Renamed σ) (put c cs) (put c' cs') := by
  refine .cons hc ?_
  rw [hc.name]
  induction hcs with
  | nil => exact .nil
  | cons hd _ ih =>
    rw [List.filter_cons, List.filter_cons, hd.name]
    split
    · exact .cons hd ih
    · exact ih

theorem putAll_concur {α : Type} {make : α → Except TypeError (Template F)} {as as' : List α}
    (has : List.Forall₂ (fun a a' => Concur (Template.Renamed σ) (make a) (make a')) as as') :
    ∀ {cs cs' : List (Template F)}, List.Forall₂ (Template.Renamed σ) cs cs' →
      Concur (List.Forall₂ (Template.Renamed σ)) (putAll make cs as) (putAll make cs' as') := by
  induction has with
  | nil => exact fun hcs => .ok hcs
  | cons ha _ ih =>
    intro cs cs' hcs
    rw [putAll, putAll]
    rcases ha.elim with ⟨e, e', h1, h2⟩ | ⟨c, c', h1, h2, hc⟩
    · simp only [h1, h2]
      exact .error e e'
    · simp only [h1, h2]
      exact ih (put_renamed hc hcs)

theorem renamed_primitiveTemplates :
    List.Forall₂ (Template.Renamed σ) (primitiveTemplates : List (Template F))
      primitiveTemplates := by
  have hself : ∀ q : Primitive,
      (Template.ofPrimitive q : Template F).Renamed σ (.ofPrimitive q) := by
    intro q
    refine ⟨rfl, rfl, rfl, rfl, rfl, .nil, .nil, (fun n hn => nomatch hn), ?_,
      fun f hf => nomatch hf⟩
    rintro b ⟨⟩
    rw [ClassTy.rename, Ty.renameAll_nil]
  rw [primitiveTemplates_eq]
  exact .cons (hself _) (.cons (hself _) (.cons (hself _) .nil))

/-- The tables of two programs, the second of which follows a renaming, follow it too. -/
theorem build_concur (hσ : σ.Injective) {natives : NativeRegistry F} (hn : natives.FixedBy σ)
    {p p' : Program} (hp : p.Renamed σ p') :
    Concur (ClassTable.Renamed σ) (build p natives) (build p' natives) := by
  have himports : p'.imports = p.imports := by rw [hp.eq]
  have hnames : List.Forall₂ (fun d d' : ClassDecl => d'.name = d.name ∧ d'.generics = d.generics)
      p.classes p'.classes := hp.classes.imp fun d d' hd => by rw [hd.eq]; exact ⟨rfl, rfl⟩
  have hsame : ∀ {α : Type} (x : Except TypeError α), Concur Eq x x := Concur.of_refl fun _ => rfl
  unfold build
  rw [imports_congr himports hnames]
  refine (hsame _).bind fun {imports _} heq => ?_
  subst heq
  rw [declaredArities_congr hnames]
  refine (hsame _).bind fun {arities _} heq => ?_
  subst heq
  let ctx : LoweringContext := ⟨imports, fun name => arities.lookup name⟩
  have hnatives : Concur (List.Forall₂ (Template.Renamed σ))
      (putAll (nativeTemplate ctx) primitiveTemplates natives.classes)
      (putAll (nativeTemplate ctx) primitiveTemplates natives.classes) :=
    putAll_concur (List.forall₂_same.mpr fun c hc =>
      nativeTemplate_concur hσ (hn.generics c hc) ctx) renamed_primitiveTemplates
  refine hnatives.bind fun {ws ws'} hws => ?_
  have hdeclared : Concur (List.Forall₂ (Template.Renamed σ))
      (putAll (declaredTemplate ctx) ws p.classes) (putAll (declaredTemplate ctx) ws' p'.classes) :=
    putAll_concur (hp.classes.imp fun d d' hd => declaredTemplate_concur hσ hd ctx) hws
  refine hdeclared.bind fun {cs cs'} hcs => ?_
  have ht : ClassTable.Renamed σ (⟨cs, imports, natives⟩ : ClassTable F) ⟨cs', imports, natives⟩ :=
    .of_classes hσ rfl rfl hcs
  refine Concur.bind (R := fun _ _ => True) ?_ fun _ => .ok ht
  rw [ht.checkAcyclic_eq hnames]
  exact (hsame _).mono fun _ => trivial

end ClassTable

end Middleweight
