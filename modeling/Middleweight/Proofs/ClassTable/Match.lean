import Middleweight.Analysis.TypeCheck
import Middleweight.Proofs.Basic
import Middleweight.Proofs.ClassTable.Walk
import Middleweight.Proofs.Members.Agreement

/-!
# Tables that match

Two tables match when they have the same imports and native classes, and their classes agree in
order but for the written types and the bodies of members; written types may differ as long as they
lower alike, and how bodies are related is left open. Matching tables give every question about
classes, types and members the same answer.

* `ClassTable.Matches.check_eq` : the same types fit
* `ClassTable.Matches.signature_eq` : members have the same signatures
* `ClassTable.Matches.resolveMethod_related`, `ClassTable.Matches.resolveConstructor_related` :
  calls are resolved alike
* `ClassTable.Matches.fieldType_eq`, `ClassTable.Matches.staticFieldType_eq` : fields have the same
  types
-/

namespace Middleweight

variable {F : Type}

/-! ## Parameters in scope -/

/-- All parameters in scope have names among some. -/
def TypeParams.Within (params : TypeParams) (names : List String) : Prop :=
  ∀ n, (params.get? n).isSome → n ∈ names

namespace TypeParams

/-- The names in scope are those of the entries. -/
theorem within_iff {params : TypeParams} {names : List String} :
    params.Within names ↔ ∀ e ∈ params, e.1 ∈ names := by
  unfold Within get?
  constructor
  · intro h e he
    exact h e.1 (isSome_lookup_iff.mpr (List.mem_map.mpr ⟨e, he, rfl⟩))
  · intro h n hn
    obtain ⟨e, he, rfl⟩ := List.mem_map.mp (isSome_lookup_iff.mp hn)
    exact h e he

theorem Within.nil {names : List String} : Within [] names := by
  intro n hn
  cases hn

/-- More names may be visible than are used. -/
theorem Within.mono {params : TypeParams} {names names' : List String}
    (h : params.Within names) (hsub : ∀ n ∈ names, n ∈ names') : params.Within names' :=
  fun n hn => hsub n (h n hn)

/-- The parameters of a method are in scope besides those of its class. -/
theorem Within.pushUnbound {params : TypeParams} {names outer : List String}
    (h : params.Within outer) : (params.pushUnbound names).Within (outer ++ names) := by
  rw [within_iff] at h ⊢
  unfold TypeParams.pushUnbound
  induction names generalizing params outer with
  | nil => simpa using h
  | cons n rest ih =>
    have hstep : ∀ e ∈ (n, Ty.unbound n) :: params, e.1 ∈ outer ++ [n] := by
      intro e he
      rcases List.mem_cons.mp he with rfl | he
      · simp
      · exact List.mem_append_left _ (h e he)
    have := ih hstep
    rwa [List.append_assoc, List.singleton_append] at this

theorem within_unbound (names : List String) : (unbound names).Within names := by
  have : (pushUnbound [] names).Within ([] ++ names) := Within.pushUnbound Within.nil
  rwa [List.nil_append] at this

theorem within_bound (names : List String) (types : List Ty) : (bound names types).Within names := by
  rw [within_iff]
  intro e he
  obtain ⟨⟨n, ty⟩, hm, rfl⟩ := List.mem_map.mp (List.mem_reverse.mp he)
  exact (List.of_mem_zip hm).1

end TypeParams

/-- A class type puts no more in scope than the parameters its class declares. -/
theorem ClassTable.paramsFor_within (c : Template F) (args : List Ty) :
    (ClassTable.paramsFor c args).Within c.generics := by
  unfold ClassTable.paramsFor
  split
  · exact TypeParams.within_bound _ _
  · exact TypeParams.within_unbound _

/-! ## Contexts that lower alike -/

/-- Two contexts in which each name stands for the same, with as many parameters. -/
structure LoweringContext.SameNames (ctx ctx' : LoweringContext) : Prop where
  resolve?_eq : ∀ name, ctx'.imports.resolve? name = ctx.imports.resolve? name
  arity_eq : ∀ name, ctx'.arity name = ctx.arity name

namespace LoweringContext.SameNames

variable {ctx ctx' : LoweringContext}

theorem className_eq (h : ctx.SameNames ctx') (e : TypeExpr) :
    ctx'.className e = ctx.className e := by
  unfold LoweringContext.className
  simp only [h.resolve?_eq, h.arity_eq]

mutual

/-- Lowering asks its context for full names and arities of classes, and for nothing else. -/
theorem lower_eq (h : ctx.SameNames ctx') (params : TypeParams) :
    ∀ e : TypeExpr, ctx'.lower params e = ctx.lower params e
  | ⟨written, generics, span⟩ => by
    rw [LoweringContext.lower, LoweringContext.lower, h.className_eq, lowerAll_eq h params generics]

theorem lowerAll_eq (h : ctx.SameNames ctx') (params : TypeParams) :
    ∀ es : List TypeExpr, ctx'.lowerAll params es = ctx.lowerAll params es
  | [] => by rw [LoweringContext.lowerAll, LoweringContext.lowerAll]
  | e :: rest => by
    rw [LoweringContext.lowerAll, LoweringContext.lowerAll, lower_eq h params e,
      lowerAll_eq h params rest]

end

/-- A base clause is lowered alike in both contexts. -/
theorem lowerBase_eq (h : ctx.SameNames ctx') (className : String) (params : TypeParams)
    (clause : Option TypeExpr) :
    ctx'.lowerBase className params clause = ctx.lowerBase className params clause := by
  cases clause with
  | none => rfl
  | some e =>
    unfold LoweringContext.lowerBase LoweringContext.lowerClass
    simp only [h.className_eq, h.lowerAll_eq]

end LoweringContext.SameNames

/-- Two written types that lower alike wherever only some parameters can be in scope. -/
def LoweringContext.SameLowering (ctx : LoweringContext) (generics : List String)
    (e e' : TypeExpr) : Prop :=
  ∀ params : TypeParams, params.Within generics → ctx.lower params e' = ctx.lower params e

/-! ## Matching members and classes -/

/-- The parameters that the types of a member may name, in a class with given ones. -/
def Member.visible (m : Member F) (generics : List String) : List String :=
  (if m.isStatic then [] else generics) ++ m.generics

/-- How the bodies of two members are related, under the parameters that they see. -/
abbrev BodyRelation (F : Type) := List String → MemberBody F → MemberBody F → Prop

/-- Two members of one class that differ only in how their types are written and in their bodies. -/
structure Member.Matches (ctx : LoweringContext) (RB : BodyRelation F) (classGenerics : List String)
    (m m' : Member F) : Prop where
  owner : m'.owner = m.owner
  name : m'.name = m.name
  isStatic : m'.isStatic = m.isStatic
  isConstructor : m'.isConstructor = m.isConstructor
  generics : m'.generics = m.generics
  params : List.Forall₂ (fun a b => b.1 = a.1 ∧ ctx.SameLowering (m.visible classGenerics) a.2 b.2)
    m.params m'.params
  returnType : Option.Rel (ctx.SameLowering (m.visible classGenerics)) m.returnType m'.returnType
  body : RB (m.visible classGenerics) m.body m'.body
  span : m'.span = m.span

/-- A member matches itself if its body is related to itself. -/
theorem Member.matches_refl {ctx : LoweringContext} {RB : BodyRelation F} {g : List String}
    {m : Member F} (hbody : RB (m.visible g) m.body m.body) : m.Matches ctx RB g m := by
  refine ⟨rfl, rfl, rfl, rfl, rfl, ?_, ?_, hbody, rfl⟩
  · exact List.forall₂_same.mpr fun a _ => ⟨rfl, fun _ _ => rfl⟩
  · cases m.returnType with
    | none => exact .none
    | some e => exact .some fun _ _ => rfl

/-- Two classes whose members match. -/
structure Template.Matches (ctx : LoweringContext) (RB : BodyRelation F) (c c' : Template F) :
    Prop where
  name : c'.name = c.name
  generics : c'.generics = c.generics
  base : c'.base = c.base
  fields : c'.fields = c.fields
  constructors : List.Forall₂ (Member.Matches ctx RB c.generics) c.constructors c'.constructors
  methods : List.Forall₂ (Member.Matches ctx RB c.generics) c.methods c'.methods
  /-- Declared constructors run on an instance. -/
  instanceConstructors : ∀ m ∈ c.constructors, ∀ b s, m.body = .declared b s → m.isStatic = false
  origin : c'.origin = c.origin
  span : c'.span = c.span

/-- Two tables of the same size in which each name stands for the same and has matching classes. -/
structure ClassTable.Matches (RB : BodyRelation F) (t t' : ClassTable F) : Prop where
  resolve?_eq : ∀ name, t'.imports.resolve? name = t.imports.resolve? name
  natives : t'.natives = t.natives
  get? : ∀ name, Option.Rel (Template.Matches t.lowering RB) (t.get? name) (t'.get? name)
  height_eq : t'.height = t.height

/-- The methods of a name match, for matching methods have the same names. -/
theorem Template.Matches.methodsNamed {ctx : LoweringContext} {RB : BodyRelation F}
    {c c' : Template F} (h : c.Matches ctx RB c') (name : String) (isStatic : Bool) :
    List.Forall₂ (Member.Matches ctx RB c.generics) (c.methodsNamed name isStatic)
      (c'.methodsNamed name isStatic) := by
  unfold Template.methodsNamed
  have hm := h.methods
  revert hm
  generalize c.methods = ms, c'.methods = ms'
  intro hm
  induction hm with
  | nil => exact .nil
  | @cons m m' rest rest' hmm _ ih =>
    rw [List.filter_cons, List.filter_cons, hmm.name, hmm.isStatic]
    split
    · exact .cons hmm ih
    · exact ih

namespace ClassTable.Matches

variable {RB : BodyRelation F} {t t' : ClassTable F}

/-! ## Look-up and walks -/

/-- Tables with the same imports whose classes match one after the other. -/
theorem of_classes (himports : t'.imports = t.imports) (hnatives : t'.natives = t.natives)
    (hclasses : List.Forall₂ (Template.Matches t.lowering RB) t.classes t'.classes) :
    t.Matches RB t' where
  resolve?_eq name := by rw [himports]
  natives := hnatives
  get? name := by
    unfold ClassTable.get?
    generalize t.classes = cs, t'.classes = cs' at hclasses
    induction hclasses with
    | nil => exact .none
    | @cons c c' rest rest' hcc _ ih =>
      rw [List.find?_cons, List.find?_cons, hcc.name]
      split
      · exact .some hcc
      · exact ih
  height_eq := by
    unfold height
    rw [hclasses.length_eq]

section Walks

variable (h : t.Matches RB t')

include h

/-- A class is found in both tables or in neither, and the two match. -/
theorem template (name : String) (span : Span) :
    Alike (Template.Matches t.lowering RB) (t.template name span) (t'.template name span) := by
  unfold ClassTable.template
  rcases rel_elim (h.get? name) with ⟨h1, h2⟩ | ⟨c, c', h1, h2, hc⟩
  · rw [h1, h2]
    exact .error _
  · rw [h1, h2]
    exact .ok hc

/-- Matching classes have as many parameters. -/
theorem arity?_eq (name : String) : t'.arity? name = t.arity? name := by
  unfold arity?
  rcases rel_elim (h.get? name) with ⟨h1, h2⟩ | ⟨c, c', h1, h2, hc⟩
  · rw [h1, h2]
  · rw [h1, h2]
    simp only [Option.map_some, hc.generics]

/-- Matching tables resolve the same names, with the same arities. -/
theorem sameNames : t.lowering.SameNames t'.lowering := ⟨h.resolve?_eq, h.arity?_eq⟩

theorem lower_eq (params : TypeParams) (e : TypeExpr) : t'.lower params e = t.lower params e :=
  h.sameNames.lower_eq params e

/-- Matching classes name the same base. -/
theorem baseName?_eq (name : String) : t'.baseName? name = t.baseName? name := by
  unfold baseName?
  rcases rel_elim (h.get? name) with ⟨h1, h2⟩ | ⟨c, c', h1, h2, hc⟩
  · rw [h1, h2]
  · rw [h1, h2]
    simp only [Option.bind_some, hc.base]

theorem revisits_eq (fuel : Nat) (seen : List String) (name : String) :
    t'.revisits fuel seen name = t.revisits fuel seen name :=
  revisits_congr h.baseName?_eq fuel seen name

/-- So the walks along base clauses agree. -/
theorem ancestors_eq (name : String) : t'.ancestors name = t.ancestors name :=
  ancestors_congr h.baseName?_eq h.height_eq name

end Walks

/-! ## Subtyping and applicability -/

/-- Subtyping reads base clauses and arities only. -/
theorem check_eq (h : t.Matches RB t') (candidate target : Ty) :
    t'.check candidate target = t.check candidate target :=
  check_congr h.ancestors_eq candidate target

/-- So the same members are applicable in both tables. -/
theorem sameApplicability (h : t.Matches RB t') : t.SameApplicability t' :=
  sameApplicability_of_ancestors_eq h.ancestors_eq

/-! ## Signatures -/

/-- What a member sees are the parameters of its class and its own. -/
theorem memberParams_within {m : Member F} {generics : List String} {params : TypeParams}
    (hp : params.Within generics) : (memberParams m params).Within (m.visible generics) := by
  unfold memberParams Member.visible
  split
  · exact TypeParams.Within.nil.pushUnbound
  · exact hp.pushUnbound

variable (h : t.Matches RB t')

include h

/-- Declared parameters that lower alike have the same types. -/
theorem lowerParams_eq {generics : List String} {params : TypeParams}
    (hp : params.Within generics) {ps ps' : List (String × TypeExpr)}
    (hps : List.Forall₂ (fun a b => b.1 = a.1 ∧ t.lowering.SameLowering generics a.2 b.2) ps ps') :
    t'.lowerParams params ps' = t.lowerParams params ps := by
  induction hps with
  | nil => rfl
  | @cons a b rest rest' hab _ ih =>
    obtain ⟨n, e⟩ := a
    obtain ⟨n', e'⟩ := b
    obtain ⟨hn, he⟩ := hab
    cases hn
    have hl : t'.lower params e' = t.lower params e := by
      rw [h.lower_eq]
      exact he params hp
    rw [lowerParams, lowerParams, hl, ih]

/-- Matching members have the same signature under every binding of the parameters of their class. -/
theorem signature_eq {generics : List String} {params : TypeParams} (hp : params.Within generics)
    {m m' : Member F} (hm : m.Matches t.lowering RB generics m') :
    t'.signature m' params = t.signature m params := by
  have hmp : memberParams m' params = memberParams m params := by
    unfold memberParams
    rw [hm.isStatic, hm.generics]
  have hw : (memberParams m params).Within (m.visible generics) := memberParams_within hp
  unfold signature
  simp only [hmp, h.lowerParams_eq hw hm.params, hm.name, hm.isStatic, hm.generics]
  cases t.lowerParams (memberParams m params) m.params with
  | error e => rfl
  | ok typed =>
    rcases rel_elim hm.returnType with ⟨h1, h2⟩ | ⟨e, e', h1, h2, he⟩
    · rw [h1, h2]
    · have hl : t'.lower (memberParams m params) e' = t.lower (memberParams m params) e := by
        rw [h.lower_eq]
        exact he _ hw
      simp only [h1, h2, hl]

/-- A level lists matching members with equal signatures, in the same order. -/
theorem signatures_alike {generics : List String} {params : TypeParams}
    (hp : params.Within generics) {ms ms' : List (Member F)}
    (hms : List.Forall₂ (Member.Matches t.lowering RB generics) ms ms') :
    Alike (List.Forall₂ (SameTyped (Member.Matches t.lowering RB generics)))
      (t.signatures params ms) (t'.signatures params ms') := by
  induction hms with
  | nil => exact .ok .nil
  | @cons m m' rest rest' hm _ ih =>
    rw [signatures, signatures, h.signature_eq hp hm]
    cases t.signature m params with
    | error e => exact .error e
    | ok s =>
      rcases ih.elim with ⟨e, h1, h2⟩ | ⟨ss, ss', h1, h2, hss⟩
      · simp only [h1, h2]
        exact .error e
      · simp only [h1, h2]
        exact .ok (.cons ⟨hm, rfl⟩ hss)

/-! ## Resolution over class types -/

/-- The base of a class type is the same on both sides. -/
theorem baseOf_eq (owner : ClassTy) : t'.baseOf owner = t.baseOf owner := by
  unfold baseOf
  rcases (h.template owner.name {}).elim with ⟨e, h1, h2⟩ | ⟨c, c', h1, h2, hc⟩
  · rw [h1, h2]
  · rw [h1, h2]
    simp only [Except.map, hc.base, hc.generics]

theorem signaturesFor_alike (owner : ClassTy) {members : Template F → List (Member F)}
    (hmem : ∀ c c', Template.Matches t.lowering RB c c' →
      List.Forall₂ (Member.Matches t.lowering RB c.generics) (members c) (members c')) :
    Alike (List.Forall₂ (SameTyped fun _ _ => True))
      (match t.template owner.name {} with
        | .error e => .error e
        | .ok c => t.signatures (paramsFor c owner.args) (members c))
      (match t'.template owner.name {} with
        | .error e => .error e
        | .ok c => t'.signatures (paramsFor c owner.args) (members c)) := by
  rcases (h.template owner.name {}).elim with ⟨e, h1, h2⟩ | ⟨c, c', h1, h2, hc⟩
  · rw [h1, h2]
    exact .error e
  · rw [h1, h2]
    have hp : paramsFor c' owner.args = paramsFor c owner.args := by
      unfold paramsFor
      rw [hc.generics]
    dsimp only
    rw [hp]
    refine (h.signatures_alike (paramsFor_within c owner.args) (hmem c c' hc)).mono ?_
    exact fun _ _ hss => hss.imp fun _ _ hs => ⟨trivial, hs.2⟩

/-- Over class types both tables choose a method of the same signature. -/
theorem resolveMethod_related (owner : ClassTy) (name : String) (isStatic : Bool)
    (args : List Ty) :
    Alike (Resolution.Related Eq fun _ _ _ => True)
      (t.staticMembers.resolveMethod t owner name isStatic args)
      (t'.staticMembers.resolveMethod t' owner name isStatic args) := by
  have hagree : MemberSource.MethodsAgree t.staticMembers t'.staticMembers Eq
      (fun _ _ _ => True) isStatic := by
    refine ⟨?_, ?_, ?_⟩
    · rintro o _ rfl
      rfl
    · rintro o _ rfl
      show Alike _ (t.baseOf o) (t'.baseOf o)
      rw [h.baseOf_eq]
      cases t.baseOf o with
      | error e => exact .error e
      | ok b? =>
        refine .ok ?_
        cases b? with
        | none => exact .none
        | some b => exact .some rfl
    · rintro o _ rfl n
      exact h.signaturesFor_alike o fun c c' hc => hc.methodsNamed n isStatic
  exact MemberSource.resolveMethod_related hagree h.sameApplicability rfl h.height_eq.symm name args

/-- Over class types both tables choose a constructor of the same signature. -/
theorem resolveConstructor_related (owner : ClassTy) (args : List Ty) :
    Alike (Resolution.Related Eq fun _ _ _ => True)
      (t.staticMembers.resolveConstructor t owner args)
      (t'.staticMembers.resolveConstructor t' owner args) := by
  have hc : Alike (List.Forall₂ (SameTyped fun _ _ => True)) (t.staticMembers.constructors owner)
      (t'.staticMembers.constructors owner) :=
    h.signaturesFor_alike owner fun _ _ hc => hc.constructors
  have hn : t.staticMembers.ownerName owner = t'.staticMembers.ownerName owner := rfl
  exact MemberSource.resolveConstructor_related rfl hn hc h.sameApplicability args

/-! ## Fields -/

theorem fieldTypeWithin_eq (name : String) (fuel : Nat) :
    ∀ owner, t'.fieldTypeWithin name fuel owner = t.fieldTypeWithin name fuel owner := by
  induction fuel with
  | zero => intro owner; rfl
  | succ fuel ih =>
    intro owner
    rw [fieldTypeWithin, fieldTypeWithin, h.baseOf_eq]
    rcases (h.template owner.name {}).elim with ⟨e, h1, h2⟩ | ⟨c, c', h1, h2, hc⟩
    · rw [h1, h2]
    · rw [h1, h2]
      simp only [Template.field?, hc.fields, hc.generics, ih]

/-- Fields are found at the same type. -/
theorem fieldType_eq (owner : ClassTy) (name : String) :
    t'.fieldType owner name = t.fieldType owner name := by
  rw [fieldType, fieldType, h.height_eq, h.fieldTypeWithin_eq]

theorem staticFieldType_eq (className name : String) :
    t'.staticFieldType className name = t.staticFieldType className name := by
  rw [staticFieldType, staticFieldType, h.ancestors_eq]
  generalize t.ancestors className = owners
  induction owners with
  | nil => rfl
  | cons owner rest ih =>
    rw [staticFieldIn, staticFieldIn]
    rcases (h.template owner {}).elim with ⟨e, h1, h2⟩ | ⟨c, c', h1, h2, hc⟩
    · rw [h1, h2]
    · rw [h1, h2]
      simp only [Template.native?, hc.origin, h.lower_eq, ih]

end ClassTable.Matches

end Middleweight
