import Middleweight.Proofs.ClassTable.Match
import Middleweight.Proofs.Registry.Memo

/-!
# Runtime classes that match

The runtime classes that two matching tables make of one type match layer by layer: they have the
same types, parameters and fields, and their templates match. Over matching classes a call is
resolved to matching members with one signature and the same bindings.

* `ClassTable.Matches.classFor_alike`, `ClassTable.Matches.viewFor_alike` : classes of one type match
* `ClassTable.Matches.resolveMethod_runtime`, `ClassTable.Matches.resolveConstructor_runtime` :
  calls over matching classes are resolved alike
-/

namespace Middleweight

variable {F : Type}

/-! ## Matching classes -/

/-- Two layers that differ only in their templates, which match. -/
structure Layer.Matches (ctx : LoweringContext) (RB : BodyRelation F) (l l' : Layer F) : Prop where
  ty : l'.ty = l.ty
  params : l'.params = l.params
  fields : l'.fields = l.fields
  template : l.template.Matches ctx RB l'.template
  within : l.params.Within l.template.generics

/-- Two classes of the same kind whose layers match. -/
structure RuntimeClass.Matches (ctx : LoweringContext) (RB : BodyRelation F)
    (c c' : RuntimeClass F) : Prop where
  isStaticView : c'.isStaticView = c.isStaticView
  own : c.own.Matches ctx RB c'.own
  ancestors : List.Forall₂ (Layer.Matches ctx RB) c.ancestors c'.ancestors

namespace RuntimeClass.Matches

variable {ctx : LoweringContext} {RB : BodyRelation F} {c c' : RuntimeClass F}
  (h : c.Matches ctx RB c')

include h

theorem ty_eq : c'.ty = c.ty := h.own.ty

theorem asTy_eq : c'.asTy = c.asTy := by rw [asTy, asTy, h.ty_eq]

theorem name_eq : c'.name = c.name := by rw [name, name, h.ty_eq]

theorem text_eq : c'.text = c.text := by rw [text, text, h.ty_eq]

theorem params_eq : c'.params = c.params := h.own.params

theorem primitive?_eq : c'.primitive? = c.primitive? := by
  unfold primitive? Template.primitive?
  rw [h.own.template.origin]

theorem layers : List.Forall₂ (Layer.Matches ctx RB) c.layers c'.layers :=
  .cons h.own h.ancestors

/-- Fields are inherited alike. -/
theorem allFields_eq : c'.allFields = c.allFields := by
  unfold allFields
  have hl := h.layers
  generalize c.layers = ls, c'.layers = ls' at hl
  induction hl with
  | nil => rfl
  | cons hl _ ih => rw [List.flatMap_cons, List.flatMap_cons, ih, hl.fields]

/-- Classes that match are told apart alike. -/
theorem isSame_eq {d d' : RuntimeClass F} (hd : d.Matches ctx RB d') :
    c'.isSame d' = c.isSame d := by
  rw [isSame, isSame, h.isStaticView, hd.isStaticView, h.ty_eq, hd.ty_eq]

/-- The base classes of matching classes match. -/
theorem base? : Option.Rel (RuntimeClass.Matches ctx RB) c.base? c'.base? := by
  unfold RuntimeClass.base?
  have ha := h.ancestors
  generalize c.ancestors = ls, c'.ancestors = ls' at ha
  cases ha with
  | nil => exact .none
  | cons hl hrest => exact .some ⟨h.isStaticView, hl, hrest⟩

/-- Constructors are declared in matching templates. -/
theorem constructors :
    List.Forall₂ (Member.Matches ctx RB c.own.template.generics) c.constructors c'.constructors := by
  unfold RuntimeClass.constructors
  rw [h.isStaticView]
  split
  · exact .nil
  · exact h.own.template.constructors

end RuntimeClass.Matches

/-- Matching templates and bases make matching instantiations. -/
theorem RuntimeClass.ofTemplate_matches {ctx : LoweringContext} {RB : BodyRelation F}
    {c c' : Template F} (hc : c.Matches ctx RB c') (key : ClassTy)
    {b b' : Option (RuntimeClass F)} (hb : Option.Rel (RuntimeClass.Matches ctx RB) b b') :
    (ofTemplate c key b).Matches ctx RB (ofTemplate c' key b') := by
  refine ⟨rfl, ⟨rfl, ?_, ?_, hc, TypeParams.within_bound _ _⟩, ?_⟩
  · simp only [ofTemplate, hc.generics]
  · simp only [ofTemplate, hc.fields, hc.generics]
  · rcases rel_elim hb with ⟨rfl, rfl⟩ | ⟨x, y, rfl, rfl, hxy⟩
    · exact .nil
    · exact hxy.layers

/-- They also make matching static views. -/
theorem RuntimeClass.staticOfTemplate_matches {ctx : LoweringContext} {RB : BodyRelation F}
    {c c' : Template F} (hc : c.Matches ctx RB c') {b b' : Option (RuntimeClass F)}
    (hb : Option.Rel (RuntimeClass.Matches ctx RB) b b') :
    (staticOfTemplate c b).Matches ctx RB (staticOfTemplate c' b') := by
  refine ⟨rfl, ⟨?_, ?_, rfl, hc, TypeParams.within_unbound _⟩, ?_⟩
  · simp only [staticOfTemplate, hc.name]
  · simp only [staticOfTemplate, hc.generics]
  · rcases rel_elim hb with ⟨rfl, rfl⟩ | ⟨x, y, rfl, rfl, hxy⟩
    · exact .nil
    · exact hxy.layers

/-! ## Classes of one type -/

namespace ClassTable.Matches

variable {RB : BodyRelation F} {t t' : ClassTable F} (h : t.Matches RB t')

include h

/-- Two matching tables instantiate a type alike, by induction on the budget for its bases. -/
theorem instantiation_alike (span : Span) (fuel : Nat) : ∀ key : ClassTy,
    Alike (RuntimeClass.Matches t.lowering RB) (t.instantiation span fuel key)
      (t'.instantiation span fuel key) := by
  induction fuel with
  | zero => exact fun key => .error _
  | succ fuel ih =>
    intro key
    rw [instantiation, instantiation]
    rcases (h.template key.name span).elim with ⟨e, h1, h2⟩ | ⟨c, c', h1, h2, hc⟩
    · rw [h1, h2]
      exact .error e
    · rw [h1, h2]
      dsimp only
      rw [hc.generics]
      split
      · exact .error _
      · rw [hc.base]
        cases c.base with
        | none => exact .ok (RuntimeClass.ofTemplate_matches hc key .none)
        | some base =>
          have hkey : c'.baseKey base key.args = c.baseKey base key.args := by
            rw [Template.baseKey, Template.baseKey, hc.generics]
          dsimp only
          rw [hkey]
          cases Ty.firstUnboundIn? (c.baseKey base key.args).args with
          | some name => exact .error _
          | none =>
            dsimp only
            rcases (ih (c.baseKey base key.args)).elim with ⟨e, h3, h4⟩ | ⟨b, b', h3, h4, hb⟩
            · rw [h3, h4]
              exact .error e
            · rw [h3, h4]
              exact .ok (RuntimeClass.ofTemplate_matches hc key (.some hb))

/-- The classes that matching tables make of one type match. -/
theorem classFor_alike (ty : Ty) (span : Span) :
    Alike (RuntimeClass.Matches t.lowering RB) (t.classFor ty span) (t'.classFor ty span) := by
  unfold classFor
  cases ty.resolved with
  | unbound name => exact .error _
  | bound name u => exact .error _
  | cls name args =>
    dsimp only
    cases Ty.firstUnboundIn? (Ty.resolvedAll args) with
    | some name => exact .error _
    | none =>
      dsimp only
      rw [h.height_eq]
      exact h.instantiation_alike span _ _

/-- They make matching static views of a name, too. -/
theorem view_alike (span : Span) (fuel : Nat) : ∀ name : String,
    Alike (RuntimeClass.Matches t.lowering RB) (t.view span fuel name) (t'.view span fuel name) := by
  induction fuel with
  | zero => exact fun name => .error _
  | succ fuel ih =>
    intro name
    rw [view, view]
    rcases (h.template name span).elim with ⟨e, h1, h2⟩ | ⟨c, c', h1, h2, hc⟩
    · rw [h1, h2]
      exact .error e
    · rw [h1, h2]
      dsimp only
      rw [hc.base]
      cases c.base with
      | none => exact .ok (RuntimeClass.staticOfTemplate_matches hc .none)
      | some base =>
        dsimp only
        rcases (ih base.name).elim with ⟨e, h3, h4⟩ | ⟨b, b', h3, h4, hb⟩
        · rw [h3, h4]
          exact .error e
        · rw [h3, h4]
          exact .ok (RuntimeClass.staticOfTemplate_matches hc (.some hb))

/-- The static views that matching tables make of one class match. -/
theorem viewFor_alike (name : String) (span : Span) :
    Alike (RuntimeClass.Matches t.lowering RB) (t.viewFor name span) (t'.viewFor name span) := by
  unfold viewFor
  rw [h.height_eq]
  exact h.view_alike span _ name

/-! ## Calls over matching classes -/

/-- Methods of one name agree level by level. -/
theorem runtimeMembers_agree (isStatic : Bool) :
    MemberSource.MethodsAgree t.runtimeMembers t'.runtimeMembers
      (RuntimeClass.Matches t.lowering RB)
      (fun o => Member.Matches t.lowering RB o.own.template.generics) isStatic where
  ownerName := fun hc => hc.name_eq.symm
  base := fun hc => .ok hc.base?
  methods := by
    intro o o' hc name
    show Alike _ (t.signatures o.params _) (t'.signatures o'.params _)
    rw [hc.params_eq]
    exact h.signatures_alike hc.own.within (hc.own.template.methodsNamed name isStatic)

/-- A method of matching classes is resolved alike. -/
theorem resolveMethod_runtime {c c' : RuntimeClass F} (hc : c.Matches t.lowering RB c')
    (name : String) (isStatic : Bool) (args : List Ty) :
    Alike (Resolution.Related (RuntimeClass.Matches t.lowering RB)
        (fun o => Member.Matches t.lowering RB o.own.template.generics))
      (t.runtimeMembers.resolveMethod t c name isStatic args)
      (t'.runtimeMembers.resolveMethod t' c' name isStatic args) := by
  have hheight : t.runtimeMembers.height c = t'.runtimeMembers.height c' :=
    congrArg (· + 1) hc.ancestors.length_eq
  exact MemberSource.resolveMethod_related (h.runtimeMembers_agree isStatic) h.sameApplicability hc
    hheight name args

/-- A constructor of matching classes is resolved alike. -/
theorem resolveConstructor_runtime {c c' : RuntimeClass F} (hc : c.Matches t.lowering RB c')
    (args : List Ty) :
    Alike (Resolution.Related (RuntimeClass.Matches t.lowering RB)
        (fun o => Member.Matches t.lowering RB o.own.template.generics))
      (t.runtimeMembers.resolveConstructor t c args)
      (t'.runtimeMembers.resolveConstructor t' c' args) := by
  refine MemberSource.resolveConstructor_related hc hc.name_eq.symm ?_ h.sameApplicability args
  show Alike _ (t.signatures c.params _) (t'.signatures c'.params _)
  rw [hc.params_eq]
  exact h.signatures_alike hc.own.within hc.constructors

end ClassTable.Matches

end Middleweight
