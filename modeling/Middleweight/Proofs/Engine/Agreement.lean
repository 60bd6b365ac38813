import Middleweight.Proofs.Engine.Relation

/-!
# Computations that agree

Computations of two engines agree when from corresponding machines both go well with related
results, or both stop for the same reason, and leave corresponding machines either way; unless one
of them runs out of its budget that may do so first. Agreement goes through sequencing, frames and
scopes; and the operations of the machine agree.

* `EnginePair.Agree.bind` : sequences of computations that agree
* `EnginePair.agree_classOf`, `EnginePair.agree_resolveType` : classes
* `EnginePair.agree_newObject`, `EnginePair.agree_setField` : the heap
-/

namespace Middleweight

variable {F α β γ δ : Type}

/-! ## What is reported of a stop -/

/-- A fault as it is reported: of an operation that is not allowed only the message. -/
def Fault.reported : Fault F → Fault F
  | .invalid op => .invalid (.host op.message)
  | f => f

/-- Why and where a computation stopped, as it is reported. -/
def Stop.reported : Stop F → Stop F
  | .error e => .error { e with fault := e.fault.reported }
  | .exhausted => .exhausted

namespace EnginePair

variable {P : EnginePair F} {W V : Pairing} {g : List String}

/--
Results that are related, or stops that are reported alike, with corresponding machines; or anything
if a budget has run out that may run out first.
-/
inductive Outcomes (P : EnginePair F) (W : Pairing) (g : List String)
    (R : Pairing → α → β → Prop) : EStateM.Result (Stop F) (Machine F) α →
    EStateM.Result (Stop F) (Machine F) β → Prop
  | ok {V : Pairing} {a : α} {b : β} {m m' : Machine F} :
      W ≤ V → R V a b → P.Machines V g m m' → Outcomes P W g R (.ok a m) (.ok b m')
  | error {V : Pairing} {e e' : Stop F} {m m' : Machine F} :
      W ≤ V → e'.reported = e.reported → P.Machines V g m m' →
      Outcomes P W g R (.error e m) (.error e' m')
  | left {m : Machine F} {r : EStateM.Result (Stop F) (Machine F) β} :
      P.early = .left → Outcomes P W g R (.error .exhausted m) r
  | right {m' : Machine F} {r : EStateM.Result (Stop F) (Machine F) α} :
      P.early = .right → Outcomes P W g R r (.error .exhausted m')

/-- Computations with corresponding outcomes from corresponding machines. -/
def Agree (P : EnginePair F) (W : Pairing) (g : List String) (R : Pairing → α → β → Prop)
    (x : EvalM F α) (y : EvalM F β) : Prop :=
  ∀ m m', P.Machines W g m m' → P.Outcomes W g R (x m) (y m')

/-- Results that are the same on both sides. -/
abbrev Same : Pairing → α → α → Prop := fun _ a b => b = a

variable {R : Pairing → α → β → Prop} {S : Pairing → γ → δ → Prop} {x : EvalM F α}
  {y : EvalM F β}

/-! ## Sequences -/

/-- Results that are related are no steps at all. -/
theorem Agree.pure {a : α} {b : β} (h : R W a b) :
    P.Agree W g R (Pure.pure a) (Pure.pure b) :=
  fun _ _ hm => .ok (le_refl W) h hm

/-- In a sequence the second parts start from corresponding machines, with related results. -/
theorem Agree.bind (hx : P.Agree W g R x y) {f : α → EvalM F γ} {f' : β → EvalM F δ}
    (hf : ∀ V, W ≤ V → ∀ a b, R V a b → P.Agree V g S (f a) (f' b)) :
    P.Agree W g S (x >>= f) (y >>= f') := by
  intro m m' hm
  have h := hx m m' hm
  show P.Outcomes W g S (EStateM.bind x f m) (EStateM.bind y f' m')
  unfold EStateM.bind
  generalize x m = r, y m' = r' at h
  cases h with
  | ok hV hab hm₁ =>
    have h' := hf _ hV _ _ hab _ _ hm₁
    dsimp only
    generalize f _ _ = s, f' _ _ = s' at h'
    cases h' with
    | ok hV' hcd hm₂ => exact .ok (le_trans hV hV') hcd hm₂
    | error hV' he hm₂ => exact .error (le_trans hV hV') he hm₂
    | left h => exact .left h
    | right h => exact .right h
  | error hV he hm₁ => exact .error hV he hm₁
  | left h => exact .left h
  | right h => exact .right h

/-- What is known of results may be weakened. -/
theorem Agree.mono {R' : Pairing → α → β → Prop} (hx : P.Agree W g R x y)
    (hR : ∀ V, W ≤ V → ∀ a b, R V a b → R' V a b) : P.Agree W g R' x y := by
  intro m m' hm
  have h := hx m m' hm
  generalize x m = r, y m' = r' at h
  cases h with
  | ok hV hab hm₁ => exact .ok hV (hR _ hV _ _ hab) hm₁
  | error hV he hm₁ => exact .error hV he hm₁
  | left h => exact .left h
  | right h => exact .right h

/-! ## Stops -/

/-- Both have used up their budgets. -/
theorem Agree.exhausted : P.Agree W g R EvalM.exhausted EvalM.exhausted :=
  fun _ _ hm => .error (le_refl W) rfl hm

/-- Where budgets have run out, computations agree. -/
theorem Agree.left (h : P.early = .left) (y : EvalM F β) : P.Agree W g R EvalM.exhausted y :=
  fun _ _ _ => .left h

theorem Agree.right (h : P.early = .right) (x : EvalM F α) : P.Agree W g R x EvalM.exhausted :=
  fun _ _ _ => .right h

/-- Faults that are reported alike are raised alike. -/
theorem Agree.raise {f f' : Fault F} (hf : f'.reported = f.reported) (span : Span) :
    P.Agree W g R (P.left.raise f span) (P.right.raise f' span) := by
  intro m m' hm
  refine .error (le_refl W) ?_ hm
  simp only [Stop.reported, Engine.location, P.source_eq, hm.stack, hf]

theorem Agree.invalid {op op' : InvalidOperation F} (hop : op'.message = op.message)
    (span : Span) : P.Agree W g R (P.left.invalid op span) (P.right.invalid op' span) :=
  Agree.raise (by simp only [Fault.reported, hop]) span

/-- Computations with types agree as they do outside a run. -/
theorem Agree.types {R : α → β → Prop} {x : Except TypeError α} {y : Except TypeError β}
    (h : Alike R x y) : P.Agree W g (fun _ => R) (P.left.types x) (P.right.types y) := by
  cases h with
  | error e => exact Agree.raise rfl e.span
  | ok hr => exact Agree.pure hr

/-! ## Frames and scopes -/

/-- The same frame is put on both stacks, and taken off again. -/
theorem Agree.withFrame (hx : P.Agree W g R x y) (frame : Frame) :
    P.Agree W g R (P.left.withFrame frame x) (P.right.withFrame frame y) := by
  intro m m' hm
  have h := hx _ _ (hm.pushFrame frame)
  unfold Engine.withFrame
  generalize x _ = r, y _ = r' at h
  cases h with
  | ok hV hab hm₁ => exact .ok hV hab hm₁.popFrame
  | error hV he hm₁ => exact .error hV he hm₁.popFrame
  | left h => exact .left h
  | right h => exact .right h

/-- A body in a scope of its own may see other parameters than the one around it. -/
theorem Agree.withScope {s s' : Scope F} {g' : List String} (hs : P.Scopes W s s')
    (hw : s.typeParams.Within g') (hx : P.Agree W g' R x y) :
    P.Agree W g R (EvalM.withScope s x) (EvalM.withScope s' y) := by
  intro m m' hm
  have h := hx _ _ (hm.withScope hs hw)
  unfold EvalM.withScope
  dsimp only
  generalize x _ = r, y _ = r' at h
  cases h with
  | ok hV hab hm₁ => exact .ok hV hab (hm₁.withScope (hm.scope.mono hV) hm.within)
  | error hV he hm₁ => exact .error hV he (hm₁.withScope (hm.scope.mono hV) hm.within)
  | left h => exact .left h
  | right h => exact .right h

theorem within_push {s : Scope F} (h : s.typeParams.Within g) : s.push.typeParams.Within g := h

theorem within_pop {s : Scope F} (h : s.typeParams.Within g) : s.pop.typeParams.Within g := by
  obtain ⟨context, current, outer⟩ := s
  cases outer with
  | nil => exact h
  | cons l rest =>
    rw [TypeParams.within_iff] at h ⊢
    intro e he
    refine h e ?_
    rcases List.mem_append.mp he with he | he
    · refine List.mem_append_left _ ?_
      obtain ⟨k, hk, hek⟩ := List.mem_flatMap.mp he
      exact List.mem_flatMap.mpr ⟨k, List.mem_cons_of_mem _ hk, hek⟩
    · exact List.mem_append_right _ he

/-- Both sides have one level more for a while. -/
theorem Agree.nested (hx : P.Agree W g R x y) :
    P.Agree W g R (EvalM.nested x) (EvalM.nested y) := by
  intro m m' hm
  have h := hx _ _ (hm.withScope hm.scope.push (within_push hm.within))
  unfold EvalM.nested
  generalize x _ = r, y _ = r' at h
  cases h with
  | ok hV hab hm₁ => exact .ok hV hab (hm₁.withScope hm₁.scope.pop (within_pop hm₁.within))
  | error hV he hm₁ => exact .error hV he (hm₁.withScope hm₁.scope.pop (within_pop hm₁.within))
  | left h => exact .left h
  | right h => exact .right h

theorem agree_scope : P.Agree W g (fun V s s' => P.Scopes V s s' ∧ s.typeParams.Within g)
    EvalM.scope EvalM.scope :=
  fun _ _ hm => .ok (le_refl W) ⟨hm.scope, hm.within⟩ hm

/-- Another scope in which a body sees the same parameters. -/
theorem agree_modifyScope {f f' : Scope F → Scope F}
    (hf : ∀ {s s'}, P.Scopes W s s' → P.Scopes W (f s) (f' s'))
    (hw : ∀ {s s'}, P.Scopes W s s' → s.typeParams.Within g → (f s).typeParams.Within g) :
    P.Agree W g Same (EvalM.modifyScope f) (EvalM.modifyScope f') :=
  fun _ _ hm => .ok (le_refl W) rfl (hm.withScope (hf hm.scope) (hw hm.scope hm.within))

/-- A local is declared on both sides. -/
theorem agree_define (name : String) {v v' : Variable F} (hv : P.Variables W v v') :
    P.Agree W g Same (EvalM.modifyScope fun s => s.define name v)
      (EvalM.modifyScope fun s => s.define name v') :=
  agree_modifyScope (fun hs => hs.define name hv) fun _ hw => hw

/-- An observer is told the same on both sides. -/
theorem agree_tellStatement (span : Span) :
    P.Agree W g Same (P.left.tellStatement span) (P.right.tellStatement span) := by
  unfold Engine.tellStatement
  rw [P.observed_eq]
  split
  · intro m m' hm
    refine .ok (le_refl W) rfl ?_
    show P.Machines W g (P.left.tell (.statement span m.stack.length) m)
      (P.right.tell (.statement span m'.stack.length) m')
    rw [hm.stack]
    exact hm.tell _
  · exact Agree.pure rfl

theorem agree_depth : P.Agree W g Same EvalM.depth EvalM.depth := by
  intro m m' hm
  exact .ok (le_refl W) (by rw [hm.stack]) hm

/-! ## Classes -/

/-- A type gets classes that match. -/
theorem agree_classOf (ty : Ty) (span : Span) :
    P.Agree W g (fun _ => P.Classes) (P.left.classOf ty span) (P.right.classOf ty span) := by
  intro m m' hm
  obtain ⟨r, hr, h1⟩ := Engine.classOf_eq hm.remembers_left ty span
  obtain ⟨r', hr', h2⟩ := Engine.classOf_eq hm.remembers_right ty span
  rw [h1, h2]
  exact Agree.types (P.tables.classFor_alike ty span) _ _
    (hm.withMemory hr hm.remembers_left.current hr' hm.remembers_right.current)

/-- The static views of one class match. -/
theorem viewFor_alike (P : EnginePair F) (name : String) (span : Span) :
    Alike P.Views (P.left.table.viewFor name span) (P.right.table.viewFor name span) := by
  rcases (P.tables.viewFor_alike name span).elim with ⟨e, h1, h2⟩ | ⟨c, c', h1, h2, hc⟩
  · rw [h1, h2]
    exact .error e
  · rw [h1, h2]
    exact .ok ⟨hc, _, ClassTable.views_of_view h1⟩

/-- A name gets static views that match. -/
theorem agree_staticView (name : String) (span : Span) :
    P.Agree W g (fun _ => P.Views) (P.left.staticView name span)
      (P.right.staticView name span) := by
  intro m m' hm
  obtain ⟨r, hr, h1⟩ := Engine.staticView_eq hm.remembers_left name span
  obtain ⟨r', hr', h2⟩ := Engine.staticView_eq hm.remembers_right name span
  rw [h1, h2]
  exact Agree.types (P.viewFor_alike name span) _ _
    (hm.withMemory hr hm.remembers_left.current hr' hm.remembers_right.current)

/-- Written types that mean matching classes wherever a body sees some parameters at most. -/
def SameMeaning (P : EnginePair F) (g : List String) (e e' : TypeExpr) : Prop :=
  ∀ params : TypeParams, params.Within g →
    Alike P.Classes (P.left.table.meaning params e) (P.right.table.meaning params e')

/-- Written types of one meaning resolve to classes that match, whatever the two scopes remember. -/
theorem agree_resolveType {e e' : TypeExpr} (h : P.SameMeaning g e e') :
    P.Agree W g (fun _ => P.Classes) (P.left.resolveType e) (P.right.resolveType e') := by
  intro m m' hm
  obtain ⟨r, k, hr, hk, h1⟩ := Engine.resolveType_eq e hm.remembers_left
  obtain ⟨r', k', hr', hk', h2⟩ := Engine.resolveType_eq e' hm.remembers_right
  rw [h1, h2, hm.scope.typeParams_eq]
  exact Agree.types (h _ hm.within) _ _ (hm.withMemory hr hk hr' hk')

/-- A bare name gives static views that match, or nothing on either side. -/
theorem agree_staticClass (name : String) (span : Span) :
    P.Agree W g (fun _ => Option.Rel P.Views) (P.left.staticClass name span)
      (P.right.staticClass name span) := by
  intro m m' hm
  obtain ⟨r, k, hr, hk, h1⟩ := Engine.staticClass_eq hm.remembers_left name span
  obtain ⟨r', k', hr', hk', h2⟩ := Engine.staticClass_eq hm.remembers_right name span
  have hview : Alike (Option.Rel P.Views) (P.left.table.namedView name span)
      (P.right.table.namedView name span) := by
    unfold ClassTable.namedView
    rw [P.tables.resolve?_eq]
    cases P.left.table.imports.resolve? name with
    | none => exact .ok .none
    | some full =>
      rcases (P.viewFor_alike full span).elim with ⟨e, h3, h4⟩ | ⟨c, c', h3, h4, hc⟩
      · simp only [h3, h4]
        exact .error e
      · simp only [h3, h4]
        exact .ok (.some hc)
  rw [h1, h2]
  exact Agree.types hview _ _ (hm.withMemory hr hk hr' hk')

/-! ## The heap and the output -/

theorem agree_contents {o o' : ObjectRef F} (ho : P.Objects W o o') :
    P.Agree W g (fun V => Option.Rel (P.Instances V)) (EvalM.contents o) (EvalM.contents o') :=
  fun _ _ hm => .ok (le_refl W) (hm.contents ho) hm

/-- Fields of objects that stand for each other hold values that do. -/
theorem agree_field? {o o' : ObjectRef F} (ho : P.Objects W o o') (name : String) :
    P.Agree W g (fun V => Option.Rel (P.Variables V)) (EvalM.field? o name)
      (EvalM.field? o' name) := by
  refine Agree.bind (agree_contents ho) fun V _ i i' hi => Agree.pure ?_
  rcases rel_elim hi with ⟨rfl, rfl⟩ | ⟨x, x', rfl, rfl, hx⟩
  · exact .none
  · exact hx.fields.lookup name

theorem agree_modifyContents {o o' : ObjectRef F} (ho : P.Objects W o o')
    {f f' : Instance F → Instance F}
    (hf : ∀ {x x'}, P.Instances W x x' → P.Instances W (f x) (f' x')) :
    P.Agree W g Same (EvalM.modifyContents o f) (EvalM.modifyContents o' f') :=
  fun _ _ hm => .ok (le_refl W) rfl (hm.modifyContents ho hf)

/-- Values that stand for each other are stored in objects that do. -/
theorem agree_setField {o o' : ObjectRef F} (ho : P.Objects W o o') (name : String)
    {v v' : Value F} (hv : P.Values W v v') :
    P.Agree W g Same (EvalM.setField o name v) (EvalM.setField o' name v') := by
  refine Agree.bind (agree_field? ho name) fun V hV x x' hx => ?_
  rcases rel_elim hx with ⟨rfl, rfl⟩ | ⟨x, x', rfl, rfl, -⟩
  · exact Agree.pure rfl
  · refine Agree.bind (agree_modifyContents (ho.mono hV) fun hi => ?_) fun _ _ _ _ _ => Agree.pure rfl
    exact ⟨hi.fields.setIn name (hv.mono hV), hi.host⟩

/-- New objects stand for each other from then on. -/
theorem agree_newObject {c c' : RuntimeClass F} (hc : P.Classes c c')
    {fs fs' : List (String × Variable F)} (hfs : P.Entries W fs fs') :
    P.Agree W g P.Objects (EvalM.newObject c fs) (EvalM.newObject c' fs') := by
  intro m m' hm
  have hempty : P.Instances W { fields := fs } { fields := fs' } := ⟨hfs, .none⟩
  obtain ⟨V, hV, hpaired, hm'⟩ := hm.pushObject hempty
  exact .ok hV ⟨hpaired, hc⟩ hm'

/-- Fields are filled in the same order, with default values. -/
theorem agree_newFields (span : Span) : ∀ (slots : List FieldSlot) {W : Pairing}
    {made made' : List (String × Variable F)}, P.Entries W made made' →
    P.Agree W g (fun V => P.Entries V) (P.left.newFields span slots made)
      (P.right.newFields span slots made')
  | [], W, made, made', hmade => by
    unfold Engine.newFields
    exact Agree.pure (List.rel_reverse hmade)
  | slot :: rest, W, made, made', hmade => by
    unfold Engine.newFields
    rcases rel_elim (hmade.lookup slot.name) with ⟨h1, h2⟩ | ⟨v, v', h1, h2, -⟩
    · rw [h1, h2]
      refine Agree.bind (agree_classOf slot.ty span) fun V hV c c' hc => ?_
      exact agree_newFields span rest
        (.cons ⟨rfl, hc, Values.defaultFor hc⟩ (entries_mono hV hmade))
    · rw [h1, h2]
      exact agree_newFields span rest hmade

/-- Allocation makes objects that stand for each other. -/
theorem agree_allocate {c c' : RuntimeClass F} (hc : P.Classes c c') (span : Span) :
    P.Agree W g P.Objects (P.left.allocate c span) (P.right.allocate c' span) := by
  unfold Engine.allocate
  rw [hc.allFields_eq]
  exact Agree.bind (agree_newFields span _ .nil) fun V _ fs fs' hfs => agree_newObject hc hfs

theorem agree_write (text : String) :
    P.Agree W g Same (P.left.write text) (P.right.write text) := by
  unfold Engine.write
  rw [P.sink_eq]
  split
  · exact Agree.pure rfl
  · exact fun _ _ hm => .ok (le_refl W) rfl (hm.withOutput text)

end EnginePair

end Middleweight
