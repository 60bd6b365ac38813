import Middleweight.Proofs.ClassTable.Cycles
import Middleweight.Proofs.Members.Errors
import Middleweight.Proofs.Members.Views

/-!
# Sessions with a registry

A registry is asked for classes again and again, and goes on after a request that failed. Here it is
taken as a store that is written to on the way: a class is put into the memo as soon as it is made,
before the classes that extend it. All that can go wrong with a class is found out before its base
is asked for; so a request that fails has written nothing, and the answers are those of
`Registry.classOf`, `Registry.instantiate` and `Registry.staticView`, which give a new registry only
when all went well.

* `Request.perform_eq` : writing on the way makes no difference
* `Registry.Reachable.coherent` : what the memos of a registry hold
* `registry_sessions` : a session with a registry of an acyclic table
-/

namespace Middleweight

variable {F : Type}

/-! ## Writing on the way -/

/-- Computations on a registry; what they have written stays, also when they fail. -/
abbrev RegistryM (F : Type) := EStateM TypeError (Registry F)

namespace Registry

/-- Puts an instantiation into the memo. -/
def keepInstance (key : ClassTy) (c : RuntimeClass F) : RegistryM F (RuntimeClass F) := do
  modify fun r => { r with instances := (key, c) :: r.instances }
  return c

/-- Puts a static view into the memo. -/
def keepView (name : String) (c : RuntimeClass F) : RegistryM F (RuntimeClass F) := do
  modify fun r => { r with staticViews := (name, c) :: r.staticViews }
  return c

/-- The instantiation of a class type with resolved arguments; it is kept once it is made. -/
def makeInstance (t : ClassTable F) (span : Span) : Nat → ClassTy → RegistryM F (RuntimeClass F)
  | 0, key => throw (.endlessBases key.name span)
  | fuel + 1, key => do
    match (← get).instance? key with
    | some c => return c
    | none =>
      match t.template key.name span with
      | .error e => throw e
      | .ok tm =>
        if tm.generics.length ≠ key.args.length then
          throw (.genericArity key.name tm.generics.length key.args.length span)
        else
          match tm.base with
          | none => keepInstance key (.ofTemplate tm key none)
          | some base =>
            match Ty.firstUnboundIn? (tm.baseKey base key.args).args with
            | some name => throw (.unboundGeneric name span)
            | none => do
              let b ← makeInstance t span fuel (tm.baseKey base key.args)
              keepInstance key (.ofTemplate tm key (some b))

/-- The static view of a class; it is kept once it is made. -/
def makeView (t : ClassTable F) (span : Span) : Nat → String → RegistryM F (RuntimeClass F)
  | 0, name => throw (.endlessBases name span)
  | fuel + 1, name => do
    match (← get).staticView? name with
    | some c => return c
    | none =>
      match t.template name span with
      | .error e => throw e
      | .ok tm =>
        match tm.base with
        | none => keepView name (.staticOfTemplate tm none)
        | some base => do
          let b ← makeView t span fuel base.name
          keepView name (.staticOfTemplate tm (some b))

/-- What a request reports: a class and the new registry, or an error and the old one. -/
def report (r : Registry F) : Except TypeError (RuntimeClass F × Registry F) →
    EStateM.Result TypeError (Registry F) (RuntimeClass F)
  | .ok (c, r') => .ok c r'
  | .error e => .error e r

theorem get_bind {α : Type} (f : Registry F → RegistryM F α) (r : Registry F) :
    EStateM.bind get f r = f r r :=
  rfl

theorem makeInstance_eq {t : ClassTable F} {span : Span} : ∀ (fuel : Nat) (key : ClassTy)
    (r : Registry F),
    makeInstance t span fuel key r = report r (instantiateWithin t fuel r key span) := by
  intro fuel
  induction fuel with
  | zero => exact fun _ _ => rfl
  | succ fuel ih =>
    intro key r
    rw [makeInstance, instantiateWithin]
    show EStateM.bind get _ r = _
    rw [get_bind]
    dsimp only
    -- Nothing is written before the base is there, so an error leaves the registry as it was.
    cases r.instance? key with
    | some c => rfl
    | none =>
      dsimp only
      cases t.template key.name span with
      | error e => rfl
      | ok tm =>
        dsimp only
        split
        · rfl
        · cases tm.base with
          | none => rfl
          | some base =>
            dsimp only
            rw [show Ty.resolvedAll (base.substitute (Bindings.zip tm.generics key.args)).args =
              (tm.baseKey base key.args).args from rfl]
            cases Ty.firstUnboundIn? (tm.baseKey base key.args).args with
            | some name => rfl
            | none =>
              show EStateM.bind (makeInstance t span fuel (tm.baseKey base key.args)) _ r = _
              rw [EStateM.bind, ih,
                show (⟨base.name, (tm.baseKey base key.args).args⟩ : ClassTy) =
                  tm.baseKey base key.args from rfl]
              dsimp only
              cases instantiateWithin t fuel r (tm.baseKey base key.args) span with
              | error e => rfl
              | ok x => rfl

theorem makeView_eq {t : ClassTable F} {span : Span} : ∀ (fuel : Nat) (name : String)
    (r : Registry F),
    makeView t span fuel name r = report r (staticViewWithin t fuel r name span) := by
  intro fuel
  induction fuel with
  | zero => exact fun _ _ => rfl
  | succ fuel ih =>
    intro name r
    rw [makeView, staticViewWithin]
    show EStateM.bind get _ r = _
    rw [get_bind]
    dsimp only
    cases r.staticView? name with
    | some c => rfl
    | none =>
      dsimp only
      cases t.template name span with
      | error e => rfl
      | ok tm =>
        dsimp only
        cases tm.base with
        | none => rfl
        | some base =>
          show EStateM.bind (makeView t span fuel base.name) _ r = _
          rw [EStateM.bind, ih]
          dsimp only
          cases staticViewWithin t fuel r base.name span with
          | error e => rfl
          | ok x => rfl

end Registry

/-- Something that is asked of a registry. -/
inductive Request where
  | classOf (ty : Ty) (span : Span)
  | «instantiate» (ty : ClassTy) (span : Span)
  | staticView (name : String) (span : Span)

namespace Request

/-- The answer of a registry: a class and the registry with it, or an error. -/
def answer (t : ClassTable F) (r : Registry F) :
    Request → Except TypeError (RuntimeClass F × Registry F)
  | classOf ty span => r.classOf t ty span
  | «instantiate» ty span => r.instantiate t ty span
  | staticView name span => r.staticView t name span

/-- Instantiates a class type on a registry that is written to on the way. -/
def instantiateOn (t : ClassTable F) (ty : ClassTy) (span : Span) : RegistryM F (RuntimeClass F) :=
  let args := Ty.resolvedAll ty.args
  match Ty.firstUnboundIn? args with
  | some name => throw (.unboundGeneric name span)
  | none => Registry.makeInstance t span t.height ⟨ty.name, args⟩

/-- Carries a request out on a registry that is written to on the way. -/
def perform (t : ClassTable F) : Request → RegistryM F (RuntimeClass F)
  | classOf ty span =>
    match ty.resolved with
    | .cls name args => instantiateOn t ⟨name, args⟩ span
    | .unbound name | .bound name _ => throw (.unboundGeneric name span)
  | «instantiate» ty span => instantiateOn t ty span
  | staticView name span => Registry.makeView t span t.height name

variable {t : ClassTable F}

theorem instantiateOn_eq (ty : ClassTy) (span : Span) (r : Registry F) :
    instantiateOn t ty span r = r.report (r.instantiate t ty span) := by
  unfold instantiateOn Registry.instantiate
  dsimp only
  cases Ty.firstUnboundIn? (Ty.resolvedAll ty.args) with
  | some name => rfl
  | none => exact Registry.makeInstance_eq _ _ r

/-- Writing on the way makes no difference; in particular, a request that fails writes nothing. -/
theorem perform_eq (q : Request) (r : Registry F) : q.perform t r = r.report (q.answer t r) := by
  cases q with
  | «instantiate» ty span => exact instantiateOn_eq ty span r
  | staticView name span => exact Registry.makeView_eq _ _ r
  | classOf ty span =>
    unfold perform answer Registry.classOf
    dsimp only
    cases ty.resolved with
    | cls name args => exact instantiateOn_eq _ span r
    | unbound name => rfl
    | bound name u => rfl

end Request

namespace Registry

/-- The registry that a request leaves, however it ends. -/
def left : EStateM.Result TypeError (Registry F) (RuntimeClass F) → Registry F
  | .ok _ r | .error _ r => r

/-- The registry after some requests, whether they fail or not. -/
def after (t : ClassTable F) : Registry F → List Request → Registry F
  | r, [] => r
  | r, q :: rest => (left (q.perform t r)).after t rest

variable {t : ClassTable F} {r r' : Registry F}

theorem Reachable.answer {q : Request} {c : RuntimeClass F} (h : Reachable t r)
    (hq : q.answer t r = .ok (c, r')) : Reachable t r' := by
  cases q with
  | classOf ty span => exact h.classOf hq
  | «instantiate» ty span => exact h.instantiate hq
  | staticView name span => exact h.staticView hq

theorem Reachable.left {q : Request} (h : Reachable t r) :
    Reachable t (left (q.perform t r)) := by
  rw [Request.perform_eq]
  cases hq : q.answer t r with
  | error e => exact h
  | ok x => exact h.answer hq

theorem Reachable.after {calls : List Request} (h : Reachable t r) :
    Reachable t (r.after t calls) := by
  induction calls generalizing r with
  | nil => exact h
  | cons q rest ih => exact ih h.left

/-! ## What memos hold -/

/-- The memos have the base of each class they have, and no type and no name twice. -/
structure Shares (r : Registry F) : Prop where
  base : ∀ e ∈ r.instances, ∀ b, e.2.base? = some b → (b.ty, b) ∈ r.instances
  once : (r.instances.map Prod.fst).Nodup
  viewBase : ∀ e ∈ r.staticViews, ∀ b, e.2.base? = some b → (b.name, b) ∈ r.staticViews
  viewOnce : (r.staticViews.map Prod.fst).Nodup

theorem Shares.empty : Shares ({} : Registry F) :=
  ⟨fun _ he => absurd he List.not_mem_nil, List.nodup_nil,
    fun _ he => absurd he List.not_mem_nil, List.nodup_nil⟩

/-- A type that is not found is not there. -/
theorem notMem_of_instance? {key : ClassTy} (hk : Ty.AllGround key.args)
    (h : r.instance? key = none) : key ∉ r.instances.map Prod.fst := by
  intro hmem
  obtain ⟨e, he, rfl⟩ := List.mem_map.mp hmem
  have hnone := List.find?_eq_none.mp (Option.map_eq_none_iff.mp h) e he
  exact hnone ((ClassTy.beq_iff_of_allGround hk).mpr rfl)

theorem notMem_of_staticView? {name : String} (h : r.staticView? name = none) :
    name ∉ r.staticViews.map Prod.fst := by
  rw [← isSome_lookup_iff, show r.staticViews.lookup name = none from h]
  exact Bool.false_ne_true

/-- Adds an instantiation whose base is there, under a type that is not. -/
theorem Shares.insertInstance (hr : r.Shares) {key : ClassTy} {c : RuntimeClass F}
    (hnew : key ∉ r.instances.map Prod.fst)
    (hbase : ∀ b, c.base? = some b → (b.ty, b) ∈ r.instances) :
    Shares { r with instances := (key, c) :: r.instances } where
  base e he b hb := by
    rcases List.mem_cons.mp he with rfl | he
    · exact List.mem_cons_of_mem _ (hbase b hb)
    · exact List.mem_cons_of_mem _ (hr.base e he b hb)
  once := List.nodup_cons.mpr ⟨hnew, hr.once⟩
  viewBase := hr.viewBase
  viewOnce := hr.viewOnce

theorem Shares.insertView (hr : r.Shares) {name : String} {c : RuntimeClass F}
    (hnew : name ∉ r.staticViews.map Prod.fst)
    (hbase : ∀ b, c.base? = some b → (b.name, b) ∈ r.staticViews) :
    Shares { r with staticViews := (name, c) :: r.staticViews } where
  base := hr.base
  once := hr.once
  viewBase e he b hb := by
    rcases List.mem_cons.mp he with rfl | he
    · exact List.mem_cons_of_mem _ (hbase b hb)
    · exact List.mem_cons_of_mem _ (hr.viewBase e he b hb)
  viewOnce := List.nodup_cons.mpr ⟨hnew, hr.viewOnce⟩

/-- A registry that has all that another one has. -/
structure Includes (r' r : Registry F) : Prop where
  instances : r.instances ⊆ r'.instances
  staticViews : r.staticViews ⊆ r'.staticViews

theorem Includes.refl (r : Registry F) : r.Includes r := ⟨List.Subset.refl _, List.Subset.refl _⟩

theorem Includes.trans {r'' : Registry F} (h : r'.Includes r) (h' : r''.Includes r') :
    r''.Includes r :=
  ⟨List.Subset.trans h.instances h'.instances, List.Subset.trans h.staticViews h'.staticViews⟩

/--
What making an instantiation adds: the instantiation itself and some of its bases, none of which is
further from the root than it is.
-/
theorem instantiateWithin_adds {span : Span} : ∀ {fuel : Nat} {r : Registry F} {key : ClassTy}
    {c : RuntimeClass F} {r' : Registry F}, r.Valid t → r.Shares → Ty.AllGround key.args →
    instantiateWithin t fuel r key span = .ok (c, r') →
    r'.Shares ∧ r'.Includes r ∧ (key, c) ∈ r'.instances ∧
      ∀ e ∈ r'.instances, e ∈ r.instances ∨ ∃ k ≤ c.layers.length, t.Climbs e.1.name k := by
  intro fuel
  induction fuel with
  | zero => exact fun _ _ _ h => nomatch h
  | succ fuel ih =>
    intro r key c r' hr hs hk h
    have hi := (instantiateWithin_ok hr hk h).1
    rw [instantiateWithin] at h
    split at h
    · next hc =>
      cases h
      obtain ⟨e, he, heq⟩ := Option.map_eq_some_iff.mp hc
      have hkey : e.1 = key := (ClassTy.beq_iff_of_allGround hk).mp (by simpa using List.find?_some he)
      refine ⟨hs, .refl r, ?_, fun e he => .inl he⟩
      rw [← hkey, ← heq]
      exact List.mem_of_find?_eq_some he
    · next hnone =>
      have hnew := notMem_of_instance? hk hnone
      split at h
      · cases h
      · next tm htm =>
        split at h
        · cases h
        · split at h
          · cases h
            refine ⟨hs.insertInstance hnew (fun b hb => nomatch hb),
              ⟨List.subset_cons_self _ _, List.Subset.refl _⟩, List.mem_cons_self, fun e he => ?_⟩
            rcases List.mem_cons.mp he with rfl | he
            · exact .inr ⟨_, Nat.le_refl _, hi.climbs⟩
            · exact .inl he
          · next base hb =>
            dsimp only at h
            split at h
            · cases h
            · next hub =>
              split at h
              · cases h
              · next b r₁ hrec =>
                cases h
                have hground : Ty.AllGround (tm.baseKey base key.args).args := by
                  have := Ty.allGround_resolvedAll hub
                  rwa [Ty.resolvedAll_resolvedAll] at this
                have hbase := (instantiateWithin_ok hr hground hrec).1
                obtain ⟨hs₁, hincl, hmem, hadded⟩ := ih hr hs hground hrec
                have hclimbs : t.Climbs key.name (b.layers.length + 1) := hi.climbs
                -- The bases of a class are nearer to the root, so the class is none of them.
                have hnew₁ : key ∉ r₁.instances.map Prod.fst := by
                  intro hkey
                  obtain ⟨e, he, rfl⟩ := List.mem_map.mp hkey
                  rcases hadded e he with he | ⟨k, hle, hk⟩
                  · exact hnew (List.mem_map_of_mem he)
                  · have := hclimbs.unique hk
                    omega
                refine ⟨hs₁.insertInstance hnew₁ fun b' hb' => ?_,
                  ⟨fun e he => List.mem_cons_of_mem _ (hincl.instances he), hincl.staticViews⟩,
                  List.mem_cons_self, fun e he => ?_⟩
                · rw [RuntimeClass.base?_ofTemplate _ _ hbase.isStaticView_eq] at hb'
                  cases hb'
                  rw [hbase.ty_eq]
                  exact hmem
                · rcases List.mem_cons.mp he with rfl | he
                  · exact .inr ⟨_, Nat.le_refl _, hclimbs⟩
                  · rcases hadded e he with he | ⟨k, hle, hk⟩
                    · exact .inl he
                    · exact .inr ⟨k, Nat.le_succ_of_le hle, hk⟩

/-- What making a static view adds: the view itself and those of some of its bases. -/
theorem staticViewWithin_adds {span : Span} : ∀ {fuel : Nat} {r : Registry F} {name : String}
    {c : RuntimeClass F} {r' : Registry F}, r.Valid t → r.Shares →
    staticViewWithin t fuel r name span = .ok (c, r') →
    r'.Shares ∧ r'.Includes r ∧ (name, c) ∈ r'.staticViews ∧
      ∀ e ∈ r'.staticViews, e ∈ r.staticViews ∨ ∃ k ≤ c.layers.length, t.Climbs e.1 k := by
  intro fuel
  induction fuel with
  | zero => exact fun _ _ h => nomatch h
  | succ fuel ih =>
    intro r name c r' hr hs h
    have hv := (staticViewWithin_ok hr h).1
    rw [staticViewWithin] at h
    split at h
    · next hc =>
      cases h
      exact ⟨hs, .refl r, mem_of_lookup hc, fun e he => .inl he⟩
    · next hnone =>
      have hnew := notMem_of_staticView? hnone
      split at h
      · cases h
      · next tm htm =>
        split at h
        · cases h
          refine ⟨hs.insertView hnew (fun b hb => nomatch hb),
            ⟨List.Subset.refl _, List.subset_cons_self _ _⟩, List.mem_cons_self, fun e he => ?_⟩
          rcases List.mem_cons.mp he with rfl | he
          · exact .inr ⟨_, Nat.le_refl _, hv.climbs⟩
          · exact .inl he
        · next base hb =>
          split at h
          · cases h
          · next b r₁ hrec =>
            cases h
            have hbase := (staticViewWithin_ok hr hrec).1
            obtain ⟨hs₁, hincl, hmem, hadded⟩ := ih hr hs hrec
            have hclimbs : t.Climbs name (b.layers.length + 1) := hv.climbs
            have hnew₁ : name ∉ r₁.staticViews.map Prod.fst := by
              intro hname
              obtain ⟨e, he, rfl⟩ := List.mem_map.mp hname
              rcases hadded e he with he | ⟨k, hle, hk⟩
              · exact hnew (List.mem_map_of_mem he)
              · have := hclimbs.unique hk
                omega
            refine ⟨hs₁.insertView hnew₁ fun b' hb' => ?_,
              ⟨hincl.instances, fun e he => List.mem_cons_of_mem _ (hincl.staticViews he)⟩,
              List.mem_cons_self, fun e he => ?_⟩
            · rw [RuntimeClass.base?_staticOfTemplate _ hbase.isStaticView_eq] at hb'
              cases hb'
              rw [RuntimeClass.name, hbase.ty_eq]
              exact hmem
            · rcases List.mem_cons.mp he with rfl | he
              · exact .inr ⟨_, Nat.le_refl _, hclimbs⟩
              · rcases hadded e he with he | ⟨k, hle, hk⟩
                · exact .inl he
                · exact .inr ⟨k, Nat.le_succ_of_le hle, hk⟩

/-- What a request adds to the memos. -/
theorem answer_adds (hr : r.Valid t) (hs : r.Shares) {q : Request} {c : RuntimeClass F}
    (h : q.answer t r = .ok (c, r')) : r'.Shares ∧ r'.Includes r ∧
      (c.isStaticView = false → (c.ty, c) ∈ r'.instances) := by
  have hinst : ∀ {ty : ClassTy} {span : Span}, r.instantiate t ty span = .ok (c, r') →
      r'.Shares ∧ r'.Includes r ∧ (c.isStaticView = false → (c.ty, c) ∈ r'.instances) := by
    intro ty span h
    have hty := (instantiate_ok hr h).1.ty_eq
    unfold Registry.instantiate at h
    dsimp only at h
    split at h
    · cases h
    · next hub =>
      have hground := Ty.allGround_resolvedAll hub
      rw [Ty.resolvedAll_resolvedAll] at hground
      obtain ⟨hs', hincl, hmem, -⟩ := instantiateWithin_adds hr hs hground h
      exact ⟨hs', hincl, fun _ => hty ▸ hmem⟩
  cases q with
  | «instantiate» ty span => exact hinst h
  | classOf ty span =>
    unfold Request.answer Registry.classOf at h
    dsimp only at h
    split at h
    · exact hinst h
    · cases h
    · cases h
  | staticView name span =>
    obtain ⟨hs', hincl, -, -⟩ := staticViewWithin_adds hr hs h
    refine ⟨hs', hincl, fun hview => ?_⟩
    rw [(staticView_ok hr h).1.isStaticView_eq] at hview
    cases hview

theorem Reachable.shares (h : Reachable t r) : r.Shares := by
  induction h with
  | empty => exact .empty
  | @classOf r r' ty span c h hc ih => exact (answer_adds (q := .classOf ty span) h.valid ih hc).1
  | @«instantiate» r r' ty span c h hc ih =>
    exact (answer_adds (q := .instantiate ty span) h.valid ih hc).1
  | @staticView r r' name span c h hc ih =>
    exact (answer_adds (q := .staticView name span) h.valid ih hc).1

theorem Reachable.includes_after (h : Reachable t r) (calls : List Request) :
    (r.after t calls).Includes r := by
  induction calls generalizing r with
  | nil => exact .refl r
  | cons q rest ih =>
    refine Includes.trans ?_ (ih h.left)
    rw [Request.perform_eq]
    cases hq : q.answer t r with
    | error e => exact .refl r
    | ok x => exact (answer_adds h.valid h.shares hq).2.1

/-! ## Coherent registries -/

/-- An entry of the memo of instantiations. -/
structure IsInstance (t : ClassTable F) (r : Registry F) (key : ClassTy) (c : RuntimeClass F) :
    Prop where
  found : r.instance? key = some c
  ty : c.ty = key
  isStaticView : c.isStaticView = false
  ground : ∀ a ∈ key.args, a.IsGround
  template : t.get? key.name = some c.own.template
  arity : c.own.template.generics.length = key.args.length
  base : Option.Rel (fun base b => r.instance? (c.own.template.baseKey base key.args) = some b)
    c.own.template.base c.base?

/-- An entry of the memo of static views. -/
structure IsView (t : ClassTable F) (r : Registry F) (name : String) (c : RuntimeClass F) :
    Prop where
  found : r.staticView? name = some c
  ty : c.ty = ⟨name, []⟩
  isStaticView : c.isStaticView = true
  template : t.get? name = some c.own.template
  base : Option.Rel (fun base b => r.staticView? base.name = some b) c.own.template.base c.base?

/-- Each entry of the memos is stored under its own type, over the entry of its base. -/
structure Coherent (t : ClassTable F) (r : Registry F) : Prop where
  instances : ∀ e ∈ r.instances, r.IsInstance t e.1 e.2
  once : (r.instances.map Prod.fst).Nodup
  staticViews : ∀ e ∈ r.staticViews, r.IsView t e.1 e.2
  viewOnce : (r.staticViews.map Prod.fst).Nodup

/-- An entry is what is found under its type, since the type determines it. -/
theorem Valid.instance?_of_mem (hr : r.Valid t) {key : ClassTy} {c : RuntimeClass F}
    (h : (key, c) ∈ r.instances) : r.instance? key = some c := by
  have hc : t.Instantiates key c := hr.instances _ h
  cases hfound : r.instance? key with
  | none => exact absurd (List.mem_map_of_mem h) (notMem_of_instance? hc.ground hfound)
  | some d => rw [(hr.instance? hc.ground hfound).unique hc]

theorem Valid.staticView?_of_mem (hr : r.Valid t) {name : String} {c : RuntimeClass F}
    (h : (name, c) ∈ r.staticViews) : r.staticView? name = some c := by
  have hc : t.Views name c := hr.staticViews _ h
  cases hfound : r.staticView? name with
  | none => exact absurd (List.mem_map_of_mem h) (notMem_of_staticView? hfound)
  | some d => rw [(hr.staticView? hfound).unique hc]

theorem Valid.isInstance (hr : r.Valid t) (hs : r.Shares) {key : ClassTy} {c : RuntimeClass F}
    (h : (key, c) ∈ r.instances) : r.IsInstance t key c := by
  have hc : t.Instantiates key c := hr.instances _ h
  have hground := Ty.allGround_iff.mp hc.ground
  refine ⟨hr.instance?_of_mem h, hc.ty_eq, hc.isStaticView_eq, hground, ?_, ?_, ?_⟩
  · cases hc with
    | root _ hg _ _ => exact hg
    | derived _ hg _ _ _ => exact hg
  · cases hc with
    | root _ _ hlen _ => exact hlen
    | derived _ _ hlen _ _ => exact hlen
  · cases hc with
    | @root _ tm _ _ _ hb =>
      show Option.Rel _ tm.base none
      rw [hb]
      exact .none
    | @derived _ tm base b _ _ _ hb hbase =>
      have hbase? := RuntimeClass.base?_ofTemplate tm key hbase.isStaticView_eq
      have hmem := hr.instance?_of_mem (hs.base _ h b hbase?)
      rw [hbase.ty_eq] at hmem
      show Option.Rel _ tm.base _
      rw [hb, hbase?]
      exact .some hmem

theorem Valid.isView (hr : r.Valid t) (hs : r.Shares) {name : String} {c : RuntimeClass F}
    (h : (name, c) ∈ r.staticViews) : r.IsView t name c := by
  have hc : t.Views name c := hr.staticViews _ h
  refine ⟨hr.staticView?_of_mem h, hc.ty_eq, hc.isStaticView_eq, ?_, ?_⟩
  · cases hc with
    | root hg _ => exact hg
    | derived hg _ _ => exact hg
  · cases hc with
    | @root _ tm _ hb =>
      show Option.Rel _ tm.base none
      rw [hb]
      exact .none
    | @derived _ tm base b _ hb hbase =>
      have hbase? := RuntimeClass.base?_staticOfTemplate tm hbase.isStaticView_eq
      have hmem := hr.staticView?_of_mem (hs.viewBase _ h b hbase?)
      rw [RuntimeClass.name, hbase.ty_eq] at hmem
      show Option.Rel _ tm.base _
      rw [hb, hbase?]
      exact .some hmem

/-- Every registry that requests lead to is coherent. -/
theorem Reachable.coherent (h : Reachable t r) : r.Coherent t where
  instances _ he := h.valid.isInstance h.shares he
  once := h.shares.once
  staticViews _ he := h.valid.isView h.shares he
  viewOnce := h.shares.viewOnce

end Registry

/-! ## Requests end -/

/-- Whether a walk along bases has been given up because it does not end. -/
def TypeError.isEndless : TypeError → Bool
  | .endlessBases _ _ => true
  | _ => false

theorem TypeError.isEndless_of_isMisnamed {e : TypeError} (h : e.isMisnamed = true) :
    e.isEndless = false := by
  cases e <;> first | rfl | cases h

namespace Registry

open Bases

variable {t : ClassTable F} {r r' : Registry F} {e : TypeError}

theorem instantiateWithin_error {span : Span} : ∀ {fuel : Nat} {r : Registry F} {key : ClassTy}
    {l : List String}, Ascends t.baseName? key.name l → l.length ≤ fuel →
    instantiateWithin t fuel r key span = .error e → e.isEndless = false := by
  intro fuel
  induction fuel with
  | zero =>
    intro r key l hl hle
    cases hl <;> simp at hle
  | succ fuel ih =>
    intro r key l hl hle h
    rw [instantiateWithin] at h
    split at h
    · cases h
    · split at h
      · next htm =>
        cases h
        exact TypeError.isEndless_of_isMisnamed (ClassTable.template_error htm)
      · next tm htm =>
        split at h
        · cases h
          rfl
        · split at h
          · cases h
          · next base hb =>
            dsimp only at h
            split at h
            · cases h
              rfl
            · split at h
              · next hrec =>
                cases h
                obtain ⟨rest, hrest, rfl⟩ := hl.of_step (ClassTable.baseName?_of_template htm hb)
                refine ih ?_ (Nat.le_of_succ_le_succ hle) hrec
                exact hrest
              · cases h

theorem staticViewWithin_error {span : Span} : ∀ {fuel : Nat} {r : Registry F} {name : String}
    {l : List String}, Ascends t.baseName? name l → l.length ≤ fuel →
    staticViewWithin t fuel r name span = .error e → e.isEndless = false := by
  intro fuel
  induction fuel with
  | zero =>
    intro r name l hl hle
    cases hl <;> simp at hle
  | succ fuel ih =>
    intro r name l hl hle h
    rw [staticViewWithin] at h
    split at h
    · cases h
    · split at h
      · next htm =>
        cases h
        exact TypeError.isEndless_of_isMisnamed (ClassTable.template_error htm)
      · next tm htm =>
        split at h
        · cases h
        · next base hb =>
          split at h
          · next hrec =>
            cases h
            obtain ⟨rest, hrest, rfl⟩ := hl.of_step (ClassTable.baseName?_of_template htm hb)
            exact ih hrest (Nat.le_of_succ_le_succ hle) hrec
          · cases h

/-- An instantiation is not given up if bases end. -/
theorem instantiate_error {ty : ClassTy} {l : List String} (hl : Ascends t.baseName? ty.name l)
    {span : Span} (h : r.instantiate t ty span = .error e) : e.isEndless = false := by
  unfold Registry.instantiate at h
  dsimp only at h
  split at h
  · cases h
    rfl
  · refine instantiateWithin_error ?_ (ClassTable.length_le_height hl) h
    exact hl

/-- Neither is a static view. -/
theorem staticView_error {name : String} {l : List String} (hl : Ascends t.baseName? name l)
    {span : Span} (h : r.staticView t name span = .error e) : e.isEndless = false :=
  staticViewWithin_error hl (ClassTable.length_le_height hl) h

/-- In an acyclic table no request is given up. -/
theorem answer_error (ht : t.Acyclic) {q : Request} (h : q.answer t r = .error e) :
    e.isEndless = false := by
  cases q with
  | «instantiate» ty span =>
    obtain ⟨l, hl⟩ := ht.exists_ascends ty.name
    exact instantiate_error hl h
  | staticView name span =>
    obtain ⟨l, hl⟩ := ht.exists_ascends name
    exact staticView_error hl h
  | classOf ty span =>
    unfold Request.answer Registry.classOf at h
    dsimp only at h
    split at h
    · next name args _ =>
      obtain ⟨l, hl⟩ := ht.exists_ascends (ClassTy.mk name args).name
      exact instantiate_error hl h
    · cases h
      rfl
    · cases h
      rfl

/-! ## Classes of types -/

/-- The classes of two types are the same if the types are, once they are resolved. -/
theorem eq_iff_of_classOf (hr : r.Valid t) (hr' : r'.Valid t) {a b : Ty} {sp sp' : Span}
    {c d : RuntimeClass F} {r₁ r₂ : Registry F} (hc : r.classOf t a sp = .ok (c, r₁))
    (hd : r'.classOf t b sp' = .ok (d, r₂)) :
    (c = d ↔ a.resolved = b.resolved) ∧ (c.isSame d = true ↔ a.resolved = b.resolved) := by
  obtain ⟨hci, hca, -⟩ := classOf_ok hr hc
  obtain ⟨hdi, hdb, -⟩ := classOf_ok hr' hd
  have hty : c.ty = d.ty ↔ a.resolved = b.resolved := by
    rw [hca, hdb, RuntimeClass.asTy, RuntimeClass.asTy, ClassTy.toTy, ClassTy.toTy, Ty.cls.injEq,
      ← ClassTy.mk.injEq]
  have heq : c = d ↔ c.ty = d.ty := by
    refine ⟨fun h => h ▸ rfl, fun h => ?_⟩
    rw [h] at hci
    exact hci.unique hdi
  refine ⟨heq.trans hty, ?_⟩
  rw [RuntimeClass.isSame, hci.isStaticView_eq, hdi.isStaticView_eq, beq_self_eq_true,
    Bool.true_and, ClassTy.beq_iff_of_allGround hdi.ground, hty]

end Registry

/--
A session with a registry of an acyclic table. After any requests, failed ones among them:

* each entry of the memos is stored under its own type or name and no other, an instantiation has as
  many ground arguments as its template has parameters, and the base of an entry is the entry of the
  base of its template;
* a request that fails leaves the memos exactly as they were, although it writes to them on the way,
  and none runs on without end;
* the classes of two types, asked for at any two times, are the same exactly if the types are the
  same once they are resolved, and they stay in the memo.
-/
theorem registry_sessions {t : ClassTable F} (ht : t.Acyclic) (calls : List Request) :
    let r := Registry.after t {} calls
    r.Coherent t ∧
      (∀ (q : Request) e, q.answer t r = .error e →
        q.perform t r = .error e r ∧ e.isEndless = false) ∧
      (∀ (q : Request) c r', q.answer t r = .ok (c, r') → q.perform t r = .ok c r') ∧
      ∀ a sp c r₁, r.classOf t a sp = .ok (c, r₁) → ∀ (more : List Request) b sp' d r₂,
        (r₁.after t more).classOf t b sp' = .ok (d, r₂) →
        (c = d ↔ a.resolved = b.resolved) ∧ (c.isSame d = true ↔ a.resolved = b.resolved) ∧
          r₂.instance? c.ty = some c ∧ r₂.instance? d.ty = some d := by
  intro r
  have hr : Registry.Reachable t r := Registry.Reachable.empty.after
  refine ⟨hr.coherent, fun q e h => ⟨?_, Registry.answer_error ht h⟩, fun q c r' h => ?_,
    fun a sp c r₁ hc more b sp' d r₂ hd => ?_⟩
  · rw [Request.perform_eq, h]
    rfl
  · rw [Request.perform_eq, h]
    rfl
  · have hr₁ : Registry.Reachable t r₁ := hr.classOf hc
    have hmore : Registry.Reachable t (r₁.after t more) := hr₁.after
    have hr₂ : Registry.Reachable t r₂ := hmore.classOf hd
    obtain ⟨heq, hsame⟩ := Registry.eq_iff_of_classOf hr.valid hmore.valid hc hd
    have hcview := (Registry.classOf_ok hr.valid hc).1.isStaticView_eq
    have hdview := (Registry.classOf_ok hmore.valid hd).1.isStaticView_eq
    obtain ⟨-, -, hcmem⟩ := Registry.answer_adds (q := .classOf a sp) hr.valid hr.shares hc
    obtain ⟨-, hincl, hdmem⟩ :=
      Registry.answer_adds (q := .classOf b sp') hmore.valid hmore.shares hd
    have hkept := (hr₁.includes_after more).trans hincl
    exact ⟨heq, hsame, hr₂.valid.instance?_of_mem (hkept.instances (hcmem hcview)),
      hr₂.valid.instance?_of_mem (hdmem hdview)⟩

/-- A box, and a pair that is a box of its second component. -/
def pairTable : ClassTable Unit where
  classes :=
    [template "Object" [] none, template "Box" ["T"] (some ⟨"Object", []⟩),
      template "Pair" ["A", "B"] (some ⟨"Box", [.unbound "B"]⟩)]
  imports := {}
  natives := {}
where
  template (name : String) (generics : List String) (base : Option ClassTy) : Template Unit :=
    { name, generics, base, fields := [], constructors := [], methods := [], origin := .declared,
      span := {} }

/-- A pair, its static view, and requests that fail: too many arguments, an open one, no class. -/
def pairCalls : List Request :=
  [.classOf (.cls "Pair" [.named "Object", .bound "X" (.named "Object")]) {},
    .staticView "Pair" {},
    .classOf (.cls "Box" [.named "Object", .named "Object"]) {},
    .instantiate ⟨"Box", [.unbound "T"]⟩ {},
    .staticView "Crate" {}]

theorem registry_sessions_pair :
    pairTable.Acyclic ∧
      (Registry.after pairTable {} pairCalls).instances.map (fun e => e.2.text) =
        ["Pair<Object, Object>", "Box<Object>", "Object"] ∧
      (Registry.after pairTable {} pairCalls).Coherent pairTable ∧
      ∀ e r', (Request.staticView "Crate" {}).perform pairTable {} = .error e r' → r' = {} := by
  have ht : pairTable.Acyclic := by decide +kernel
  refine ⟨ht, by decide +kernel, (registry_sessions ht pairCalls).1, fun e r' h => ?_⟩
  have hanswer : (Request.staticView "Crate" {}).answer pairTable {} =
      .error (.unknownType "Crate" {}) := rfl
  have hperform := ((registry_sessions ht []).2.1 _ _ hanswer).1
  cases h.symm.trans hperform
  rfl

end Middleweight
