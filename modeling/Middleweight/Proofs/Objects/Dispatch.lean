import Middleweight.Proofs.Members.Views
import Middleweight.Proofs.Objects.Signatures

/-!
# Dispatch to the class of an object

The checker resolves a call over the declared type of the receiver, the engine over the class of the
value, which may extend it, and with arguments whose types may say more. So the engine may choose
another method, or find none or several. Where it finds one, that method stands at the class of the
one that the checker chose or below it, and returns what that one returns, for it takes its place.

* `Program.WellTyped.exists_resolution` : resolution does not fail on types
* `MemberSource.found_below` : what is found from a class that extends another
* `Program.WellTyped.returns_of_view`, `Program.WellTyped.returns_of_value` : what the chosen method
  returns
-/

namespace Middleweight

open NativeRegistry (standard)

variable {F : Type}

/-! ## Classes and the classes that they extend -/

namespace ClassTable

variable {t : ClassTable F} {c b d : RuntimeClass F}

theorem Offers.baseName? (h : t.Offers c) : t.baseName? c.name = c.base?.map RuntimeClass.name := by
  rcases h with hc | ⟨name, hc⟩
  · have hget := hc.get?
    obtain ⟨key, hi⟩ := hc
    rw [ClassTable.baseName?, hget, Option.bind_some]
    cases hi with
    | @root key tm _ _ _ hb =>
      show tm.base.map _ = _
      rw [hb]
      rfl
    | @derived key tm base b _ _ _ hb hi =>
      rw [RuntimeClass.base?_ofTemplate tm key hi.isStaticView_eq]
      show tm.base.map _ = _
      rw [hb, Option.map_some, Option.map_some, RuntimeClass.name, hi.ty_eq]
      rfl
  · have hget := Shows.get? ⟨name, hc⟩
    rw [ClassTable.baseName?, hget, Option.bind_some]
    cases hc with
    | @root name tm _ hb =>
      show tm.base.map _ = _
      rw [hb]
      rfl
    | @derived name tm base b _ hb hi =>
      rw [RuntimeClass.base?_staticOfTemplate tm hi.isStaticView_eq]
      show tm.base.map _ = _
      rw [hb, Option.map_some, Option.map_some, RuntimeClass.name, hi.ty_eq]

/-- The names of the classes that a class extends are on the walk from it. -/
theorem Offers.mem_of_extends (h : t.Offers c) (hd : c.Extends d) {l : List String}
    (hl : Bases.Ascends t.baseName? c.name l) : d.name ∈ l := by
  induction hd generalizing l with
  | refl c =>
    have hhead := hl.head?_eq
    exact List.mem_of_mem_head? hhead
  | @base c b d hb hd ih =>
    have hstep : t.baseName? c.name = some b.name := by rw [h.baseName?, hb]; rfl
    obtain ⟨rest, hrest, rfl⟩ := hl.of_step hstep
    exact List.mem_cons_of_mem _ (ih (h.extends (.base hb (.refl b))) hrest)

theorem Complete.inherits_of_extends (ht : t.Complete) (h : t.Offers c) (hd : c.Extends d) :
    t.inherits c.name d.name = true := by
  obtain ⟨n, hn⟩ := ht.climbs h.get?
  obtain ⟨l, hl⟩ := hn.ascends
  exact (inherits_iff_of_ascends hl).mpr (h.mem_of_extends hd hl)

/-- A class does not come back above itself. -/
theorem Complete.ne_of_base (ht : t.Complete) (h : t.Offers c) (hb : c.base? = some b)
    (hd : b.Extends d) : c.name ≠ d.name := by
  obtain ⟨n, hn⟩ := ht.climbs h.get?
  obtain ⟨l, hl⟩ := hn.ascends
  have hstep : t.baseName? c.name = some b.name := by rw [h.baseName?, hb]; rfl
  obtain ⟨rest, hrest, rfl⟩ := hl.of_step hstep
  have hmem := (h.extends (.base hb (.refl b))).mem_of_extends hd hrest
  intro heq
  rw [← heq] at hmem
  exact (List.nodup_cons.mp hl.nodup).1 hmem

theorem Complete.eq_of_extends (ht : t.Complete) (h : t.Offers c) (hd : c.Extends d)
    (hname : d.name = c.name) : d = c := by
  cases hd with
  | refl => rfl
  | base hb hrest => exact absurd hname.symm (ht.ne_of_base h hb hrest)

/-- A class that extends a name extends a class of that name. -/
theorem Complete.exists_extends (ht : t.Complete) (h : t.Offers c) {name : String}
    (hname : t.inherits c.name name = true) : ∃ d, c.Extends d ∧ d.name = name := by
  obtain ⟨n, hn⟩ := ht.climbs h.get?
  obtain ⟨l, hl⟩ := hn.ascends
  have hmem := (inherits_iff_of_ascends hl).mp hname
  clear hn hname
  generalize hcname : c.name = a at hl
  induction hl generalizing c with
  | last _ =>
    rw [List.mem_singleton] at hmem
    exact ⟨c, .refl c, hcname.trans hmem.symm⟩
  | @step a a' rest hstep _ ih =>
    rcases List.mem_cons.mp hmem with rfl | hmem
    · exact ⟨c, .refl c, hcname⟩
    · rw [← hcname, h.baseName?] at hstep
      obtain ⟨b, hb, hbname⟩ := Option.map_eq_some_iff.mp hstep
      obtain ⟨d, hd, hdname⟩ := ih (h.extends (.base hb (.refl b))) hmem hbname
      exact ⟨d, .base hb hd, hdname⟩

end ClassTable

/-! ## Arguments whose types say more -/

/-- A type that passes wherever another one does. -/
def ClassTable.Passes (t : ClassTable F) (a b : Ty) : Prop :=
  ∀ target : Ty, target.Formed t.arity? [] → t.check b target = true → t.check a target = true

theorem ClassTable.Passes.refl {t : ClassTable F} (a : Ty) : t.Passes a a := fun _ _ hc => hc

/-- What is applicable to arguments is applicable to those whose types say more. -/
theorem Signature.Settled.applicable_of_passes {t : ClassTable F} {s : Signature}
    (h : s.Settled t) {args tys : List Ty} (hpass : List.Forall₂ t.Passes args tys) {b : Bindings}
    (happ : t.applicable s tys = some b) : t.applicable s args = some b := by
  obtain ⟨rfl, hfits⟩ := h.applicable_iff.mp happ
  refine h.applicable_iff.mpr ⟨rfl, ?_⟩
  have hparams := h.params
  clear happ h
  generalize s.params = qs at hfits hparams
  induction hpass generalizing qs with
  | nil =>
    cases hfits
    exact .nil
  | cons ha _ ih =>
    cases hfits with
    | cons hq hqs =>
      obtain ⟨hformed, hrest⟩ := List.forall_mem_cons.mp hparams
      exact .cons (ha _ hformed hq) (ih _ hqs hrest)

/-! ## Walks that find a member -/

/--
From a class that extends another with an applicable member, what is found is that member, or stands
below it.
-/
theorem MemberSource.found_below {t : ClassTable F} {name : String} {isStatic : Bool}
    {args : List Ty} {start c e : RuntimeClass F} (hce : c.Extends e)
    {cs : List (Member F × Signature)} (hcs : t.runtimeMembers.methods e name isStatic = .ok cs)
    {m : Member F} {sig : Signature} (hm : (m, sig) ∈ cs) {bindings : Bindings}
    (happ : t.applicable sig args = some bindings) {s : Selected F (RuntimeClass F)} :
    ∀ {fuel : Nat}, t.runtimeMembers.methodFrom t start name isStatic args fuel c = .ok (.found s) →
    (s.owner = e ∧ s.member = m ∧ s.signature = sig) ∨
      ∃ b, s.owner.base? = some b ∧ b.Extends e := by
  induction hce with
  | refl c =>
    intro fuel hs
    cases fuel with
    | zero => cases hs
    | succ fuel =>
      have hmem : (m, sig, bindings) ∈ t.applicables cs args :=
        List.mem_filterMap.mpr ⟨(m, sig), hm, by simp [happ]⟩
      rw [methodFrom, hcs] at hs
      dsimp only at hs
      split at hs
      · next m' sig' b' hone =>
        cases hs
        rw [hone] at hmem
        cases List.mem_singleton.mp hmem
        exact .inl ⟨rfl, rfl, rfl⟩
      · next hnone =>
        rw [hnone] at hmem
        cases hmem
      · cases hs
  | @base c b e hb hbe ih =>
    intro fuel hs
    cases fuel with
    | zero => cases hs
    | succ fuel =>
      rw [methodFrom] at hs
      split at hs
      · cases hs
      · split at hs
        · cases hs
          exact .inr ⟨b, hb, hbe⟩
        · have hbase : t.runtimeMembers.base c = .ok (some b) := by
            show Except.ok c.base? = _
            rw [hb]
          rw [hbase] at hs
          exact ih hcs hs
        · cases hs

/-! ## Resolution gives an answer -/

namespace ClassTable

variable {t : ClassTable F}

theorem signatures_ok {params : TypeParams} : ∀ {ms : List (Member F)},
    (∀ m ∈ ms, ∃ s, t.signature m params = .ok s) → ∃ cs, t.signatures params ms = .ok cs
  | [], _ => ⟨[], rfl⟩
  | m :: rest, h => by
    obtain ⟨⟨s, hs⟩, hrest⟩ := List.forall_mem_cons.mp h
    obtain ⟨cs, hcs⟩ := signatures_ok hrest
    exact ⟨(m, s) :: cs, by rw [signatures, hs, hcs]⟩

theorem methodFrom_ok {start : RuntimeClass F} {name : String} {isStatic : Bool}
    {args : List Ty} : ∀ {fuel : Nat} {c : RuntimeClass F}, c.ancestors.length < fuel →
    (∀ d, c.Extends d → ∃ cs, t.runtimeMembers.methods d name isStatic = .ok cs) →
    ∃ r, t.runtimeMembers.methodFrom t start name isStatic args fuel c = .ok r := by
  intro fuel
  induction fuel with
  | zero => exact fun hlt => absurd hlt (Nat.not_lt_zero _)
  | succ fuel ih =>
    intro c hlt hmethods
    obtain ⟨cs, hcs⟩ := hmethods c (.refl c)
    rw [MemberSource.methodFrom, hcs]
    dsimp only
    split
    · exact ⟨_, rfl⟩
    · rw [show t.runtimeMembers.base c = .ok c.base? from rfl]
      cases hb : c.base? with
      | none => exact ⟨_, rfl⟩
      | some b =>
        refine ih ?_ fun d hd => hmethods d (.base hb hd)
        rw [(RuntimeClass.base?_eq_some hb).2] at hlt
        exact Nat.lt_of_succ_lt_succ hlt
    · exact ⟨_, rfl⟩

theorem resolveConstructor_ok {c : RuntimeClass F} {cs : List (Member F × Signature)}
    (hcs : t.runtimeMembers.constructors c = .ok cs) (args : List Ty) :
    ∃ r, t.runtimeMembers.resolveConstructor t c args = .ok r := by
  rw [MemberSource.resolveConstructor, hcs]
  dsimp only
  split
  · exact ⟨_, rfl⟩
  · split <;> exact ⟨_, rfl⟩

theorem checkAll_of_applicable {s : Signature} {args : List Ty} {b : Bindings}
    (h : t.applicable s args = some b) :
    s.paramTypes.length = args.length ∧ t.checkAll args s.paramTypes = true := by
  unfold applicable at h
  dsimp only at h
  split at h
  · next hfits =>
    rw [Bool.and_eq_true, decide_eq_true_iff] at hfits
    exact hfits
  · cases h

end ClassTable

namespace Program.WellTyped

variable {p : Program} {t : ClassTable StandardFn} (h : p.WellTyped t)

section Answers

variable {c : RuntimeClass StandardFn} {isStatic : Bool} {name : String} {args : List Ty}
  {s : Selected StandardFn (RuntimeClass StandardFn)}

include h

/-- A class has or lacks a method, but its types do not stand in the way. -/
theorem exists_resolution (hc : t.Serves isStatic c) (name : String) (args : List Ty) :
    ∃ r, t.runtimeMembers.resolveMethod t c name isStatic args = .ok r := by
  refine ClassTable.methodFrom_ok (Nat.lt_succ_self _) fun d hd => ?_
  refine ClassTable.signatures_ok fun m hm => ?_
  obtain ⟨hmem, hstatic⟩ := Template.mem_methodsNamed hm
  obtain ⟨s, hs, -⟩ := h.exists_signature (.inl hmem) (hstatic ▸ hc.extends h.complete hd)
  exact ⟨s, hs⟩

theorem exists_construction (hc : t.Makes c) (hformed : c.asTy.Formed t.arity? [])
    (args : List Ty) : ∃ r, t.runtimeMembers.resolveConstructor t c args = .ok r := by
  obtain ⟨cs, hcs⟩ : ∃ cs, t.signatures c.params c.constructors = .ok cs := by
    refine ClassTable.signatures_ok fun m hm => ?_
    rw [RuntimeClass.constructors, hc.isStaticView_eq, if_neg Bool.false_ne_true] at hm
    obtain ⟨s, hs, -⟩ := h.exists_signature (.inr hm) (.made hc hformed)
    exact ⟨s, hs⟩
  exact ClassTable.resolveConstructor_ok hcs args

theorem settled_of_found (hc : t.Serves isStatic c)
    (hs : t.runtimeMembers.resolveMethod t c name isStatic args = .ok (.found s)) :
    s.signature.Settled t := by
  obtain ⟨hmem, hsig, -⟩ := ClassTable.method_of_found hs
  obtain ⟨hmem, hstatic⟩ := Template.mem_methodsNamed hmem
  obtain ⟨s', hs', hsettled⟩ := h.exists_signature (.inl hmem)
    (hstatic ▸ hc.extends h.complete (ClassTable.extends_of_found hs))
  cases hs'.symm.trans hsig
  exact hsettled

theorem settled_of_constructor (hc : t.Makes c) (hformed : c.asTy.Formed t.arity? [])
    (hs : t.runtimeMembers.resolveConstructor t c args = .ok (.found s)) :
    s.signature.Settled t := by
  obtain ⟨-, hmem, hsig⟩ := ClassTable.constructor_of_found hs
  rw [RuntimeClass.constructors, hc.isStaticView_eq, if_neg Bool.false_ne_true] at hmem
  obtain ⟨s', hs', hsettled⟩ := h.exists_signature (.inr hmem) (.made hc hformed)
  cases hs'.symm.trans hsig
  exact hsettled

end Answers

/-! ## Classes that are not declared -/

section Natives

variable {a b : String} {tm : Template StandardFn}

include h

theorem base_of_native (htm : t.get? a = some tm) (hnative : tm.isDeclared = false)
    {base : ClassTy} (hbase : tm.base = some base) : base = ⟨Ty.objectName, []⟩ := by
  rcases ClassTable.mem_classes_cases h.build (ClassTable.get?_mem htm) with
    ⟨q, rfl⟩ | ⟨n, hn, hmade⟩ | ⟨d, hd, hmade⟩
  · exact (Option.some.inj hbase).symm
  · obtain rfl := ClassTable.nativeTemplate_standard hn hmade
    exact NativeClass.base_template hbase
  · obtain ⟨base, fields, -, -, rfl⟩ := ClassTable.declaredTemplate_ok hmade
    cases hnative

/-- A class that is not declared extends the root class only. -/
theorem inherits_native (htm : t.get? a = some tm) (hnative : tm.isDeclared = false)
    (hab : t.inherits a b = true) : b = a ∨ b = Ty.objectName := by
  obtain ⟨l, hl⟩ := h.exists_ascends htm
  have hmem := (ClassTable.inherits_iff_of_ascends hl).mp hab
  cases hl with
  | last _ => exact .inl (List.mem_singleton.mp hmem)
  | step hstep hrest =>
    obtain ⟨base, hfound, rfl⟩ := Option.map_eq_some_iff.mp hstep
    rw [htm, Option.bind_some] at hfound
    obtain rfl := h.base_of_native htm hnative hfound
    cases hrest with
    | last _ =>
      rcases List.mem_cons.mp hmem with rfl | hmem
      · exact .inl rfl
      · exact .inr (List.mem_singleton.mp hmem)
    | step hstep _ =>
      rw [ClassTable.baseName?_object h.build] at hstep
      cases hstep

/-- The root class has no methods, so what is found is not of it. -/
theorem owner_ne_object {c : RuntimeClass StandardFn} {isStatic : Bool} {name : String}
    {args : List Ty} {s : Selected StandardFn (RuntimeClass StandardFn)}
    (hc : t.Serves isStatic c)
    (hs : t.runtimeMembers.resolveMethod t c name isStatic args = .ok (.found s)) :
    s.owner.name ≠ Ty.objectName := by
  intro hname
  obtain ⟨hmem, -, -⟩ := ClassTable.method_of_found hs
  obtain ⟨tm, htm, -, -, hnone⟩ := ClassTable.get?_object h.build
  have hget := (hc.extends h.complete (ClassTable.extends_of_found hs)).offers.get?
  rw [hname, htm] at hget
  have hmethods := (Template.mem_methodsNamed hmem).1
  rw [← Option.some.inj hget, hnone] at hmethods
  cases hmethods

/-- In a class that is not declared, what is found is its own. -/
theorem owner_native {c : RuntimeClass StandardFn} {isStatic : Bool} {name : String}
    {args : List Ty} {s : Selected StandardFn (RuntimeClass StandardFn)}
    (hc : t.Serves isStatic c) (hnative : c.own.template.isDeclared = false)
    (hs : t.runtimeMembers.resolveMethod t c name isStatic args = .ok (.found s)) :
    s.owner = c := by
  have hext := ClassTable.extends_of_found hs
  have hname := (h.inherits_native hc.offers.get? hnative
    (h.complete.inherits_of_extends hc.offers hext)).resolve_right (h.owner_ne_object hc hs)
  exact h.complete.eq_of_extends hc.offers hext hname

end Natives

end Program.WellTyped

/-! ## What the chosen method returns -/

/-- Primitives and their boxes have no methods but static ones. -/
theorem NativeRegistry.static_of_boxed : ∀ n ∈ standard.classes, ∀ q ∈ Primitive.all,
    n.fullName = q.boxed → ∀ m ∈ n.methods, m.isStatic = true := by
  decide +kernel

/-- Where the library has parameters, a name alone chooses the method. -/
theorem NativeRegistry.nodup_methods : ∀ n ∈ standard.classes, n.fullName = Ty.listName →
    (n.methods.map NativeMember.name).Nodup := by
  decide +kernel

/-- A method returns something that may pass as a type. -/
def ClassTable.Returns (t : ClassTable F) (s : Signature) (ty : Ty) : Prop :=
  ∃ r ∈ s.returnType, t.check r.resolved ty = true

namespace Program.WellTyped

variable {p : Program} {t : ClassTable StandardFn} (h : p.WellTyped t)

section Choices

variable {c d : RuntimeClass StandardFn} {isStatic : Bool} {name : String} {args tys : List Ty}
  {s s₀ : Selected StandardFn (RuntimeClass StandardFn)}

include h

/-- The types in a signature of a class without parameters are formed. -/
theorem formed_of_found (hc : t.Serves isStatic c)
    (hs : t.runtimeMembers.resolveMethod t c name isStatic args = .ok (.found s))
    (hg : s.owner.own.template.generics = []) :
    t.signature s.member [] = .ok s.signature ∧
      Ty.AllFormed t.arity? [] s.signature.paramTypes := by
  obtain ⟨-, hsig, -⟩ := ClassTable.method_of_found hs
  have howner := (hc.extends h.complete (ClassTable.extends_of_found hs)).offers
  rw [howner.params_eq_nil hg] at hsig
  have hgenerics : s.member.generics = [] :=
    (ClassTable.signature_ok hsig).2.2.symm.trans (h.settled_of_found hc hs).generics
  obtain ⟨hparams, -⟩ := ClassTable.formed_signature hsig
    (ClassTable.memberParams_eq_nil hgenerics (.inr rfl))
  refine ⟨hsig, Ty.allFormed_iff.mpr fun ty hty => ?_⟩
  obtain ⟨q, hq, rfl⟩ := List.mem_map.mp hty
  exact hparams q hq

/-- A method that is found below another in whose place it stands returns what that one returns. -/
theorem returnsAs_of_below (hc : t.Serves isStatic c) (hd : t.Serves isStatic d)
    (hargs : ∀ a ∈ args, a = .null ∨ a.Formed t.arity? [])
    (hs : t.runtimeMembers.resolveMethod t c name isStatic args = .ok (.found s))
    (hs₀ : t.runtimeMembers.resolveMethod t d name isStatic tys = .ok (.found s₀))
    (happ : ∃ b, t.applicable s₀.signature args = some b)
    {b : RuntimeClass StandardFn} (hbase : s.owner.base? = some b) (hext : b.Extends s₀.owner) :
    t.ReturnsAs s.signature s₀.signature := by
  have howner := hc.extends h.complete (ClassTable.extends_of_found hs)
  have howner₀ := hd.extends h.complete (ClassTable.extends_of_found hs₀)
  have hinherits := h.complete.inherits_of_extends howner.offers (.base hbase hext)
  have hne : s.owner.name ≠ s₀.owner.name := h.complete.ne_of_base howner.offers hbase hext
  -- Nothing extends a list, and above it there is only the root class.
  have hlist : s.owner.name ≠ Ty.listName := by
    intro hlist
    obtain ⟨n, hn, hfull, -⟩ := NativeRegistry.exists_list
    have hget := ClassTable.get?_standard h.build hn
    rw [hfull, ← hlist] at hget
    rcases h.inherits_native hget rfl hinherits with heq | heq
    · exact hne heq.symm
    · exact h.owner_ne_object hd hs₀ heq
  have hlist₀ : s₀.owner.name ≠ Ty.listName := fun hlist =>
    hne (h.eq_of_inherits_sealed howner.offers.get? hinherits (hlist ▸ List.mem_cons_self))
  have hg := (h.generics_cases howner.offers.get?).resolve_right fun hl => hlist hl.1
  have hg₀ := (h.generics_cases howner₀.offers.get?).resolve_right fun hl => hlist₀ hl.1
  obtain ⟨hsig, hformed⟩ := h.formed_of_found hc hs hg
  obtain ⟨hsig₀, hformed₀⟩ := h.formed_of_found hd hs₀ hg₀
  obtain ⟨hmem, -, hfits⟩ := ClassTable.method_of_found hs
  obtain ⟨hmem₀, -, -⟩ := ClassTable.method_of_found hs₀
  obtain ⟨hmethods, hnamed⟩ := List.mem_filter.mp hmem
  obtain ⟨hmethods₀, hnamed₀⟩ := List.mem_filter.mp hmem₀
  rw [Bool.and_eq_true, beq_iff_eq, beq_iff_eq] at hnamed hnamed₀
  obtain ⟨b₀, happ⟩ := happ
  obtain ⟨hlen, hcheck⟩ := ClassTable.checkAll_of_applicable hfits
  obtain ⟨hlen₀, hcheck₀⟩ := ClassTable.checkAll_of_applicable happ
  refine h.regular.overrides _ (ClassTable.get?_mem howner.offers.get?) _
    (ClassTable.get?_mem howner₀.offers.get?) ?_ ?_ s.member hmethods s₀.member hmethods₀
    (hnamed.1.trans hnamed₀.1.symm) (hnamed.2.trans hnamed₀.2.symm) s.signature ?_ s₀.signature ?_
    (h.meetAll_of_checkAll hargs hformed hformed₀ hlen hlen₀ hcheck hcheck₀)
  · rwa [ClassTable.get?_name howner.offers.get?, ClassTable.get?_name howner₀.offers.get?]
  · rwa [ClassTable.get?_name howner.offers.get?, ClassTable.get?_name howner₀.offers.get?]
  · rw [hg, show TypeParams.unbound [] = [] from rfl, hsig]
    rfl
  · rw [hg₀, show TypeParams.unbound [] = [] from rfl, hsig₀]
    rfl

/-- What is found from a class that extends another returns what is found from that one. -/
theorem returns_of_extends (hc : t.Serves isStatic c) (hcd : c.Extends d)
    (hargs : ∀ a ∈ args, a = .null ∨ a.Formed t.arity? [])
    (hpass : List.Forall₂ t.Passes args tys)
    (hs : t.runtimeMembers.resolveMethod t c name isStatic args = .ok (.found s))
    (hs₀ : t.runtimeMembers.resolveMethod t d name isStatic tys = .ok (.found s₀)) :
    ∀ ty ∈ s₀.signature.returnType, t.Returns s.signature ty.resolved := by
  intro ty hty
  have hd := hc.extends h.complete hcd
  have hsettled₀ := h.settled_of_found hd hs₀
  obtain ⟨-, -, happ⟩ := ClassTable.method_of_found hs₀
  have happ := hsettled₀.applicable_of_passes hpass happ
  obtain ⟨cs, hcs, hfrom, -⟩ := MemberSource.methodFrom_found hs₀
  have hext := hcd.trans (ClassTable.extends_of_found hs₀)
  rcases MemberSource.found_below hext hcs hfrom happ hs with ⟨-, -, hsame⟩ | ⟨b, hbase, hext⟩
  · rw [hsame]
    exact ⟨ty, hty, t.check_self _⟩
  · obtain ⟨r, hr, hcheck⟩ := h.returnsAs_of_below hc hd hargs hs hs₀ ⟨_, happ⟩ hbase hext ty hty
    exact ⟨r, hr, by rwa [ClassTable.check_resolved, ClassTable.check_target]⟩

/-- A method of a list is one of the library, typed for the items. -/
theorem exists_listMethod {n : NativeClass StandardFn} (hn : n ∈ standard.classes)
    (hfull : n.fullName = Ty.listName) (hc : t.Makes c) (hformed : c.asTy.Formed t.arity? [])
    (hname : c.name = Ty.listName)
    (hs : t.runtimeMembers.resolveMethod t c name false args = .ok (.found s)) :
    ∃ item m, c.asTy = .cls Ty.listName [item] ∧ item.Formed t.arity? [] ∧ m ∈ n.methods ∧
      m.name = name ∧ t.signature (.ofNative n.fullName m) (TypeParams.bound ["E"] [item]) =
        .ok s.signature := by
  have htemplate : c.own.template = n.template := by
    have hget := hc.get?
    rw [hname, ← hfull, ClassTable.get?_standard h.build hn] at hget
    exact (Option.some.inj hget).symm
  obtain ⟨hmem, hsig, -⟩ := ClassTable.method_of_found hs
  obtain ⟨item, hty, hitem, hparams⟩ := h.list_params hc hformed hname
  have hserves : t.Serves false c := .made hc hformed
  rw [h.owner_native hserves (by rw [htemplate]; rfl) hs] at hmem hsig
  rw [hparams] at hsig
  obtain ⟨hmem, hnamed⟩ := List.mem_filter.mp hmem
  rw [htemplate] at hmem
  obtain ⟨m, hm, heq⟩ := List.mem_map.mp hmem
  rw [← heq] at hsig hnamed
  rw [Bool.and_eq_true, beq_iff_eq] at hnamed
  exact ⟨item, m, by rw [RuntimeClass.asTy, hty]; rfl, hitem, hm, hnamed.1, hsig⟩

/-- Of a list, the method is chosen by its name; what it returns follows the items. -/
theorem returns_of_lists (hc : t.Makes c) (hcf : c.asTy.Formed t.arity? []) (hd : t.Makes d)
    (hdf : d.asTy.Formed t.arity? []) (hdname : d.name = Ty.listName)
    (hcheck : t.check c.asTy d.asTy = true)
    (hs : t.runtimeMembers.resolveMethod t c name false args = .ok (.found s))
    (hs₀ : t.runtimeMembers.resolveMethod t d name false tys = .ok (.found s₀)) :
    ∀ ty ∈ s₀.signature.returnType, t.Returns s.signature ty.resolved := by
  obtain ⟨n, hn, hfull, hlist⟩ : ∃ n ∈ standard.classes, n.fullName = Ty.listName ∧
      ∀ m ∈ n.methods, m.isStatic = false := by
    decide +kernel
  obtain ⟨y, m₀, hdty, hy, hm₀, hname₀, hsig₀⟩ := h.exists_listMethod hn hfull hd hdf hdname hs₀
  rw [hdty] at hcheck
  obtain ⟨x, hcty, hx, hxy⟩ := h.list_of_check hcf hcheck
  obtain ⟨x', m, hcty', -, hm, hname, hsig⟩ :=
    h.exists_listMethod hn hfull hc hcf (Ty.cls.inj hcty).1 hs
  cases hcty.symm.trans hcty'
  obtain rfl : m₀ = m := List.inj_on_of_nodup_map (NativeRegistry.nodup_methods n hn hfull) hm₀ hm
    (hname₀.trans hname.symm)
  have hreturn := (ClassTable.signature_lowers hsig).2
  have hreturn₀ := (ClassTable.signature_lowers hsig₀).2
  rw [memberParams_native, hlist m₀ hm₀, if_neg Bool.false_ne_true] at hreturn hreturn₀
  intro ty hty
  rcases rel_elim hreturn₀ with ⟨-, hnone⟩ | ⟨e, ty', he, hsome, hlower₀⟩
  · cases hnone.symm.trans hty
  · cases hsome.symm.trans hty
    rcases rel_elim hreturn with ⟨hnone, -⟩ | ⟨e', r, he', hr, hlower⟩
    · cases hnone.symm.trans he
    · cases he'.symm.trans he
      have hwritten := (NativeRegistry.types_standard n hn m₀ (List.mem_append_left _ hm₀)).2 e
        (List.mem_append_right _ (Option.mem_toList.mpr he))
      obtain ⟨f, hf, -, hmono⟩ := h.exists_listType (hwritten.imp_right And.right)
      cases (hf x).symm.trans hlower
      cases (hf y).symm.trans hlower₀
      exact ⟨f x, hr, hmono x y hx hy hxy⟩

/-- Of a primitive or its box nothing is found that is not static. -/
theorem not_found_primitive {q : Primitive} (hc : t.Serves false c)
    (hname : c.name = q.name ∨ c.name = q.boxed) :
    t.runtimeMembers.resolveMethod t c name false args ≠ .ok (.found s) := by
  intro hs
  have hget := hc.offers.get?
  obtain ⟨hmem, -, -⟩ := ClassTable.method_of_found hs
  obtain ⟨hmem, hinstance⟩ := Template.mem_methodsNamed hmem
  rcases hname with hname | hname
  · rw [hname, ClassTable.get?_primitive_standard h.build q] at hget
    rw [h.owner_native hc (by rw [← Option.some.inj hget]; rfl) hs, ← Option.some.inj hget] at hmem
    cases hmem
  · obtain ⟨n, hn, hfull⟩ := NativeRegistry.exists_boxed q
    rw [hname, ← hfull, ClassTable.get?_standard h.build hn] at hget
    rw [h.owner_native hc (by rw [← Option.some.inj hget]; rfl) hs, ← Option.some.inj hget] at hmem
    obtain ⟨m, hm, heq⟩ := List.mem_map.mp hmem
    have hstatic := NativeRegistry.static_of_boxed n hn q (by cases q <;> decide) hfull m hm
    rw [← heq] at hinstance
    exact Bool.false_ne_true (hinstance.symm.trans hstatic)

end Choices

end Program.WellTyped

/-! ## What the checker has chosen -/

/-- What a call returns for the checker is what the settled signature says. -/
theorem Signature.Settled.exists_returnType {t : ClassTable F} {O : Type} {s₀ : Selected F O}
    (h : s₀.signature.Settled t) {tys : List Ty}
    (happ : t.applicable s₀.signature tys = some s₀.bindings) {ty : Ty} (hty : ty ∈ s₀.returnType) :
    ∃ r ∈ s₀.signature.returnType, ty = r.resolved ∧ ty.Formed t.arity? [] := by
  obtain ⟨r, hr, rfl⟩ := Option.map_eq_some_iff.mp hty
  have hformed := h.returnType r hr
  refine ⟨r, hr, ?_⟩
  rw [(h.applicable_iff.mp happ).1, Ty.substitute_of_concrete [] (Ty.concrete_of_formed hformed)]
  exact ⟨rfl, hformed⟩

/-- A method that is found in one universe of classes is found in the other. -/
theorem Alike.found {O P : Type} {R : O → P → Prop} {s₀ : Selected F O}
    {x : Except TypeError (Resolution F P)}
    (h : Alike (Resolution.Related R fun _ => Eq) (.ok (.found s₀)) x) :
    ∃ s, x = .ok (.found s) ∧ s.signature = s₀.signature ∧ s.bindings = s₀.bindings := by
  cases h with
  | ok hfound =>
    cases hfound
    exact ⟨_, rfl, rfl, rfl⟩

namespace Program.WellTyped

variable {p : Program} {t : ClassTable StandardFn} (h : p.WellTyped t)
  {c : RuntimeClass StandardFn} {name : String} {args tys : List Ty}
  {s : Selected StandardFn (RuntimeClass StandardFn)} {s₀ : Selected StandardFn ClassTy}

include h

/-- A static call returns what the checker says. -/
theorem returns_of_view {className : String} (hc : t.Views className c)
    (hargs : ∀ a ∈ args, a = .null ∨ a.Formed t.arity? []) (hpass : List.Forall₂ t.Passes args tys)
    (hs₀ : t.staticMembers.resolveMethod t ⟨className, []⟩ name true tys = .ok (.found s₀))
    (hs : t.runtimeMembers.resolveMethod t c name true args = .ok (.found s)) :
    ∀ ty ∈ s₀.returnType, ty.Formed t.arity? [] ∧ t.Returns s.signature ty := by
  have halike := ClassTable.resolveMethod_view (o := ⟨className, []⟩) hc name tys
  rw [hs₀] at halike
  obtain ⟨s₁, hs₁, hsig, hbindings⟩ := halike.found
  have hserves : t.Serves true c := .shown ⟨_, hc⟩ rfl
  have hsettled := h.settled_of_found hserves hs₁
  obtain ⟨-, -, happ⟩ := ClassTable.method_of_found hs₁
  have hreturns := h.returns_of_extends hserves (.refl c) hargs hpass hs hs₁
  rw [hsig] at hsettled happ hreturns
  rw [hbindings] at happ
  intro ty hty
  obtain ⟨r, hr, rfl, hformed⟩ := hsettled.exists_returnType happ hty
  exact ⟨hformed, hreturns r hr⟩

/-- The class of a type has what the checker finds in the type. -/
theorem found_of_type {d : RuntimeClass StandardFn} {ty : Ty} (hd : t.Makes d)
    (hformed : d.asTy.Formed t.arity? []) (hty : ty.resolved = d.asTy)
    (hs₀ : t.staticMembers.resolveMethod t ty.memberClass name false tys = .ok (.found s₀)) :
    ∃ s₁, t.runtimeMembers.resolveMethod t d name false tys = .ok (.found s₁) ∧
      s₁.signature = s₀.signature ∧ ∀ r ∈ s₀.returnType, r.Formed t.arity? [] ∧
        ∃ r' ∈ s₁.signature.returnType, r = r'.resolved := by
  have hclass : ty.memberClass = d.ty := by rw [Ty.memberClass, hty]; rfl
  rw [hclass] at hs₀
  have halike := ClassTable.resolveMethod_instantiation hd.instantiates name false tys
  rw [hs₀] at halike
  obtain ⟨s₁, hs₁, hsig, hbindings⟩ := halike.found
  have hsettled := h.settled_of_found (.made hd hformed) hs₁
  obtain ⟨-, -, happ⟩ := ClassTable.method_of_found hs₁
  refine ⟨s₁, hs₁, hsig, fun r hr => ?_⟩
  rw [hsig] at hsettled happ ⊢
  rw [hbindings] at happ
  obtain ⟨r', hr', heq, hr⟩ := hsettled.exists_returnType happ hr
  exact ⟨hr, r', hr', heq⟩

/-- A type has a class. -/
theorem exists_class {ty : Ty} (hty : ty.Formed t.arity? []) :
    ∃ d, t.Makes d ∧ d.asTy = ty := by
  obtain ⟨name, args, rfl⟩ := Ty.exists_cls hty
  have hkey : (ClassTy.toTy ⟨name, args⟩).Formed t.arity? [] := hty
  obtain ⟨d, hd⟩ := h.complete.exists_instantiates hkey
  exact ⟨d, ⟨_, hd⟩, by rw [RuntimeClass.asTy, hd.ty_eq]; rfl⟩

/-- What the checker finds in a type is not of a primitive. -/
theorem not_primitive_of_found {ty : Ty} (hty : ty.resolved.Formed t.arity? [])
    (hs₀ : t.staticMembers.resolveMethod t ty.memberClass name false tys = .ok (.found s₀))
    (q : Primitive) : t.check (.named q.name) ty ≠ true := by
  intro hcheck
  obtain ⟨d, hd, hdty⟩ := h.exists_class hty
  rw [← hdty] at hty
  obtain ⟨s₁, hs₁, -⟩ := h.found_of_type hd hty hdty.symm hs₀
  have hserves : t.Serves false d := .made hd hty
  have hq : (Ty.named q.name).Formed t.arity? [] :=
    formed_named (ClassTable.get?_primitive_standard h.build q) rfl
  rw [← ClassTable.check_target, ← hdty] at hcheck
  rcases (h.related_primitive q (.inl rfl)).mp ((h.check_iff hq).mp hcheck).1 with heq | heq | heq
  · exact h.not_found_primitive hserves (.inl heq) hs₁
  · exact h.not_found_primitive hserves (.inr heq) hs₁
  · have hinherits :=
      h.complete.inherits_of_extends hserves.offers (ClassTable.extends_of_found hs₁)
    rw [show d.name = Ty.objectName from heq, ClassTable.inherits,
      ClassTable.ancestors_object h.build, List.contains_iff_mem, List.mem_singleton] at hinherits
    exact h.owner_ne_object hserves hs₁ hinherits

/-- A call on a value returns what the checker says of the type that its class passes as. -/
theorem returns_of_value (hc : t.Makes c) (hformed : c.asTy.Formed t.arity? []) {ty : Ty}
    (hty : ty.resolved.Formed t.arity? []) (hcheck : t.check c.asTy ty = true)
    (hargs : ∀ a ∈ args, a = .null ∨ a.Formed t.arity? []) (hpass : List.Forall₂ t.Passes args tys)
    (hs₀ : t.staticMembers.resolveMethod t ty.memberClass name false tys = .ok (.found s₀))
    (hs : t.runtimeMembers.resolveMethod t c name false args = .ok (.found s)) :
    ∀ r ∈ s₀.returnType, r.Formed t.arity? [] ∧ t.Returns s.signature r := by
  have hserves : t.Serves false c := .made hc hformed
  -- It is enough to compare with what is found in some class of the type.
  have hreturns : ∀ {d : RuntimeClass StandardFn}, t.Makes d → ty.resolved = d.asTy →
      (∀ s₁, t.runtimeMembers.resolveMethod t d name false tys = .ok (.found s₁) →
        ∀ r ∈ s₁.signature.returnType, t.Returns s.signature r.resolved) →
      ∀ r ∈ s₀.returnType, r.Formed t.arity? [] ∧ t.Returns s.signature r := by
    intro d hd hdty hall r hr
    obtain ⟨s₁, hs₁, -, hfound⟩ := h.found_of_type hd (hdty ▸ hty) hdty hs₀
    obtain ⟨hr, r', hr', rfl⟩ := hfound r hr
    exact ⟨hr, hall s₁ hs₁ r' hr'⟩
  rw [← ClassTable.check_target] at hcheck
  rcases h.formed_cases hty with ⟨a, tm, heq, htm, hg⟩ | ⟨e, heq, he⟩
  · rw [heq] at hcheck
    have hrelated := ((h.check_iff hformed).mp hcheck).1
    rw [ClassTable.related, Bool.or_eq_true] at hrelated
    rcases hrelated with hinherits | hboxes
    · obtain ⟨d, hcd, rfl⟩ := h.complete.exists_extends hserves.offers hinherits
      have hd := hc.extends hcd
      have hdty : d.asTy = .named d.name := by
        obtain ⟨c', hc', hlen⟩ := get?_of_formed (h.complete.formed_extends hc hformed hcd)
        cases hc'.symm.trans htm
        rw [hg] at hlen
        rw [RuntimeClass.asTy, ClassTy.toTy, List.length_eq_zero_iff.mp hlen.symm]
        rfl
      exact hreturns hd (heq.trans hdty.symm) fun s₁ hs₁ =>
        h.returns_of_extends hserves hcd hargs hpass hs hs₁
    · -- A primitive and its box pass as each other, but neither has such methods.
      obtain ⟨q, ⟨-, rfl⟩ | ⟨rfl, -⟩⟩ := ClassTable.boxes_iff.mp hboxes
      all_goals
        refine absurd ?_ (h.not_primitive_of_found hty hs₀ q)
        rw [← ClassTable.check_target, heq]
        exact (h.check_iff (formed_named (ClassTable.get?_primitive_standard h.build q) rfl)).mpr
          ⟨(h.related_primitive q (.inl rfl)).mpr (by simp), t.checkAll_nil _⟩
  · obtain ⟨d, hd, hdty⟩ := h.exists_class hty
    refine hreturns hd hdty.symm fun s₁ hs₁ => ?_
    rw [← hdty] at hcheck hty
    exact h.returns_of_lists hc hformed hd hty (Ty.cls.inj (hdty.trans heq)).1 hcheck hs hs₁

end Program.WellTyped

end Middleweight
