import Middleweight.Members.Resolution
import Middleweight.Proofs.ClassTable.Subtype
import Middleweight.Proofs.Registry.Sessions
import Middleweight.Proofs.Types.Open

/-!
# Inference of type parameters

A call gives types to the unbound parameters of a signature by matching parameter types against
argument types. If the argument types come of putting types in for the unbound parameters, then
matching finds these types again, once they are resolved, however deep a parameter stands and
however often. Such a call is always accepted: what the matching finds gives back the argument
types, and every type fits itself.

A parameter is found only where matching looks for it, so none may stand inside the bound of a bound
parameter. And it is given no type by the argument `null`, so none may stand for the type of `null`.

* `Bindings.fill_of_instance` : what matching a type against an instance of it finds
* `ClassTable.applicable_instance` : the call with an instance of the parameters of a signature
-/

namespace Middleweight

namespace Ty

/-! ## Occurrences of parameters -/

mutual

/-- The unbound parameters that occur in a type, from left to right. -/
def unboundNames : Ty → List String
  | cls _ args => unboundNamesIn args
  | unbound n => [n]
  | bound _ t => t.unboundNames

/-- The unbound parameters that occur in some types. -/
def unboundNamesIn : List Ty → List String
  | [] => []
  | t :: rest => t.unboundNames ++ unboundNamesIn rest

end

theorem mem_unboundNamesIn {n : String} {ts : List Ty} :
    n ∈ unboundNamesIn ts ↔ ∃ t ∈ ts, n ∈ t.unboundNames := by
  induction ts with
  | nil => simp [unboundNamesIn]
  | cons t rest ih => simp [unboundNamesIn, ih]

mutual

theorem firstUnbound?_eq_head? : ∀ t : Ty, t.firstUnbound? = t.unboundNames.head?
  | cls _ args => by rw [firstUnbound?, unboundNames, firstUnboundIn?_eq_head? args]
  | unbound _ => by rw [firstUnbound?, unboundNames, List.head?_cons]
  | bound _ t => by rw [firstUnbound?, unboundNames, firstUnbound?_eq_head? t]

theorem firstUnboundIn?_eq_head? :
    ∀ ts : List Ty, firstUnboundIn? ts = (unboundNamesIn ts).head?
  | [] => by rw [firstUnboundIn?, unboundNamesIn, List.head?_nil]
  | t :: rest => by
    rw [firstUnboundIn?, unboundNamesIn, List.head?_append, firstUnbound?_eq_head? t,
      firstUnboundIn?_eq_head? rest]
    exact Option.orElse_eq_or

end

theorem unboundNames_eq_nil {t : Ty} (h : t.isConcrete = true) : t.unboundNames = [] := by
  rwa [isConcrete, Option.isNone_iff_eq_none, firstUnbound?_eq_head?, List.head?_eq_none_iff] at h

mutual

theorem openIn_unboundNames : ∀ {t : Ty} {names : List String},
    (∀ n ∈ t.unboundNames, n ∈ names) → t.OpenIn names
  | cls _ _, _, h => openIn_cls.mpr (allOpenIn_unboundNamesIn h)
  | unbound n, _, h => openIn_unbound.mpr (h n List.mem_cons_self)
  | bound _ _, _, h => openIn_bound.mpr (openIn_unboundNames h)

theorem allOpenIn_unboundNamesIn : ∀ {ts : List Ty} {names : List String},
    (∀ n ∈ unboundNamesIn ts, n ∈ names) → AllOpenIn names ts
  | [], _, _ => allOpenIn_nil
  | _ :: _, _, h =>
    allOpenIn_cons.mpr ⟨openIn_unboundNames fun n hn => h n (List.mem_append_left _ hn),
      allOpenIn_unboundNamesIn fun n hn => h n (List.mem_append_right _ hn)⟩

end

mutual

/-- Bindings that agree on the parameters of a type put the same into it. -/
theorem substitute_congr {b b' : Bindings} : ∀ {t : Ty},
    (∀ n ∈ t.unboundNames, b.lookup n = b'.lookup n) → t.substitute b = t.substitute b'
  | cls _ _, h => by rw [substitute, substitute, substituteAll_congr h]
  | unbound n, h => by rw [substitute, substitute, h n List.mem_cons_self]
  | bound _ _, h => by
    rw [substitute, substitute]
    exact substitute_congr h

theorem substituteAll_congr {b b' : Bindings} : ∀ {ts : List Ty},
    (∀ n ∈ unboundNamesIn ts, b.lookup n = b'.lookup n) → substituteAll b ts = substituteAll b' ts
  | [], _ => by rw [substituteAll, substituteAll]
  | _ :: _, h => by
    rw [substituteAll, substituteAll,
      substitute_congr fun n hn => h n (List.mem_append_left _ hn),
      substituteAll_congr fun n hn => h n (List.mem_append_right _ hn)]

end

mutual

/-- Whether no unbound parameter occurs inside the bound of a bound one. -/
def BoundsClosed : Ty → Prop
  | cls _ args => AllBoundsClosed args
  | unbound _ => True
  | bound _ t => t.isConcrete = true

/-- Whether no unbound parameter occurs inside a bound in some types. -/
def AllBoundsClosed : List Ty → Prop
  | [] => True
  | t :: rest => t.BoundsClosed ∧ AllBoundsClosed rest

end

theorem allBoundsClosed_iff {ts : List Ty} : AllBoundsClosed ts ↔ ∀ t ∈ ts, t.BoundsClosed := by
  induction ts with
  | nil => simp [AllBoundsClosed]
  | cons t rest ih => simp [AllBoundsClosed, ih]

theorem isNull_resolved {t : Ty} (h : t.isNull = true) : t.resolved.isNull = true := by
  cases t with
  | cls n args => rwa [resolved]
  | unbound n => cases h
  | bound n t => cases h

end Ty

namespace Bindings

/-! ## Resolved bindings -/

/-- Bindings with all their types resolved. -/
def resolved (s : Bindings) : Bindings := s.map fun e => (e.1, e.2.resolved)

theorem lookup_resolved (s : Bindings) (n : String) :
    s.resolved.lookup n = (s.lookup n).map Ty.resolved :=
  lookup_map_snd (fun (_ : String) (ty : Ty) => ty.resolved) s n

theorem bindingsResolved_resolved (s : Bindings) : Ty.BindingsResolved s.resolved := by
  intro n ty h
  rw [lookup_resolved] at h
  obtain ⟨u, -, rfl⟩ := Option.map_eq_some_iff.mp h
  exact u.resolved_resolved

end Bindings

mutual

/-- Resolving what comes of putting types in is putting them in resolved. -/
theorem Ty.resolved_substitute_eq (s : Bindings) :
    ∀ t : Ty, (t.substitute s).resolved = t.substitute s.resolved
  | .cls n args => by
    rw [substitute, substitute, resolved, resolvedAll_substituteAll_eq s args]
  | .bound _ t => by rw [substitute, substitute, resolved_substitute_eq s t]
  | .unbound n => by
    rw [substitute, substitute, Bindings.lookup_resolved]
    cases s.lookup n with
    | none => rw [Option.getD_none, resolved]; rfl
    | some ty => rfl

theorem Ty.resolvedAll_substituteAll_eq (s : Bindings) :
    ∀ ts : List Ty, resolvedAll (substituteAll s ts) = substituteAll s.resolved ts
  | [] => by rw [substituteAll, substituteAll, resolvedAll]
  | t :: rest => by
    rw [substituteAll, substituteAll, resolvedAll, resolved_substitute_eq s t,
      resolvedAll_substituteAll_eq s rest]

end

namespace Bindings

/-! ## Matching a type against an instance of it -/

mutual

/--
Matching a type against what resolves to an instance of it gives each unbound parameter, in the
order in which they stand there, the type that was put in for it.
-/
theorem fill_of_instance {s : Bindings} (hs : Ty.BindingsResolved s) : ∀ {formal actual : Ty},
    formal.BoundsClosed →
    (∀ n ∈ formal.unboundNames, ((Ty.unbound n).substitute s).isNull = false) →
    actual.resolved = formal.substitute s →
    fill formal actual = formal.unboundNames.map fun n => (n, (Ty.unbound n).substitute s)
  | .unbound n, actual, _, hnull, hactual => by
    have hnotNull : actual.isNull = false := by
      rw [← Bool.not_eq_true]
      intro h
      have := hnull n List.mem_cons_self
      rw [← hactual, Ty.isNull_resolved h] at this
      cases this
    rw [fill, hnotNull, hactual]
    rfl
  | .bound _ t, actual, hclosed, _, _ => by
    -- Matching does not look into bounds, and there is nothing to be found there.
    rw [fill, Ty.unboundNames, Ty.unboundNames_eq_nil hclosed]
    rfl
  | .cls c formals, actual, hclosed, hnull, hactual => by
    rw [Ty.substitute] at hactual
    rw [fill, hactual]
    exact fillAll_of_instance hs hclosed hnull (Ty.resolvedAll_substituteAll hs formals)

theorem fillAll_of_instance {s : Bindings} (hs : Ty.BindingsResolved s) :
    ∀ {formals actuals : List Ty}, Ty.AllBoundsClosed formals →
    (∀ n ∈ Ty.unboundNamesIn formals, ((Ty.unbound n).substitute s).isNull = false) →
    Ty.resolvedAll actuals = Ty.substituteAll s formals →
    fillAll formals actuals =
      (Ty.unboundNamesIn formals).map fun n => (n, (Ty.unbound n).substitute s)
  | [], _, _, _, _ => by
    rw [fillAll]
    · rfl
    · simp
  | _ :: _, [], _, _, hactuals => by
    rw [Ty.resolvedAll, Ty.substituteAll] at hactuals
    cases hactuals
  | formal :: formals, actual :: actuals, hclosed, hnull, hactuals => by
    rw [Ty.resolvedAll, Ty.substituteAll, List.cons.injEq] at hactuals
    rw [fillAll, Ty.unboundNamesIn, List.map_append,
      fill_of_instance hs hclosed.1 (fun n hn => hnull n (List.mem_append_left _ hn)) hactuals.1,
      fillAll_of_instance hs hclosed.2 (fun n hn => hnull n (List.mem_append_right _ hn))
        hactuals.2]

end

section

variable {s : Bindings} {formals actuals : List Ty}

/-- The bindings that matching infers give each parameter the type that was put in for it. -/
theorem lookup_infer_of_instance (hs : Ty.BindingsResolved s)
    (hclosed : Ty.AllBoundsClosed formals)
    (hbound : ∀ n ∈ Ty.unboundNamesIn formals, ∃ ty, s.lookup n = some ty ∧ ty.isNull = false)
    (hactuals : Ty.resolvedAll actuals = Ty.substituteAll s formals) {n : String}
    (hn : n ∈ Ty.unboundNamesIn formals) : (infer formals actuals).lookup n = s.lookup n := by
  have hput : ∀ n ∈ Ty.unboundNamesIn formals, s.lookup n = some ((Ty.unbound n).substitute s) ∧
      ((Ty.unbound n).substitute s).isNull = false := by
    intro n hn
    obtain ⟨ty, hty, hnull⟩ := hbound n hn
    rw [Ty.substitute, hty]
    exact ⟨rfl, hnull⟩
  rw [infer, fillAll_of_instance hs hclosed (fun n hn => (hput n hn).2) hactuals, (hput n hn).1]
  refine lookup_eq_of_forall (List.mem_reverse.mpr (List.mem_map.mpr ⟨n, hn, rfl⟩)) ?_
  intro e he hkey
  obtain ⟨m, -, rfl⟩ := List.mem_map.mp (List.mem_reverse.mp he)
  rw [show m = n from hkey]

/-- Under these bindings the formal types become the actual ones, resolved. -/
theorem substituteAll_infer_of_instance (hs : Ty.BindingsResolved s)
    (hclosed : Ty.AllBoundsClosed formals)
    (hbound : ∀ n ∈ Ty.unboundNamesIn formals, ∃ ty, s.lookup n = some ty ∧ ty.isNull = false)
    (hactuals : Ty.resolvedAll actuals = Ty.substituteAll s formals) :
    Ty.substituteAll (infer formals actuals) formals = Ty.resolvedAll actuals := by
  rw [hactuals]
  exact Ty.substituteAll_congr fun _ hn => lookup_infer_of_instance hs hclosed hbound hactuals hn

end

end Bindings

/-! ## Calls with instances of the parameters -/

namespace ClassTable

variable {F : Type}

/-- A signature is applicable to what resolves to an instance of its parameters. -/
theorem applicable_of_resolvedAll_eq (t : ClassTable F) {sig : Signature} {s : Bindings}
    {args : List Ty} (hs : Ty.BindingsResolved s) (hclosed : Ty.AllBoundsClosed sig.paramTypes)
    (hbound : ∀ n ∈ Ty.unboundNamesIn sig.paramTypes, ∃ ty, s.lookup n = some ty ∧
      ty.isNull = false)
    (hargs : Ty.resolvedAll args = Ty.substituteAll s sig.paramTypes) :
    t.applicable sig args = some (Bindings.infer sig.paramTypes args) := by
  have hlength : sig.paramTypes.length = args.length := by
    have := congrArg List.length hargs
    rw [Ty.resolvedAll_eq_map, Ty.substituteAll_eq_map, List.length_map, List.length_map] at this
    exact this.symm
  have hfits : t.checkAll args sig.paramTypes = true := by
    rw [← checkAll_resolvedAll, hargs]
    exact t.checkAll_substituteAll s sig.paramTypes
  -- Once the bindings are put in, the parameters are the arguments, resolved.
  have hfitsAgain : t.checkAll args
      (Ty.substituteAll (Bindings.infer sig.paramTypes args) sig.paramTypes) = true := by
    rw [Bindings.substituteAll_infer_of_instance hs hclosed hbound hargs,
      checkAll_resolvedAll_target]
    exact t.checkAll_self args
  unfold applicable
  dsimp only
  rw [hfits, hfitsAgain, decide_eq_true hlength]
  rfl

/--
Putting types in for all unbound parameters of a signature, none of which stands inside a bound,
gives arguments to which the signature is applicable; the types have to be without unbound
parameters and not to be that of `null` once they are resolved. The call gives the parameters these
types, resolved, and under its bindings each parameter type becomes the argument type, resolved; so
it does when the bindings are applied to it again.
-/
theorem applicable_instance (t : ClassTable F) (sig : Signature) (s : Bindings)
    (hclosed : ∀ p ∈ sig.paramTypes, p.BoundsClosed)
    (hs : ∀ p ∈ sig.paramTypes, ∀ n ∈ p.unboundNames, ∃ ty, s.lookup n = some ty ∧
      ty.isConcrete = true ∧ ty.resolved.isNull = false) :
    ∃ b : Bindings, t.applicable sig (Ty.substituteAll s sig.paramTypes) = some b ∧
      (∀ p ∈ sig.paramTypes, ∀ n ∈ p.unboundNames,
        b.lookup n = (s.lookup n).map Ty.resolved) ∧
      ∀ p ∈ sig.paramTypes, p.substitute b = (p.substitute s).resolved ∧
        (p.substitute b).substitute b = (p.substitute s).resolved := by
  have hresolved := s.bindingsResolved_resolved
  have hclosed := Ty.allBoundsClosed_iff.mpr hclosed
  have hargs := Ty.resolvedAll_substituteAll_eq s sig.paramTypes
  have hbound : ∀ n ∈ Ty.unboundNamesIn sig.paramTypes, ∃ ty, s.resolved.lookup n = some ty ∧
      ty.isNull = false := by
    intro n hn
    obtain ⟨p, hp, hn⟩ := Ty.mem_unboundNamesIn.mp hn
    obtain ⟨ty, hty, -, hnull⟩ := hs p hp n hn
    exact ⟨ty.resolved, by rw [s.lookup_resolved, hty]; rfl, hnull⟩
  have hlookup : ∀ p ∈ sig.paramTypes, ∀ n ∈ p.unboundNames, (Bindings.infer sig.paramTypes
      (Ty.substituteAll s sig.paramTypes)).lookup n = s.resolved.lookup n := fun p hp n hn =>
    Bindings.lookup_infer_of_instance hresolved hclosed hbound hargs
      (Ty.mem_unboundNamesIn.mpr ⟨p, hp, hn⟩)
  refine ⟨_, t.applicable_of_resolvedAll_eq hresolved hclosed hbound hargs, ?_, ?_⟩
  · intro p hp n hn
    rw [hlookup p hp n hn, s.lookup_resolved]
  · intro p hp
    have honce := (Ty.substitute_congr (hlookup p hp)).trans (p.resolved_substitute_eq s).symm
    have hbinds : Ty.BindsAll s.resolved p.unboundNames := by
      intro n hn
      obtain ⟨ty, hty, hconcrete, -⟩ := hs p hp n hn
      refine ⟨ty.resolved, by rw [s.lookup_resolved, hty]; rfl, Ty.isGround_resolved ?_⟩
      exact Option.isNone_iff_eq_none.mp hconcrete
    -- After the first time there is no parameter left.
    have hground : (p.substitute s).resolved.IsGround := by
      rw [Ty.resolved_substitute_eq]
      exact Ty.isGround_substitute hbinds (Ty.openIn_unboundNames fun _ hn => hn)
    rw [honce]
    exact ⟨rfl, Ty.substitute_of_isGround _ hground⟩

/-- A method that takes a pair, its first component again, and a box of a bound parameter. -/
def swapSignature : Signature where
  name := "swap"
  isStatic := true
  generics := ["T", "U"]
  params :=
    [⟨"pair", .cls "Pair" [.unbound "T", .cls "Box" [.unbound "U"]]⟩, ⟨"first", .unbound "T"⟩,
      ⟨"box", .bound "V" (.cls "Box" [.named "Object"])⟩]
  returnType := none

/-- The two parameters stand for a class and for a bound parameter. -/
def swapBindings : Bindings :=
  [("T", .cls "Box" [.named "Object"]), ("U", .bound "W" (.named "Object"))]

theorem applicable_instance_swap :
    ∃ b : Bindings,
      pairTable.applicable swapSignature
        [.cls "Pair" [.cls "Box" [.named "Object"], .cls "Box" [.bound "W" (.named "Object")]],
          .cls "Box" [.named "Object"], .cls "Box" [.named "Object"]] = some b ∧
      b.lookup "U" = some (.named "Object") := by
  have hclosed : ∀ p ∈ swapSignature.paramTypes, p.BoundsClosed :=
    Ty.allBoundsClosed_iff.mp ⟨⟨trivial, ⟨trivial, trivial⟩, trivial⟩, trivial, rfl, trivial⟩
  have hs : ∀ p ∈ swapSignature.paramTypes, ∀ n ∈ p.unboundNames, ∃ ty,
      swapBindings.lookup n = some ty ∧ ty.isConcrete = true ∧ ty.resolved.isNull = false := by
    intro p hp n hn
    have hnames : n ∈ ["T", "U", "T"] := Ty.mem_unboundNamesIn.mpr ⟨p, hp, hn⟩
    simp only [List.mem_cons, List.not_mem_nil, or_false] at hnames
    rcases hnames with rfl | rfl | rfl
    · exact ⟨_, rfl, rfl, rfl⟩
    · exact ⟨_, rfl, rfl, rfl⟩
    · exact ⟨_, rfl, rfl, rfl⟩
  obtain ⟨b, happ, hlookup, -⟩ :=
    applicable_instance pairTable swapSignature swapBindings hclosed hs
  exact ⟨b, happ, hlookup _ List.mem_cons_self "U" (.tail _ (.head _))⟩

end ClassTable

end Middleweight
