import Middleweight.Proofs.Members.Selection
import Middleweight.Proofs.World.Activity

/-!
# How members are run

A member is run with as many arguments as it has parameters, and a static one without a receiver.
The constructor of a class runs together with those of the classes behind it.

* `Activity.Fit` : what activities of members are given
* `Leads.fit`, `Reaches.fit` : it is given to all activities of a run
-/

namespace Middleweight

variable {F : Type}

theorem length_argumentTypes {es : List Expr} {vs : List (Variable F)}
    (h : vs.length = es.length) : (argumentTypes es vs).length = vs.length := by
  induction es generalizing vs with
  | nil =>
    cases vs with
    | nil => rfl
    | cons v vs => cases h
  | cons e es ih =>
    cases vs with
    | nil => cases h
    | cons v vs => rw [argumentTypes, List.length_cons, List.length_cons, ih (Nat.succ.inj h)]

theorem length_declaredTypes (args : List (Variable F)) :
    (declaredTypes args).length = args.length := by
  rw [declaredTypes, List.length_map]

/-- A list of expressions has as many values. -/
theorem Engine.length_evalAll [HostFunctions F] {eng : Engine F} {calls : Calls F} : ∀ {es : List Expr}
    {vs : List (Variable F)} {m m' : Machine F}, eng.evalAll calls es m = .ok vs m' →
    vs.length = es.length
  | [], _, _, _, h => by
    rw [evalAll] at h
    cases h
    rfl
  | e :: rest, vs, m, m', h => by
    rw [evalAll] at h
    obtain ⟨v, m₁, -, h⟩ := EvalM.ok_of_bind h
    obtain ⟨vs', m₂, hrest, h⟩ := EvalM.ok_of_bind h
    cases h
    rw [List.length_cons, List.length_cons, length_evalAll hrest]

/-- A signature that is applicable has as many parameters as there are arguments. -/
theorem ClassTable.length_params_of_applicable {t : ClassTable F} {s : Signature} {args : List Ty}
    {b : Bindings} (h : t.applicable s args = some b) : s.params.length = args.length := by
  unfold applicable at h
  dsimp only at h
  split at h
  · next htest =>
    have hlength := (Bool.and_eq_true_iff.mp htest).1
    rw [decide_eq_true_iff, Signature.paramTypes, List.length_map] at hlength
    exact hlength
  · cases h

/--
As many arguments as there are types of them, or parameters; no receiver where none is expected; and
a constructor is one of its class and leaves those behind its class to be constructed.
-/
def Activity.Fit : Activity F → Prop
  | call _ this _ isStatic args argTypes _ =>
    args.length = argTypes.length ∧ (isStatic = true → this = .null)
  | method s this args _ =>
    args.length = s.signature.params.length ∧ (s.member.isStatic = true → this = .null)
  | construction _ args argTypes _ => args.length = argTypes.length
  | constructors _ _ _ args argTypes _ => args.length = argTypes.length
  | constructor s _ isStaticView rest args _ =>
    args.length = s.signature.params.length ∧
      (∃ layer, s.owner = ⟨isStaticView, layer, rest⟩) ∧ s.member ∈ s.owner.constructors
  | _ => True

variable [HostFunctions F] {eng : Engine F} {M N : Moment F}

/-- Every activity gives those that it starts as many arguments as they have parameters. -/
theorem Leads.fit (hstep : Leads eng M N) (h : M.activity.Fit) : N.activity.Fit := by
  cases hstep with
  | callStatic _ _ => exact ⟨(length_declaredTypes _).symm, fun _ => rfl⟩
  | construct => exact (length_declaredTypes _).symm
  | call hresolve =>
    obtain ⟨hlength, hthis⟩ := h
    obtain ⟨hmem, -, happ⟩ := ClassTable.method_of_found hresolve
    refine ⟨hlength.trans (ClassTable.length_params_of_applicable happ).symm, fun hstatic => ?_⟩
    exact hthis ((Template.mem_methodsNamed hmem).2.symm.trans hstatic)
  | construction _ => exact h
  | constructor hresolve =>
    obtain ⟨-, cs, -, -, happ⟩ := MemberSource.resolveConstructor_found hresolve
    obtain ⟨howner, hmem, -⟩ := ClassTable.constructor_of_found hresolve
    exact ⟨Eq.trans h (ClassTable.length_params_of_applicable happ).symm, ⟨_, howner⟩,
      howner ▸ hmem⟩
  | defaultConstructor _ => rfl
  | baseConstructors _ _ _ heval => exact (length_argumentTypes (Engine.length_evalAll heval)).symm
  | hostConstruct => exact (length_declaredTypes _).symm
  | newObject _ heval => exact (length_argumentTypes (Engine.length_evalAll heval)).symm
  | callMethod _ heval _ =>
    exact ⟨(length_argumentTypes (Engine.length_evalAll heval)).symm, fun hstatic => if_pos hstatic⟩
  | _ => trivial

/-- So do all activities of a run. -/
theorem Reaches.fit (h : Reaches eng M N) (hM : M.activity.Fit) : N.activity.Fit := by
  induction h with
  | refl => exact hM
  | tail _ hstep ih => exact hstep.fit ih

end Middleweight
