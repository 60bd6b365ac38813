import Middleweight.Proofs.Analysis.Idempotence

/-!
# Members that the checker accepts

A member is checked in a context that its class and its own parameters make up: the types that its
written types may name, the type of `this`, and the type to return. Its body is checked with the
locals that its parameters leave.

* `MethodDecl.check_ok`, `ConstructorDecl.check_ok` : the parts of the check of a member
* `ClassDecl.check_ok` : a class is accepted with all its members
* `BodyContext.params_of_defineParameters` : parameters that are declared have types
-/

namespace Middleweight

variable {F : Type} {t : ClassTable F} {cls : Template F}

/-- The context in which the body of a method is checked. -/
def MethodDecl.context (m : MethodDecl) (t : ClassTable F) (cls : Template F)
    (returnType : Option Ty) : BodyContext F :=
  { table := t, cls, params := m.typeParams cls,
    this? := if m.isStatic then none else some cls.selfType, returnType }

/-- The parts of the check of a method; one that returns a value has a `return`. -/
theorem MethodDecl.check_ok {m : MethodDecl} (h : m.check t cls = .ok ()) :
    ∃ rt L L', m.loweredReturn t (m.typeParams cls) = .ok rt ∧
      (m.context t cls rt).initialLocals m.parameters = .ok L ∧
      (m.context t cls rt).statements L m.body = .ok L' ∧
      (rt.isSome = true → m.body.any Stmt.isReturn = true) := by
  unfold MethodDecl.check at h
  obtain ⟨rt, hrt, h⟩ := ok_of_bind h
  obtain ⟨L, hL, h⟩ := ok_of_bind h
  obtain ⟨L', hL', h⟩ := ok_of_bind h
  refine ⟨rt, L, L', hrt, hL, hL', fun hsome => ?_⟩
  obtain ⟨ty, rfl⟩ := Option.isSome_iff_exists.mp hsome
  cases hwritten : m.returnType with
  | none =>
    rw [MethodDecl.loweredReturn, hwritten] at hrt
    cases hrt
  | some written =>
    rw [hwritten] at h
    dsimp only at h
    split at h
    · next hreturn => exact hreturn
    · cases h

/-- The parts of the check of a constructor. -/
theorem ConstructorDecl.check_ok {k : ConstructorDecl} (h : k.check t cls = .ok ()) :
    ∃ L L', (cls.constructorContext t).initialLocals k.parameters = .ok L ∧
      (cls.constructorContext t).superCall L k.superArguments k.span = .ok () ∧
      (cls.constructorContext t).statements L k.body = .ok L' := by
  unfold ConstructorDecl.check at h
  obtain ⟨L, hL, h⟩ := ok_of_bind h
  obtain ⟨_, hsuper, h⟩ := ok_of_bind h
  obtain ⟨L', hL', -⟩ := ok_of_bind h
  exact ⟨L, L', hL, hsuper, hL'⟩

/-- The parts of the check of a class. -/
theorem ClassDecl.check_ok {d : ClassDecl} (h : d.check t = .ok ()) :
    ∃ cls, t.template d.name.name d.name.span = .ok cls ∧
      (d.constructors = [] → (cls.constructorContext t).superCall [[]] none d.span = .ok ()) ∧
      (∀ k ∈ d.constructors, k.check t cls = .ok ()) ∧ ∀ m ∈ d.methods, m.check t cls = .ok () := by
  obtain ⟨cls, hcls, h⟩ := ok_of_bind h
  refine ⟨cls, typed_ok hcls, ?_⟩
  dsimp only at h
  split at h
  · obtain ⟨_, hsuper, h⟩ := ok_of_bind h
    obtain ⟨_, hconstructors, hmethods⟩ := ok_of_bind h
    exact ⟨fun _ => hsuper, forM_ok_iff.mp hconstructors, forM_ok_iff.mp hmethods⟩
  · next hne =>
    obtain ⟨_, hconstructors, hmethods⟩ := ok_of_bind h
    exact ⟨fun hnil => absurd (List.isEmpty_iff.mpr hnil) hne, forM_ok_iff.mp hconstructors,
      forM_ok_iff.mp hmethods⟩

/-- The return type that the checker expects is the lowered one. -/
theorem MethodDecl.loweredReturn_ok_iff {m : MethodDecl} {params : TypeParams} {ty? : Option Ty} :
    m.loweredReturn t params = .ok ty? ↔
      Option.Rel (fun e ty => t.lower params e = .ok ty) m.returnType ty? := by
  unfold loweredReturn
  cases m.returnType with
  | none =>
    constructor
    · intro h
      cases h
      exact .none
    · intro h
      cases h
      rfl
  | some e =>
    constructor
    · intro h
      obtain ⟨ty, hty, rfl⟩ := ok_of_map (typed_ok h)
      exact .some hty
    · intro h
      cases h with
      | some hty =>
        dsimp only
        rw [hty]
        rfl

/-- Whether a program is accepted, and the analysed program passes a test. -/
def Program.accepts (p : Program) (test : Program → Bool) : Bool :=
  match p.analyse NativeRegistry.standard with
  | .ok p' => test p'
  | .error _ => false

theorem Program.accepts_iff {p : Program} {test : Program → Bool} : p.accepts test = true ↔
    ∃ p', p.analyse NativeRegistry.standard = .ok p' ∧ test p' = true := by
  unfold accepts
  cases p.analyse NativeRegistry.standard with
  | error e => simp
  | ok p' => simp

namespace BodyContext

/-- The locals that a body starts with. -/
def firstLocals (ctx : BodyContext F) : Locals :=
  match ctx.this? with
  | some this => [[("this", this.toTy)]]
  | none => [[]]

theorem initialLocals_eq (ctx : BodyContext F) (ps : List Parameter) :
    ctx.initialLocals ps = ctx.defineParameters ctx.firstLocals ps := by
  unfold initialLocals firstLocals
  cases ctx.this? <;> rfl

/-- Parameters that the checker declares lower where it declares them. -/
theorem params_of_defineParameters {ctx : BodyContext F} : ∀ {ps : List Parameter} {L L' : Locals},
    ctx.defineParameters L ps = .ok L' →
    ∃ qs : List Param, List.Forall₂ (fun e q => q.name = e.1 ∧
      ctx.table.lower ctx.params e.2 = .ok q.ty) (Member.writtenParams ps) qs
  | [], _, _, _ => ⟨[], .nil⟩
  | q :: ps, L, L', h => by
    obtain ⟨ty, hty, h⟩ := ok_of_bind h
    obtain ⟨L₁, -, h⟩ := ok_of_bind h
    obtain ⟨qs, hqs⟩ := params_of_defineParameters h
    exact ⟨⟨q.name.name, ty⟩ :: qs, .cons ⟨rfl, typed_ok hty⟩ hqs⟩

end BodyContext

end Middleweight
