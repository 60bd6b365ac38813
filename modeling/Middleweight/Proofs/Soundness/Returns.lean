import Middleweight.Proofs.Analysis.Checked
import Middleweight.Proofs.Analysis.ExpandedRun
import Middleweight.Proofs.Engine.Returns
import Middleweight.Proofs.Syntax.Retyped

/-!
# Bodies return what their methods declare

The checker looks for a `return` among the statements of a body, and at the form of every `return`
wherever it stands. That is enough: what a body returns comes from one of its `return` statements.

* `BodyContext.returnForms_of_statement` : the forms that the checker accepts
* `MethodDecl.ReturnsAsDeclared` : what a checked method has
* `returns_as_declared` : runs of methods of accepted programs
-/

namespace Middleweight

/-! ## The `return` statements of a body -/

namespace Stmt

mutual

/-- Regrouping keeps the `return` statements. -/
theorem returnForms_regroup : ∀ s : Stmt, s.regroup.returnForms = s.returnForms
  | localVariable _ _ _ _ | assign _ _ _ _ | fieldAssign _ _ _ _ _ | expression _ _ => by
    simp [regroup, returnForms]
  | ifElse _ a none _ => by simp [regroup, returnForms, allReturnForms_regroupAll a]
  | ifElse _ a (some b) _ => by
    simp [regroup, returnForms, allReturnForms_regroupAll a, allReturnForms_regroupAll b]
  | whileLoop _ body _ => by simp [regroup, returnForms, allReturnForms_regroupAll body]
  | forLoop init _ update body _ => by
    simp [regroup, returnForms, returnForms_regroup init, returnForms_regroup update,
      allReturnForms_regroupAll body]
  | returns value _ => by simp [regroup, returnForms]
  | block body _ => by simp [regroup, returnForms, allReturnForms_regroupAll body]

theorem allReturnForms_regroupAll : ∀ ss : List Stmt,
    allReturnForms (regroupAll ss) = allReturnForms ss
  | [] => by simp [regroupAll]
  | s :: rest => by
    simp [regroupAll, allReturnForms, returnForms_regroup s, allReturnForms_regroupAll rest]

end

/-- Regrouping leaves the kind of a statement. -/
theorem isReturn_regroup (s : Stmt) : s.regroup.isReturn = s.isReturn := by
  cases s with
  | ifElse _ _ other _ => cases other <;> simp [regroup, isReturn]
  | _ => simp [regroup, isReturn]

theorem any_isReturn_regroupAll (ss : List Stmt) :
    (regroupAll ss).any isReturn = ss.any isReturn := by
  induction ss with
  | nil => simp [regroupAll]
  | cons s rest ih => simp [regroupAll, isReturn_regroup, ih]

variable {R : TypeExpr → TypeExpr → Prop}

mutual

/-- Statements that differ in types only have the same `return` statements. -/
theorem Retyped.returnForms_eq : ∀ {s s' : Stmt}, s.Retyped R s' → s'.returnForms = s.returnForms
  | _, _, .localVariable _ _ _ _ | _, _, .assign _ _ _ _ | _, _, .fieldAssign _ _ _ _ _
  | _, _, .expression _ _ => by simp [returnForms]
  | _, _, .ifThen _ _ ha => by simp [returnForms, ha.allReturnForms_eq]
  | _, _, .ifElse _ _ ha hb => by simp [returnForms, ha.allReturnForms_eq, hb.allReturnForms_eq]
  | _, _, .whileLoop _ _ hb => by simp [returnForms, hb.allReturnForms_eq]
  | _, _, .forLoop _ hi _ hu hb => by
    simp [returnForms, hi.returnForms_eq, hu.returnForms_eq, hb.allReturnForms_eq]
  | _, _, .returns _ hv => by cases hv <;> simp [returnForms]
  | _, _, .block _ hb => by simp [returnForms, hb.allReturnForms_eq]

theorem AllRetyped.allReturnForms_eq : ∀ {ss ss' : List Stmt}, AllRetyped R ss ss' →
    allReturnForms ss' = allReturnForms ss
  | _, _, .nil => rfl
  | _, _, .cons hs hss => by simp [allReturnForms, hs.returnForms_eq, hss.allReturnForms_eq]

end

theorem Retyped.isReturn_eq {s s' : Stmt} (h : s.Retyped R s') : s'.isReturn = s.isReturn := by
  cases h <;> rfl

theorem AllRetyped.any_isReturn_eq : ∀ {ss ss' : List Stmt}, AllRetyped R ss ss' →
    ss'.any isReturn = ss.any isReturn
  | _, _, .nil => rfl
  | _, _, .cons hs hss => by rw [List.any_cons, List.any_cons, hs.isReturn_eq, hss.any_isReturn_eq]

end Stmt

/-! ## Checks -/

namespace BodyContext

variable {F : Type} {ctx : BodyContext F}

/-- A `return` that is accepted has an expression where the method declares a type. -/
theorem isSome_of_returned {L : Locals} {e? : Option Expr} {span : Span} {u : Unit}
    (h : ctx.returned L e? span = .ok u) : e?.isSome = ctx.returnType.isSome := by
  unfold returned at h
  cases e? with
  | none =>
    cases hret : ctx.returnType with
    | none => rfl
    | some expected =>
      rw [hret] at h
      cases h
  | some e =>
    obtain ⟨actual, -, h⟩ := ok_of_bind h
    cases hret : ctx.returnType with
    | none =>
      rw [hret] at h
      cases h
    | some expected => rfl

mutual

/-- Wherever a `return` stands that the checker accepts, it carries a value if one is to be returned. -/
theorem returnForms_of_statement : ∀ {s : Stmt} {L L' : Locals}, ctx.statement L s = .ok L' →
    ∀ b ∈ s.returnForms, b = ctx.returnType.isSome
  | .localVariable _ _ _ _, _, _, _ | .assign _ _ _ _, _, _, _ | .fieldAssign _ _ _ _ _, _, _, _
  | .expression _ _, _, _, _ => by
    intro b hb
    rw [Stmt.returnForms] at hb
    all_goals cases hb
  | .ifElse _ a none _, _, _, h => by
    rw [statement] at h
    obtain ⟨_, -, h⟩ := ok_of_bind h
    obtain ⟨_, ha, -⟩ := ok_of_bind h
    rw [Stmt.returnForms]
    exact allReturnForms_of_statements ha
  | .ifElse _ a (some b) _, _, _, h => by
    rw [statement] at h
    obtain ⟨_, -, h⟩ := ok_of_bind h
    obtain ⟨_, ha, h⟩ := ok_of_bind h
    obtain ⟨_, hb, -⟩ := ok_of_bind h
    rw [Stmt.returnForms]
    exact List.forall_mem_append.mpr
      ⟨allReturnForms_of_statements ha, allReturnForms_of_statements hb⟩
  | .whileLoop _ body _, _, _, h => by
    rw [statement] at h
    obtain ⟨_, -, h⟩ := ok_of_bind h
    obtain ⟨_, hbody, -⟩ := ok_of_bind h
    rw [Stmt.returnForms]
    exact allReturnForms_of_statements hbody
  | .forLoop init _ update body _, _, _, h => by
    rw [statement] at h
    obtain ⟨_, hinit, h⟩ := ok_of_bind h
    obtain ⟨_, -, h⟩ := ok_of_bind h
    obtain ⟨_, hupdate, h⟩ := ok_of_bind h
    obtain ⟨_, hbody, -⟩ := ok_of_bind h
    rw [Stmt.returnForms, List.forall_mem_append, List.forall_mem_append]
    exact ⟨⟨returnForms_of_statement hinit, returnForms_of_statement hupdate⟩,
      allReturnForms_of_statements hbody⟩
  | .returns value _, _, _, h => by
    rw [statement] at h
    obtain ⟨_, hreturned, -⟩ := ok_of_bind h
    rw [Stmt.returnForms]
    exact List.forall_mem_singleton.mpr (isSome_of_returned hreturned)
  | .block body _, _, _, h => by
    rw [statement] at h
    obtain ⟨_, hbody, -⟩ := ok_of_bind h
    rw [Stmt.returnForms]
    exact allReturnForms_of_statements hbody

theorem allReturnForms_of_statements : ∀ {ss : List Stmt} {L L' : Locals},
    ctx.statements L ss = .ok L' → ∀ b ∈ Stmt.allReturnForms ss, b = ctx.returnType.isSome
  | [], _, _, _ => by
    intro b hb
    rw [Stmt.allReturnForms] at hb
    cases hb
  | s :: rest, _, _, h => by
    rw [statements] at h
    obtain ⟨_, hs, h⟩ := ok_of_bind h
    rw [Stmt.allReturnForms]
    exact List.forall_mem_append.mpr
      ⟨returnForms_of_statement hs, allReturnForms_of_statements h⟩

end

end BodyContext

/-! ## Methods -/

namespace MethodDecl

/--
The `return` statements of a method carry a value where it declares a return type, and nowhere
else; and where it declares one, there is a `return` among the statements of its body.
-/
structure ReturnsAsDeclared (m : MethodDecl) : Prop where
  forms : ∀ b ∈ Stmt.allReturnForms m.body, b = m.returnType.isSome
  ends : m.returnType.isSome = true → m.body.any Stmt.isReturn = true

variable {F : Type} {t : ClassTable F} {m m' : MethodDecl}

/-- The checks of a method accept it only if it returns as it declares. -/
theorem ReturnsAsDeclared.of_check {cls : Template F} (h : m.check t cls = .ok ()) :
    m.ReturnsAsDeclared := by
  obtain ⟨rt, L, L', hrt, -, hbody, hends⟩ := check_ok h
  have hsome := isSome_eq_of_rel (loweredReturn_ok_iff.mp hrt)
  rw [← hsome] at hends
  refine ⟨?_, hends⟩
  rw [hsome]
  exact BodyContext.allReturnForms_of_statements hbody

/-- What holds of an analysed method holds of the method as it was written. -/
theorem ReturnsAsDeclared.of_expand {g : List String} (h : m.expand t g = .ok m')
    (hm' : m'.regroup.ReturnsAsDeclared) : m.ReturnsAsDeclared := by
  obtain ⟨returnType, parameters, body, hr, -, hb, rfl⟩ := expand_ok h
  have hretyped := Stmt.allRetyped_of_expandAll (R := fun _ _ => True) (fun _ _ _ => trivial) hb
  have hsome := isSome_eq_of_rel hr
  obtain ⟨hforms, hends⟩ := hm'
  simp only [MethodDecl.regroup] at hforms hends
  rw [Stmt.allReturnForms_regroupAll, hretyped.allReturnForms_eq, ← hsome] at hforms
  rw [Stmt.any_isReturn_regroupAll, hretyped.any_isReturn_eq, ← hsome] at hends
  exact ⟨hforms, hends⟩

end MethodDecl

variable {F : Type} {natives : NativeRegistry F} {p p' : Program} {d : ClassDecl} {m : MethodDecl}

/-- The methods of an accepted program, as they are written and as they are analysed. -/
theorem Program.returnsAsDeclared (h : p.analyse natives = .ok p')
    (hd : d ∈ p.classes ∨ d ∈ p'.classes) (hm : m ∈ d.methods) : m.ReturnsAsDeclared := by
  obtain ⟨t, p₁, -, hexpand, rfl, -, -, hcheck⟩ := analyseFindings_ok (analyse_ok_iff.mp h)
  have hchecked : ∀ d ∈ p₁.regroup.classes, ∀ m ∈ d.methods, m.ReturnsAsDeclared := by
    intro d hd m hm
    obtain ⟨cls, -, -, -, hmethods⟩ := ClassDecl.check_ok (forM_ok_iff.mp hcheck d hd)
    exact .of_check (hmethods m hm)
  rcases hd with hd | hd
  · obtain ⟨classes, hclasses, rfl⟩ := expand_ok hexpand
    obtain ⟨d', hd', hd⟩ := exists_of_forall₂_mem hclasses.flip hd
    obtain ⟨base, fields, constructors, methods, -, -, -, hmethods, rfl⟩ := ClassDecl.expand_ok hd
    obtain ⟨m', hm', hm⟩ := exists_of_forall₂_mem hmethods.flip hm
    exact .of_expand hm (hchecked _ (List.mem_map_of_mem hd') _ (List.mem_map_of_mem hm'))
  · exact hchecked d hd m hm

/--
Wherever the body of a method of an accepted program is executed, by whatever engine, and ends
without an error, it returns a value if the method declares a return type; otherwise it goes on to
its end or returns without a value.
-/
theorem returns_as_declared [HostFunctions F] (h : p.analyse natives = .ok p')
    (hd : d ∈ p.classes ∨ d ∈ p'.classes) (hm : m ∈ d.methods) {eng : Engine F} {calls : Calls F}
    {machine machine' : Machine F} {flow : Flow F}
    (hrun : eng.execBlock calls m.body machine = .ok flow machine') :
    (m.returnType.isSome = true → ∃ v, flow = .returned (some v)) ∧
      (m.returnType = none → flow = .normal ∨ flow = .returned none) := by
  obtain ⟨hforms, hends⟩ := Program.returnsAsDeclared h hd hm
  constructor
  · intro hsome
    obtain ⟨v, rfl⟩ := Engine.execBlock_returns (hends hsome) hrun
    have hv := hforms _ (Engine.execBlock_returnForms hrun)
    obtain ⟨w, rfl⟩ := Option.isSome_iff_exists.mp (hv.trans hsome)
    exact ⟨w, rfl⟩
  · intro hnone
    cases flow with
    | normal => exact .inl rfl
    | returned v =>
      have hv := hforms _ (Engine.execBlock_returnForms hrun)
      rw [hnone] at hv
      cases v with
      | none => exact .inr rfl
      | some w => cases hv

open Build in
/-- A method that returns from an endless loop, and would return at its end. -/
def rootMethod : MethodDecl :=
  staticMethod "root" (some "int") []
    [forLoop (localVariable "int" "i" (some (int 0))) (boolean true) (expr (postIncrement (var "i")))
       [ifElse (binary (binary (var "i") .mul (var "i")) .ge (int 10))
          [block [returns (some (var "i"))]] none],
     returns (some (int 0))]

open Build in
/-- A program with that method. -/
def rootProgram : Program :=
  program [{ name := ident "Main", methods := [rootMethod, mainMethod [returns none]] }]

/-- Whether an execution ends with the return of a number. -/
def Flow.returnsInt {F : Type} (n : Int64) : EStateM.Result (Stop F) (Machine F) (Flow F) → Bool
  | .ok (.returned (some ⟨_, .int k⟩)) _ => k == n
  | _ => false

theorem Flow.returnsInt_ok {F : Type} {n : Int64}
    {r : EStateM.Result (Stop F) (Machine F) (Flow F)} (h : returnsInt n r = true) :
    ∃ v m, r = .ok (.returned (some v)) m ∧ v.value = .int n := by
  unfold returnsInt at h
  split at h
  · next c k m => exact ⟨_, m, rfl, congrArg Value.int (beq_iff_eq.mp h)⟩
  · cases h

theorem returns_as_declared_root : ∃ p' eng flow machine',
    rootProgram.analyse NativeRegistry.standard = .ok p' ∧
      Engine.new p' NativeRegistry.standard = .ok eng ∧
      eng.execBlock (Calls.atDepth eng 8) rootMethod.body {} = .ok flow machine' ∧
      ∃ v, flow = .returned (some v) ∧ v.value = .int 4 := by
  have hlaunches : rootProgram.launches (fun _ => false) (fun eng =>
      Flow.returnsInt 4 (eng.execBlock (Calls.atDepth eng 8) rootMethod.body {})) = true := by
    decide +kernel
  obtain ⟨p', eng, hanalyse, hnew, hreturns⟩ := Program.passes_of_launches hlaunches
  obtain ⟨v, machine', hrun, hv⟩ := Flow.returnsInt_ok hreturns
  have hdeclared := returns_as_declared hanalyse (.inl (List.mem_singleton_self _))
    (List.mem_cons_self ..) hrun
  obtain ⟨w, hw⟩ := hdeclared.1 rfl
  cases hw
  exact ⟨p', eng, _, machine', hanalyse, hnew, hrun, v, rfl, hv⟩

end Middleweight
