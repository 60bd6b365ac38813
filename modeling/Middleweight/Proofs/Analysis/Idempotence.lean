import Middleweight.Native.Standard
import Middleweight.Proofs.Analysis.CheckMatch
import Middleweight.Proofs.Analysis.Expansion
import Middleweight.Syntax.Build

/-!
# Analysis is idempotent

What analysis gives is accepted again and comes out unchanged. The second analysis builds a table of
its own; it matches the first one, so checking the same bodies ends alike. Expanded types stay under
expansion, and regrouped chains stay under regrouping.
-/

namespace Middleweight

variable {F : Type}

/-! ## Types of an analysed program -/

/-- In a program with plain generics every type stands in the scope of plain generics. -/
theorem Program.PlainGenerics.eachType {p : Program} (h : p.PlainGenerics) :
    p.EachType fun g _ _ => ∀ n ∈ g, IsPlain n := by
  intro c hc
  have hown := (h c hc).own
  refine ⟨fun _ _ => hown, fun _ _ => hown, fun k _ => ?_, fun m hm => ?_⟩
  · exact ⟨fun _ _ => hown, fun es _ => Expr.eachTypeIn_of_forall (fun _ _ => hown) es,
      Stmt.eachTypeIn_of_forall (fun _ _ => hown) _⟩
  · have hvisible := MethodDecl.plain_visible hown ((h c hc).methods m hm)
    exact ⟨fun _ _ => hvisible, fun _ _ => hvisible,
      Stmt.eachTypeIn_of_forall (fun _ _ => hvisible) _⟩

/-- An expanded and regrouped program stays under expansion with a matching table. -/
theorem Program.expand_regroup_of_matches {t t' : ClassTable F} {RB : BodyRelation F}
    {p p' : Program} (ht : t.Resolves) (hplain : p.PlainGenerics) (hp : p.expand t = .ok p')
    (hm : t.Matches RB t') : p'.regroup.expand t' = .ok p'.regroup := by
  have hstep : ∀ (g : List String) (use : TypeUse) (ty ty' : TypeExpr), (∀ n ∈ g, IsPlain n) →
      ty.expand t g = .ok ty' → ty'.expand t g = .ok ty' :=
    fun _ _ _ _ hg h => TypeExpr.expand_expand ht hg h
  have hstay : p'.EachType fun g _ ty => ty.expand t g = .ok ty :=
    hplain.eachType.expand hstep hp
  refine Program.expand_of_eachType (fun g use ty h => ?_) hstay.regroup
  rw [TypeExpr.expand_eq_of_matches hm]
  exact h

/-! ## The second analysis -/

theorem typed_ok {α : Type} {x : Except TypeError α} {a : α} (h : typed x = .ok a) :
    x = .ok a := by
  cases x with
  | error e => cases h
  | ok b => exact congrArg Except.ok (Except.ok.inj h)

/-- The parts of an analysis that went well. -/
theorem Program.analyseFindings_ok {natives : NativeRegistry F} {p p' : Program}
    (h : p.analyseFindings natives = .ok p') :
    ∃ t p₁, ClassTable.build p natives = .ok t ∧ p.expand t = .ok p₁ ∧ p' = p₁.regroup ∧
      p'.checkMain = .ok () ∧ p'.checkFields = .ok () ∧ p'.check t = .ok () := by
  obtain ⟨t, ht, h⟩ := ok_of_bind h
  obtain ⟨p₁, hp₁, h⟩ := ok_of_bind h
  obtain ⟨_, hmain, h⟩ := ok_of_bind h
  obtain ⟨_, hfields, h⟩ := ok_of_bind h
  obtain ⟨_, hcheck, h⟩ := ok_of_bind h
  cases h
  exact ⟨t, p₁, typed_ok ht, hp₁, rfl, hmain, hfields, hcheck⟩

theorem Program.analyse_ok_iff {natives : NativeRegistry F} {p p' : Program} :
    p.analyse natives = .ok p' ↔ p.analyseFindings natives = .ok p' := by
  unfold Program.analyse
  cases p.analyseFindings natives with
  | error f => simp
  | ok q => simp

theorem Program.analyseFindings_analysed {natives : NativeRegistry F} (hn : natives.WellNamed)
    {p p' : Program} (hplain : p.PlainGenerics) (h : p.analyseFindings natives = .ok p') :
    p'.analyseFindings natives = .ok p' := by
  obtain ⟨t, p₁, hbuild, hexpand, rfl, hmain, hfields, hcheck⟩ := analyseFindings_ok h
  have ht := ClassTable.resolves_of_build hbuild hn
  have hsuper : (Option.map (List.map Expr.regroup)) none = none := rfl
  obtain ⟨t', hbuild', hmatch⟩ :=
    ClassTable.build_expanded hbuild ht hplain Stmt.regroupAll hsuper hexpand
  have hbuild' : ClassTable.build p₁.regroup natives = .ok t' := hbuild'
  have hexpand' := Program.expand_regroup_of_matches ht hplain hexpand hmatch
  rw [Program.analyseFindings, hbuild', typed_ok_bind, hexpand']
  show (do
    p₁.regroup.regroup.checkMain
    p₁.regroup.regroup.checkFields
    p₁.regroup.regroup.check t'
    return p₁.regroup.regroup) = Except.ok p₁.regroup
  rw [Program.regroup_regroup, hmain, hfields, hmatch.check_program_eq, hcheck]
  rfl

/-- What analysis accepts and gives is accepted again and given unchanged. -/
theorem analyse_idempotent {p p' : Program} (hplain : p.PlainGenerics)
    (h : p.analyse NativeRegistry.standard = .ok p') :
    p'.analyse NativeRegistry.standard = .ok p' := by
  rw [Program.analyse_ok_iff] at h ⊢
  exact Program.analyseFindings_analysed NativeRegistry.standard_wellNamed hplain h

open Build in
/--
A generic class whose parameter has the name of nothing else, a short type name in every kind of
place, and a chain of operators that is nested the wrong way.
-/
def pairProgram : Program :=
  program
    [{ name := ident "Pair", generics := [ident "T"],
       fields := [field "T" "first", field "List<T>" "rest"],
       constructors := [constructor [param "T" "x"] [assign "first" (var "x")]],
       methods := [method "get" (some "T") [] [returns (some (cast "T" (var "first")))]] },
     { name := ident "Main",
       methods := [mainMethod
         [localVariable "Pair<Integer>" "p" (some (new "Pair<Integer>" [int 1])),
          localVariable "int" "n" (some (binary (int 2) .mul (binary (int 3) .add (int 4)))),
          expr (println (call (var "Integer") "toString" [var "n"]))]] }]
    [importPath "java.util.List"]

theorem analyse_idempotent_pair : ∃ p', pairProgram.PlainGenerics ∧
    pairProgram.analyse NativeRegistry.standard = .ok p' ∧
    p'.analyse NativeRegistry.standard = .ok p' := by
  have hplain : pairProgram.PlainGenerics := by decide +kernel
  have h : (pairProgram.analyse NativeRegistry.standard).toBool = true := by decide +kernel
  obtain ⟨p', hp⟩ := exists_ok_of_toBool h
  exact ⟨p', hplain, hp, analyse_idempotent hplain hp⟩

end Middleweight
