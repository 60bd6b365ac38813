import Middleweight.Native.Standard
import Middleweight.Proofs.Analysis.Expansion
import Middleweight.Syntax.Build

/-!
# The table of an analysed program

Analysis checks bodies against the table of the program as written; a run uses the table of the
program that analysis leaves, with full names and regrouped operators. The two tables answer alike:
they have the same classes, and a member has the same signature in both, whatever the parameters of
its class stand for.

* `ClassTable.Matches.agrees` : matching tables answer alike
* `build_regrouped` : the table of the expanded and regrouped program exists and answers alike
-/

namespace Middleweight

variable {F : Type}

/-! ## Tables that answer alike -/

/--
Two members of a class with the given parameters: of the same name and kind, and with the same
signature, or the same error, whether the parameters are unbound or bound to any types.
-/
structure Member.SameSignature (t t' : ClassTable F) (names : List String) (m m' : Member F) :
    Prop where
  name : m'.name = m.name
  isStatic : m'.isStatic = m.isStatic
  isConstructor : m'.isConstructor = m.isConstructor
  generics : m'.generics = m.generics
  unbound : t'.signature m' (TypeParams.unbound names) = t.signature m (TypeParams.unbound names)
  bound : ∀ args, t'.signature m' (TypeParams.bound names args) =
    t.signature m (TypeParams.bound names args)

/-- Two classes with the same parameters, base and fields whose members have the same signatures. -/
structure Template.SameShape (t t' : ClassTable F) (c c' : Template F) : Prop where
  name : c'.name = c.name
  generics : c'.generics = c.generics
  base : c'.base = c.base
  fields : c'.fields = c.fields
  constructors : List.Forall₂ (Member.SameSignature t t' c.generics) c.constructors c'.constructors
  methods : List.Forall₂ (Member.SameSignature t t' c.generics) c.methods c'.methods

/-- Two tables with the same names of classes, of the same shapes and with the same base classes. -/
structure ClassTable.Agrees (t t' : ClassTable F) : Prop where
  classes : ∀ name, Option.Rel (Template.SameShape t t') (t.get? name) (t'.get? name)
  ancestors : ∀ name, t'.ancestors name = t.ancestors name

namespace ClassTable.Matches

variable {RB : BodyRelation F} {t t' : ClassTable F}

theorem sameSignature (h : t.Matches RB t') {names : List String} {m m' : Member F}
    (hm : m.Matches t.lowering RB names m') : m.SameSignature t t' names m' where
  name := hm.name
  isStatic := hm.isStatic
  isConstructor := hm.isConstructor
  generics := hm.generics
  unbound := h.signature_eq (TypeParams.within_unbound names) hm
  bound args := h.signature_eq (TypeParams.within_bound names args) hm

theorem sameShape (h : t.Matches RB t') {c c' : Template F} (hc : c.Matches t.lowering RB c') :
    c.SameShape t t' c' where
  name := hc.name
  generics := hc.generics
  base := hc.base
  fields := hc.fields
  constructors := hc.constructors.imp fun _ _ => h.sameSignature
  methods := hc.methods.imp fun _ _ => h.sameSignature

/-- Matching tables answer alike. -/
theorem agrees (h : t.Matches RB t') : t.Agrees t' where
  classes name := by
    rcases rel_elim (h.get? name) with ⟨h1, h2⟩ | ⟨c, c', h1, h2, hc⟩
    · rw [h1, h2]
      exact .none
    · rw [h1, h2]
      exact .some (h.sameShape hc)
  ancestors := h.ancestors_eq

end ClassTable.Matches

/-! ## The program that analysis leaves -/

/-- The program with full names and regrouped operators has a table that answers alike. -/
theorem build_regrouped {p p' : Program} {t : ClassTable StandardFn} (hplain : p.PlainGenerics)
    (hbuild : ClassTable.build p NativeRegistry.standard = .ok t) (hexpand : p.expand t = .ok p') :
    ∃ t', ClassTable.build p'.regroup NativeRegistry.standard = .ok t' ∧ t.Agrees t' := by
  have ht := ClassTable.resolves_of_build hbuild NativeRegistry.standard_wellNamed
  have hsuper : (Option.map (List.map Expr.regroup)) none = none := rfl
  obtain ⟨t', hbuild', hmatch⟩ :=
    ClassTable.build_expanded hbuild ht hplain Stmt.regroupAll hsuper hexpand
  exact ⟨t', hbuild', hmatch.agrees⟩

open Build in
/--
Parameters of a class and of a method that hide names of classes, a base class and fields with short
names, and a static method, which sees no parameter of its class.
-/
def cupboardProgram : Program :=
  program
    [{ name := ident "Cupboard", generics := [ident "String"],
       base := some (TypeExpr.parse "List<String>"),
       fields := [field "String" "first", field "List<Integer>" "counts"],
       constructors := [constructor [param "String" "x"] [assign "first" (var "x")]],
       methods :=
         [{ method "pick" (some "String") [param "Integer" "x", param "Float" "y"]
              [returns (some (var "first"))] with generics := [ident "Integer"] },
          { method "name" (some "String") [param "List<String>" "xs"]
              [returns (some (binary (string "a") .add (string "b")))] with isStatic := true }] }]
    [importPath "java.util.*"]

theorem build_regrouped_cupboard : ∃ t p' t', cupboardProgram.PlainGenerics ∧
    ClassTable.build cupboardProgram NativeRegistry.standard = .ok t ∧
    cupboardProgram.expand t = .ok p' ∧
    ClassTable.build p'.regroup NativeRegistry.standard = .ok t' ∧ t.Agrees t' := by
  have hplain : cupboardProgram.PlainGenerics := by decide +kernel
  have h : ((ClassTable.build cupboardProgram NativeRegistry.standard).bind fun t =>
      (cupboardProgram.expand t).mapError fun _ => default).toBool = true := by decide +kernel
  cases ht : ClassTable.build cupboardProgram NativeRegistry.standard with
  | error e => simp [ht, Except.bind, Except.toBool] at h
  | ok t =>
    cases hp : cupboardProgram.expand t with
    | error e => simp [ht, hp, Except.bind, Except.mapError, Except.toBool] at h
    | ok p' =>
      obtain ⟨t', hbuild', hagrees⟩ := build_regrouped hplain ht hp
      exact ⟨t, p', t', hplain, rfl, hp, hbuild', hagrees⟩

end Middleweight
