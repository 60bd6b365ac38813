import Middleweight.Analysis.Expand
import Middleweight.Analysis.Regroup
import Middleweight.Analysis.TypeCheck

/-!
# Analysis of programs

`analyse` gives a program with full type names and regrouped operators, or the first objection to it:
to its class table, to a type name, to its main method, to its fields, or to a type.
-/

namespace Middleweight

variable {F : Type}

/-- Whether a method is the `static void main()` of a program. -/
def MethodDecl.isMain (m : MethodDecl) : Bool := m.isEntry && m.returnType.isNone

/-- The main methods of a program. -/
def Program.mains (p : Program) : List MethodDecl :=
  p.classes.flatMap fun c => c.methods.filter MethodDecl.isMain

/-- Exactly one main method has to exist. -/
def Program.checkMain (p : Program) : Checked Unit :=
  match p.mains with
  | [] => objection {} .noMain
  | [_] => .ok ()
  | _ :: second :: _ => objection second.span .severalMains

/-- Field names have to differ from those seen before. -/
def FieldDecl.checkDistinct (className : String) : List String → List FieldDecl → Checked Unit
  | _, [] => .ok ()
  | seen, f :: rest =>
    if f.name.name ∈ seen then objection f.name.span (.fieldRedeclared f.name.name className)
    else FieldDecl.checkDistinct className (f.name.name :: seen) rest

/-- The fields of each class have to differ in name. -/
def Program.checkFields (p : Program) : Checked Unit :=
  p.classes.forM fun c => FieldDecl.checkDistinct c.name.name [] c.fields

/-- Analysis with the findings' places still without their source. -/
def Program.analyseFindings (natives : NativeRegistry F) (p : Program) : Checked Program := do
  let table ← typed (ClassTable.build p natives)
  let expanded ← p.expand table
  let regrouped := expanded.regroup
  regrouped.checkMain
  regrouped.checkFields
  regrouped.check table
  return regrouped

/-- Analyses a program over some native classes. -/
def Program.analyse (natives : NativeRegistry F) (p : Program) : Except AnalysisError Program :=
  match p.analyseFindings natives with
  | .ok p => .ok p
  | .error f => .error ⟨f.issue, ⟨p.source, f.span⟩⟩

end Middleweight
