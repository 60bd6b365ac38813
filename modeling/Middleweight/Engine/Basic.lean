import Middleweight.Engine.Invoke
import Middleweight.Native.Standard

/-!
# The engine

What a host does with a program: make an engine for it, run its main method, call its static methods,
and make objects of its classes. Every operation is a computation on the machine, so that a host can
do several of them one after the other.
-/

namespace Middleweight

variable {F : Type} [HostFunctions F]

namespace Engine

/-- The first class with a static method `main` without parameters. -/
def entryOf (program : Program) : Option String :=
  (program.classes.find? fun c => c.methods.any MethodDecl.isEntry).map fun c => c.name.name

/-- An engine for a program over some native classes. -/
def new (program : Program) (natives : NativeRegistry F) :
    Except (RuntimeError F) (Engine F) :=
  match ClassTable.build program natives with
  | .error e => .error ⟨.type e, ⟨program.source, e.span⟩, []⟩
  | .ok table => .ok { table, source := program.source, entry := entryOf program }

variable (eng : Engine F)

/-- The calls of a host. -/
def calls : Calls F := Calls.atDepth eng eng.budget

/-- Calls a static method of a class by their names. -/
def callStatic (className method : String) (args : List (Variable F)) (span : Span) :
    EvalM F (Option (Variable F)) :=
  match eng.table.imports.resolve? className with
  | none => eng.raise (.type (.unknownType className span)) span
  | some full => do
    let view ← eng.staticView full span
    eng.calls.dispatch view .null method true args (declaredTypes args) span

/-- Makes an object of a class, choosing the constructor by the declared types of the arguments. -/
def constructObject (c : RuntimeClass F) (args : List (Variable F)) (span : Span) :
    EvalM F (ObjectRef F) :=
  eng.calls.construct c args (declaredTypes args) span

/-- Passes the output on. -/
def flush : EvalM F Unit :=
  match eng.sink.flushError with
  | some e => eng.invalid (.flush e) {}
  | none => return ()

/-- Runs the main method of the program. -/
def run : EvalM F Unit :=
  eng.withFrame ⟨"Global", eng.location {}⟩ do
    match eng.entry with
    | none => eng.raise (.noSuchMember ⟨eng.source, "main", []⟩) {}
    | some entry => do
      let _ ← eng.callStatic entry "main" [] {}
      eng.flush

end Engine

end Middleweight
