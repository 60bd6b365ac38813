import Middleweight.Analysis.Basic
import Middleweight.Cli.Config
import Middleweight.Cli.Report
import Middleweight.Engine.Basic
import Middleweight.Json.Parser
import Middleweight.Json.Printer
import Middleweight.Native.Standard
import Middleweight.Syntax.Decode
import Middleweight.Syntax.Encode

/-!
# Commands

`Command.run` loads a program, analyses it unless told otherwise, and runs it; `Command.check` loads
and analyses it. Files are reached through `Files`, so that a command is a plain function on a file
tree as well as an action on the disk.

The source text of a program is only used in reports. Without a path of its own it is looked for
beside the program, under the name of its source.
-/

namespace Middleweight

/-- What a command does. -/
inductive Command where
  | run (noAnalyse : Bool)
  | check (dump : Bool)
deriving DecidableEq, Inhabited

/-- What a command leaves: what it wrote, and why it failed if it did. -/
structure Outcome where
  output : String
  failure : Option (Report StandardFn)

namespace Command

variable {m : Type → Type} [Monad m]

/-- The configuration that applies to a program. -/
def loadConfig (files : Files m) (program : String) : m (Except FileFailure Config) := do
  match ← Config.discover files program with
  | none => pure (.ok {})
  | some path =>
    match ← files.read? path with
    | none => pure (.error (.readConfig path))
    | some text =>
      match Config.parse? text with
      | some c => pure (.ok c)
      | none => pure (.error (.parseConfig path))

/-- The program in a file. -/
def loadProgram (files : Files m) (path : String) : m (Except FileFailure Program) := do
  match ← files.read? path with
  | none => pure (.error (.readProgram path))
  | some text =>
    match (Json.parse? text).bind Program.decode? with
    | some p => pure (.ok p)
    | none => pure (.error (.parseProgram path))

/-- Where the source text of a program is looked for. -/
def sourceBeside (path : String) (p : Program) : String :=
  Path.join ((Path.parent? path).getD ".") p.source

/-- The source text of a program. A path that is given has to lead to a file. -/
def loadSource (files : Files m) (path : String) (source : Option String) (p : Program) :
    m (Except FileFailure (Option String)) := do
  match source with
  | some given =>
    match ← files.read? given with
    | some text => pure (.ok (some text))
    | none => pure (.error (.readSource given))
  | none =>
    let beside := sourceBeside path p
    if ← files.isFile beside then do
      let text ← files.read? beside
      pure (.ok text)
    else pure (.ok none)

/-- Runs a program that has been loaded. -/
def runProgram (p : Program) (text : Option String) : Outcome :=
  match Engine.new p NativeRegistry.standard with
  | .error e => ⟨"", some (.runtime e text)⟩
  | .ok eng =>
    match eng.run {} with
    | .ok _ machine => ⟨machine.output, none⟩
    | .error (.error e) machine => ⟨machine.output, some (.runtime e text)⟩
    | .error .exhausted machine => ⟨machine.output, some .exhausted⟩

/-- What `check` writes about a program that passed. -/
def checkText (dump : Bool) (p : Program) : String :=
  if dump then p.encode.pretty ++ "\n" else p.source ++ ": ok\n"

/-- Carries out a command on a program that has been loaded. -/
def onProgram (command : Command) (config : Config) (p : Program) (text : Option String) :
    Outcome :=
  match command with
  | .run noAnalyse =>
    if config.analyse && !noAnalyse then
      match p.analyse NativeRegistry.standard with
      | .error e => ⟨"", some (.analysis e text)⟩
      | .ok p => runProgram p text
    else runProgram p text
  | .check dump =>
    match p.analyse NativeRegistry.standard with
    | .error e => ⟨"", some (.analysis e text)⟩
    | .ok p => ⟨checkText dump p, none⟩

/-- Carries out a command on the program in a file. -/
def perform (command : Command) (files : Files m) (config : Config) (path : String)
    (source : Option String) : m Outcome := do
  match ← loadProgram files path with
  | .error f => pure ⟨"", some (.file f)⟩
  | .ok p =>
    match ← loadSource files path source p with
    | .error f => pure ⟨"", some (.file f)⟩
    | .ok text => pure (command.onProgram config p text)

end Command

end Middleweight
