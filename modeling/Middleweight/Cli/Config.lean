import Middleweight.Cli.Files
import Middleweight.Cli.Settings

/-!
# Configuration

The configuration of a program is the nearest file `mwj.toml` at or above it. Sections and keys may
be left out, and unknown ones are refused.
-/

namespace Middleweight

/-- What can be configured. -/
structure Config where
  /-- Whether a program is analysed before it runs. -/
  analyse : Bool := true
  /-- The filter directive of the log. -/
  filter : Option String := none
  /-- How many lines a report shows around a place. -/
  contextLines : Nat := 3
deriving DecidableEq, Inhabited

namespace Config

def fileName : String := "mwj.toml"

/-- The sections that a file may open. -/
def sections : List (List String) := [["run"], ["log"], ["diagnostics"]]

/-- Puts a setting into the configuration, if there is such a setting of that kind. -/
def set? (c : Config) (s : Settings.Setting) : Option Config :=
  match s.key, s.value with
  | ["run", "analyse"], .bool b => some { c with analyse := b }
  | ["log", "filter"], .text t => some { c with filter := some t }
  | ["diagnostics", "context_lines"], .int n =>
    if 0 ≤ n then some { c with contextLines := n.toNat } else none
  | _, _ => none

/-- The configuration that a text describes. -/
def parse? (text : String) : Option Config := do
  let p ← Settings.parse? text
  if p.opened.all sections.contains then p.settings.foldlM set? {} else none

/-- The directory in which the search for a program's configuration starts. -/
def startOf (isFile : Bool) (program : String) : Option String :=
  if isFile then Path.parent? program else some program

/-- The first file among some paths. -/
def firstFile {m : Type → Type} [Monad m] (files : Files m) : List String → m (Option String)
  | [] => pure none
  | path :: rest => do
    if ← files.isFile path then pure (some path) else firstFile files rest

/-- The nearest configuration file at or above a program. -/
def discover {m : Type → Type} [Monad m] (files : Files m) (program : String) :
    m (Option String) := do
  match startOf (← files.isFile program) program with
  | none => pure none
  | some start => firstFile files ((Path.ancestors start).map fun dir => Path.join dir fileName)

end Config

end Middleweight
