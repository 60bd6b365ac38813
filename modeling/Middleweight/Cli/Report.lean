import Middleweight.Analysis.Issue
import Middleweight.Engine.Error

/-!
# Reports

What the commands say when they fail. A report on a program shows the character of its source text
at which the failure stands, if the text is at hand and reaches so far.
-/

namespace Middleweight

/-- A file that a command could not use. -/
inductive FileFailure where
  | readProgram (path : String)
  | parseProgram (path : String)
  | readSource (path : String)
  | readConfig (path : String)
  | parseConfig (path : String)
deriving DecidableEq, Inhabited

def FileFailure.message : FileFailure → String
  | readProgram path => "Failed to read program '" ++ path ++ "'"
  | parseProgram path => "Failed to parse program '" ++ path ++ "'"
  | readSource path => "Failed to read source '" ++ path ++ "'"
  | readConfig path => "Failed to read config '" ++ path ++ "'"
  | parseConfig path => "Failed to parse config '" ++ path ++ "'"

/-- Why a command failed. Reports on programs come with the source text, if it is at hand. -/
inductive Report (F : Type) where
  | analysis (e : AnalysisError) (text : Option String)
  | runtime (e : RuntimeError F) (text : Option String)
  | file (f : FileFailure)
  /-- The budget of the run is used up. -/
  | exhausted

namespace Report

variable {F : Type}

def message : Report F → String
  | analysis e _ => e.location.text ++ ": " ++ e.message
  | runtime e _ => e.traceback
  | file f => f.message
  | exhausted => "The budget of the run is used up"

def code? : Report F → Option String
  | analysis _ _ => some "mwj::analysis"
  | runtime _ _ => some "mwj::runtime"
  | file _ | exhausted => none

/-- The place of the failure and the source text. -/
def place? : Report F → Option (Location × Option String)
  | analysis e text => some (e.location, text)
  | runtime e text => some (e.location, text)
  | file _ | exhausted => none

/-- The bytes of the character at which the failure stands: where they start and how many. -/
def range? (r : Report F) : Option (Nat × Nat) :=
  match r.place? with
  | some (location, some text) => location.span.charRange text
  | _ => none

/-- What is written at the place. -/
def label? : Report F → Option String
  | analysis _ _ => some "here"
  | runtime e _ => some e.message
  | file _ | exhausted => none

end Report

end Middleweight
