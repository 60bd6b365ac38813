import Middleweight.Cli.Arguments

/-!
# The command line

Reads files, prints what a command leaves, and gives the exit code: 0 if it passed, 1 if it failed,
2 if the command line asks for nothing known.
-/

namespace Middleweight

/-- The files on the disk. A file that cannot be read as text counts as unreadable. -/
def diskFiles : Files IO where
  isFile path := do
    try
      let _ ← IO.FS.readBinFile path
      return true
    catch _ => return false
  read? path := do
    try return some (← IO.FS.readFile path)
    catch _ => return none

/-- Prints what a command leaves. -/
def Outcome.print (o : Outcome) : IO UInt32 := do
  IO.print o.output
  match o.failure with
  | none => return 0
  | some report => do
    match report.code? with
    | some code => IO.eprintln code
    | none => pure ()
    IO.eprintln ("Error: " ++ report.message)
    return 1

/-- Carries out a command on the disk. -/
def Command.onDisk (command : Command) (path : String) (source : Option String) : IO UInt32 := do
  match ← Command.loadConfig diskFiles path with
  | .error f => Outcome.print ⟨"", some (.file f)⟩
  | .ok config => Outcome.print (← command.perform diskFiles config path source)

end Middleweight

def main (args : List String) : IO UInt32 := do
  match Middleweight.Invocation.read {} args with
  | none => do
    IO.eprintln Middleweight.Invocation.usage
    return 2
  | some i =>
    match i.target? with
    | none => do
      IO.eprintln Middleweight.Invocation.usage
      return 2
    | some (command, path) => command.onDisk path i.source
