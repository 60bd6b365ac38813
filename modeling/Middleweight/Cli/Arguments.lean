import Middleweight.Cli.Commands

/-!
# Arguments of the command line

The words of a command line: a command, the program it is for, and options in any order. Reading
recurses on the words.
-/

namespace Middleweight

/-- What a command line asks for. -/
structure Invocation where
  verbosity : Nat := 0
  command : Option String := none
  program : Option String := none
  source : Option String := none
  noAnalyse : Bool := false
  dump : Bool := false
deriving DecidableEq, Inhabited

namespace Invocation

/-- How the program is called. -/
def usage : String :=
  "Usage: mwj [-v]... run [--source FILE] [--no-analyse] PROGRAM\n" ++
  "       mwj [-v]... check [--source FILE] [--dump] PROGRAM"

/-- The number of letters `v` behind a dash, if there is nothing else. -/
def verbosity? (word : String) : Option Nat :=
  match word.toList with
  | '-' :: 'v' :: rest => if rest.all (· = 'v') then some (rest.length + 1) else none
  | _ => none

/-- Takes a word that is no option: the command comes first, then the program. -/
def takeWord (i : Invocation) (word : String) : Option Invocation :=
  match i.command, i.program with
  | none, _ => some { i with command := some word }
  | some _, none => some { i with program := some word }
  | some _, some _ => none

/-- Reads words on top of those read so far. -/
def read (i : Invocation) : List String → Option Invocation
  | [] => some i
  | "--verbose" :: rest => read { i with verbosity := i.verbosity + 1 } rest
  | "--no-analyse" :: rest => read { i with noAnalyse := true } rest
  | "--dump" :: rest => read { i with dump := true } rest
  | "--source" :: path :: rest => read { i with source := some path } rest
  | word :: rest =>
    match verbosity? word with
    | some n => read { i with verbosity := i.verbosity + n } rest
    | none =>
      if word.toList.head? = some '-' then none
      else
        match i.takeWord word with
        | some i => read i rest
        | none => none

/-- The command and the path of its program; a command takes only its own options. -/
def target? (i : Invocation) : Option (Command × String) :=
  match i.command, i.program with
  | some "run", some path => if i.dump then none else some (.run i.noAnalyse, path)
  | some "check", some path => if i.noAnalyse then none else some (.check i.dump, path)
  | _, _ => none

end Invocation

end Middleweight
