/-!
# Paths

Paths are texts of segments with slashes between them. An empty segment and a `.` behind another one
say nothing, so they are passed over when the last part of a path is taken off.
-/

namespace Middleweight.Path

/-- The segments between slashes. -/
def splitSlashes : List Char → List (List Char)
  | [] => [[]]
  | c :: cs =>
    if c = '/' then [] :: splitSlashes cs
    else
      match splitSlashes cs with
      | [] => [[c]]
      | s :: rest => (c :: s) :: rest

theorem splitSlashes_ne_nil (cs : List Char) : splitSlashes cs ≠ [] := by
  cases cs with
  | nil => simp [splitSlashes]
  | cons c cs =>
    unfold splitSlashes
    split
    · simp
    · split <;> simp

def segments (path : String) : List String := (splitSlashes path.toList).map String.ofList

def isAbsolute (path : String) : Bool := path.toList.head? == some '/'

/-- Drops the segments that say nothing from the end of a path, which is given backwards. -/
def dropIdle (leadingDotCounts : Bool) : List String → List String
  | [] => []
  | s :: rest =>
    if s = "" || (s = "." && !(leadingDotCounts && rest.isEmpty)) then
      dropIdle leadingDotCounts rest
    else s :: rest

/-- The segments without the last one that says something; none if there is no such segment. -/
def parentSegments? (leadingDotCounts : Bool) (segments : List String) : Option (List String) :=
  match dropIdle leadingDotCounts segments.reverse with
  | [] => none
  | _ :: rest => some (dropIdle leadingDotCounts rest).reverse

/-- The path without its last part. -/
def parent? (path : String) : Option String :=
  if isAbsolute path then
    (parentSegments? false ((segments path).drop 1)).map fun segs =>
      "/" ++ String.intercalate "/" segs
  else (parentSegments? true (segments path)).map (String.intercalate "/")

/-- The paths from a path upwards, at most a given number of them. -/
def upwards : Nat → String → List String
  | 0, path => [path]
  | n + 1, path =>
    match parent? path with
    | some up => path :: upwards n up
    | none => [path]

/-- A path and all paths above it. Every step drops a segment, so their number bounds the walk. -/
def ancestors (path : String) : List String := upwards (segments path).length path

/-- A path below a directory; an absolute one stays as it is. -/
def join (dir path : String) : String :=
  if isAbsolute path || dir = "" then path
  else if dir.toList.getLast? = some '/' then dir ++ path
  else dir ++ "/" ++ path

end Middleweight.Path
