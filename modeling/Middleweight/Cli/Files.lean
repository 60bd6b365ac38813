import Middleweight.Cli.Path

/-!
# Files

What the commands ask of a file system: whether a path is a file, and what it holds. `FileTree` is a
file system held in memory, in which directories exist by the files below them.
-/

namespace Middleweight

/-- Access to files in some monad. -/
structure Files (m : Type → Type) where
  isFile : String → m Bool
  read? : String → m (Option String)

/-- Files by the segments of their paths from the working directory. -/
structure FileTree where
  files : List (List String × String) := []
deriving Inhabited

namespace FileTree

def ofPaths (files : List (String × String)) : FileTree :=
  ⟨files.map fun (path, content) =>
    ((Path.segments path).filter fun s => s ≠ "" && s ≠ ".", content)⟩

/-- Whether segments lead to a directory: the working directory, or one above a file. -/
def isDirectory (t : FileTree) (dir : List String) : Bool :=
  dir.isEmpty || t.files.any fun f => dir.isPrefixOf f.1 && dir.length < f.1.length

@[simp] theorem isDirectory_nil (t : FileTree) : t.isDirectory [] = true := rfl

/-- Whatever stands above a file is a directory. -/
theorem isDirectory_of_mem (t : FileTree) {dir rest : List String} {content : String}
    (h : (dir ++ rest, content) ∈ t.files) (hne : rest ≠ []) : t.isDirectory dir = true := by
  have hlen : 0 < rest.length := List.length_pos_iff.mpr hne
  simp only [isDirectory, Bool.or_eq_true, List.any_eq_true]
  refine Or.inr ⟨_, h, ?_⟩
  simp [hlen]

/-- Follows segments from a directory; all but the last have to lead to directories. -/
def follow (t : FileTree) (here : List String) : List String → Option (List String)
  | [] => some here
  | s :: rest =>
    if t.isDirectory here then
      if s = "" || s = "." then t.follow here rest
      else if s = ".." then
        if here.isEmpty then none else t.follow here.dropLast rest
      else t.follow (here ++ [s]) rest
    else none

/-- The content of the file that a path leads to. -/
def content? (t : FileTree) (path : String) : Option String :=
  if Path.isAbsolute path then none
  else (t.follow [] (Path.segments path)).bind fun segments => t.files.lookup segments

/-- A tree as a file system. -/
def toFiles (t : FileTree) : Files Id where
  isFile path := (t.content? path).isSome
  read? path := t.content? path

end FileTree

end Middleweight
