/-
  TexEngine.Files.Change

  The difference between two file trees, as a list of changes that turn the one
  into the other.  Directories are made before files are written into them and
  removed after the files in them.
-/
import TexEngine.Files.Tree

namespace TexEngine

/-- A change of the file system. -/
inductive FileChange where
  | makeDir (path : String)
  | write (path content : String)
  | removeFile (path : String)
  | removeDir (path : String)
  deriving DecidableEq, Repr

namespace FileTree

/-- The directories of `new` that `old` does not have. -/
def newDirs (old new : FileTree) : List FileChange :=
  new.entries.toList.filterMap fun (path, e) =>
    match e, old.entries[path]? with
    | .directory, none => some (.makeDir path)
    | _, _ => none

/-- The files of `new` whose contents differ from those in `old`. -/
def newFiles (old new : FileTree) : List FileChange :=
  new.entries.toList.filterMap fun (path, e) =>
    match e with
    | .directory => none
    | .file data =>
      if old.entries[path]? == some e then none else some (.write path data.content)

/-- The files of `old` that `new` does not have. -/
def lostFiles (old new : FileTree) : List FileChange :=
  old.entries.toList.filterMap fun (path, e) =>
    match e, new.entries[path]? with
    | .file _, none => some (.removeFile path)
    | _, _ => none

/-- The directories of `old` that `new` does not have, innermost first. -/
def lostDirs (old new : FileTree) : List FileChange :=
  (old.entries.toList.filterMap fun (path, e) =>
    match e, new.entries[path]? with
    | .directory, none => some (.removeDir path)
    | _, _ => none).reverse

/-- The changes that turn `old` into `new`. -/
def changes (old new : FileTree) : List FileChange :=
  newDirs old new ++ newFiles old new ++ lostFiles old new ++ lostDirs old new

end FileTree

end TexEngine
