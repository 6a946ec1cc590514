/-
  TexEngine.Main

  The command line program.  The program itself is a function of the files that
  it sees; here these files are loaded, its result is carried out, and its
  messages are printed.  The program is run again as long as it looks for files
  that were not loaded yet.
-/
import TexEngine.Cli.Program
import TexEngine.Files.Change

namespace TexEngine.Cli

/-- More steps than any job takes. -/
def stepBudget : Nat := 0x1000000000000000

/-- The files that were loaded; `known` are the names that were looked for. -/
structure Loaded where
  tree : FileTree
  known : List String := []

/-- Adds a file as it is on disk.  The clock is kept later than all files. -/
def Loaded.addFile (l : Loaded) (path : String) : IO Loaded := do
  let onDisk := (← IO.currentDir) / path
  let info ← onDisk.metadata
  let bytes ← IO.FS.readBinFile onDisk
  let modified := info.modified.sec * 1000000000 + info.modified.nsec.toNat
  let tree := l.tree.addFile path (.ofBytes bytes.toList modified)
  return { l with tree := { tree with clock := max tree.clock (modified + 1) } }

/-- Adds what is known under a name, if anything: a file, or a directory with the
    files in it. -/
def Loaded.look (l : Loaded) (path : String) : IO Loaded := do
  let l := { l with known := path :: l.known }
  let onDisk := (← IO.currentDir) / path
  if ← onDisk.isDir then
    let l := { l with tree := (l.tree.mkdirAll path).toOption.getD l.tree }
    let entries ← onDisk.readDir
    entries.foldlM (fun l e => do
      let name := Path.join path e.fileName
      if ← e.path.isDir then
        return { l with tree := (l.tree.mkdirAll name).toOption.getD l.tree }
      else l.addFile name) l
  else if ← onDisk.pathExists then l.addFile path
  else return l

/-- Runs the program until it finds all files it looks for. -/
partial def settle (formats cache home : String) (args : List String) (l : Loaded) :
    IO (Loaded × Report) := do
  let r := run stepBudget { files := l.tree, formats, cache, home } args
  let missing := r.sought.toList.eraseDups.filter fun p => !l.known.contains p
  if missing.isEmpty then return (l, r)
  settle formats cache home args (← missing.foldlM Loaded.look l)

/-- Carries out a change. -/
def carryOut : FileChange → IO Unit
  | .makeDir path => IO.FS.createDirAll path
  | .write path content => IO.FS.writeFile path content
  | .removeFile path => IO.FS.removeFile path
  | .removeDir path => IO.FS.removeDir path

/-- The value of an environment variable; empty if it is not set. -/
def variableOf (name : String) : IO String :=
  return (← IO.getEnv name).getD ""

/-- Runs the program and carries out what it wants done. -/
def start (args : List String) : IO UInt32 := do
  let here := (← IO.currentDir).toString
  let tree : FileTree := { cwd := here }
  let (l, r) ← settle (← variableOf "TEXMACRO_FORMATS") (← variableOf "XDG_CACHE_HOME")
    (← variableOf "HOME") args { tree := (tree.mkdirAll here).toOption.getD tree }
  (FileTree.changes l.tree r.files).forM carryOut
  r.log.forM IO.eprintln
  IO.print r.output
  return UInt32.ofNat r.exit

end TexEngine.Cli

/-- The entry point. -/
def main (args : List String) : IO UInt32 :=
  TexEngine.Cli.start args
