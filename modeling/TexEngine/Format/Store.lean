/-
  TexEngine.Format.Store

  A directory of formats, one file for every job name.  The store knows the size
  of every file and when it was used last; when it is closed, files that were
  not used since it was opened are removed, oldest first, until the directory is
  small enough.  Sizes are machine words, and so are their sums.
-/
import TexEngine.Decimal.ByteSize
import TexEngine.Digest.Shake
import TexEngine.Files.Tree
import TexEngine.Format.Codec
import TexEngine.Text.Base64

namespace TexEngine

/-- What the store remembers of a file. -/
structure StoredFormat where
  size : Int64
  used : Int
  deriving DecidableEq, Repr, Inhabited

/-- A store.  The files are known by the names that `key` gives to jobs. -/
structure FormatStore where
  dir : String
  files : Std.TreeMap String StoredFormat := ∅
  opened : Int

/-- Why a format cannot be stored or loaded. -/
inductive FormatFault where
  | file (fault : Fault)
  | noJobName
  | unreadable (name : String) (fault : Fault)
  | codec (name : String) (reason : CodecFault)
  | mismatch (name job : String)
  deriving DecidableEq, Repr

namespace FormatFault

/-- The text of a reason. -/
def message : FormatFault → String
  | file fault => fault.message
  | noJobName => "cannot store a format without a job name"
  | unreadable name fault => "format " ++ Text.Quoted.text name ++ ": " ++ fault.message
  | codec name reason => "format " ++ Text.Quoted.text name ++ ": " ++ reason.text
  | mismatch name job =>
    "format " ++ Text.Quoted.text name ++ ": format file does not match its name (found job " ++
      Text.Quoted.text job ++ ")"

end FormatFault

namespace FormatStore

/-! ## Names -/

/-- The extension of stored formats. -/
def fileExtension : String := ".fmt"

/-- The extension of files that were not finished. -/
def temporaryExtension : String := ".tmp"

/-- The name of the file for a job, without its extension.  The version is part
    of what is hashed, so that formats of different versions can coexist. -/
def key (job : String) : String :=
  let message := (toString Image.currentVersion).toUTF8.toList ++ 0 :: job.toUTF8.toList
  Text.Base64.encode (Shake.digest message 15)

/-- The file with the given key. -/
def path (s : FormatStore) (key : String) : String :=
  Path.join s.dir (key ++ fileExtension)

/-- The user's cache directory: the given one, or a place in the home directory. -/
def cacheDir (cache home : String) : Except Fault String :=
  if !cache.isEmpty then
    if Path.isAbsolute cache then .ok cache
    else .error (.failure "path in $XDG_CACHE_HOME is relative")
  else if !home.isEmpty then .ok (home ++ "/.cache")
  else .error (.failure "neither $XDG_CACHE_HOME nor $HOME are defined")

/-- The directory of the store if none is configured: the given one, or a place
    below the user's cache directory. -/
def defaultDir (formats cache home : String) : Except Fault String :=
  if !formats.isEmpty then .ok formats
  else (cacheDir cache home).map fun dir => Path.join dir "de.seehuhn.texmacro/formats"

/-! ## Opening -/

/-- The beginning of every message of a store. -/
def label (dir : String) : String :=
  "formats " ++ dir ++ ": "

/-- The size of files together.  The sum is not checked for overflow. -/
def totalSize (files : List StoredFormat) : Int64 :=
  files.foldr (fun f n => f.size + n) 0

/-- How many files there are, and how large they are together. -/
def summary (files : List StoredFormat) : String :=
  ByteSize.text (totalSize files) ++ " in " ++ toString files.length ++ " files"

/-- What becomes of an entry of the directory. -/
inductive Listed where
  | leftover
  | ignored
  | format (key : String) (info : StoredFormat)

/-- Looks at an entry of the directory. -/
def classify (name : String) : FileEntry → Listed
  | .directory => if name.endsWith temporaryExtension then .leftover else .ignored
  | .file data =>
    if name.endsWith temporaryExtension then .leftover
    else if name.endsWith fileExtension then
      .format (String.ofList (name.toList.take (name.length - fileExtension.length)))
        { size := .ofNat data.size, used := data.modified }
    else .ignored

/-- The result of an operation that can write messages and change files. -/
structure Outcome (α : Type) where
  value : α
  tree : FileTree
  log : List String := []

/-- Adds an entry of the directory to the store; leftovers are removed. -/
def record (dir : String) (o : Outcome FormatStore) (item : String × FileEntry) :
    Outcome FormatStore :=
  match classify item.1 item.2 with
  | .leftover => { o with tree := (o.tree.remove (Path.join dir item.1)).toOption.getD o.tree }
  | .ignored => { o with log := o.log ++ [label dir ++ "ignoring " ++ Text.Quoted.text item.1] }
  | .format key info => { o with value := { o.value with files := o.value.files.insert key info } }

/-- Opens the store in a directory, which is created if necessary. -/
def openIn (tree : FileTree) (dir : String) : Except Fault (Outcome FormatStore) := do
  let tree ← tree.mkdirAll dir
  let items := tree.list (Path.absolute tree.cwd dir)
  let (now, tree) := tree.tick
  let o := items.foldl (record dir) { value := { dir, opened := now }, tree }
  return { o with log := o.log ++ [label dir ++ summary o.value.files.values] }

/-! ## Storing and loading -/

/-- Stores an image under its job name; an older one is replaced. -/
def put (s : FormatStore) (tree : FileTree) (img : Image) :
    Except FormatFault (FormatStore × FileTree) := do
  if img.job.isEmpty then throw .noJobName
  let key := key img.job
  let content := img.encode
  let size := content.utf8ByteSize
  match tree.write (s.path key) content size with
  | .error reason => throw (.file (reason.fault "open" (s.path key)))
  | .ok tree =>
    let (now, tree) := tree.tick
    return ({ s with files := s.files.insert key { size := .ofNat size, used := now } }, tree)

/-- Loads the format of a job. -/
def get (s : FormatStore) (tree : FileTree) (name : String) :
    Except FormatFault (Image × FormatStore × FileTree) := do
  let key := key name
  match tree.stat (s.path key) with
  | .error reason => throw (.file (reason.fault "open" (s.path key)))
  | .ok .directory =>
    throw (.unreadable name (FileReason.isDirectory.fault "read" (s.path key)))
  | .ok (.file data) =>
    match Image.decode data.content with
    | .error reason => throw (.codec name reason)
    | .ok img =>
      if img.job != name || !img.identified then throw (.mismatch name img.job)
      -- The file is left as it is: only the store knows about this use.
      let (now, tree) := tree.tick
      let touch (info : StoredFormat) : StoredFormat := { info with used := now }
      return (img, { s with files := s.files.modify key touch }, tree)

/-! ## Closing -/

/-- The files to be removed, and those that stay: files are removed from the front
    as long as `total`, the size of all of them, exceeds the limit and they were
    not used since the store was opened.  A negative limit removes all files.  The
    limit is only compared with the total, so that it may be any number. -/
def prune (opened limit : Int) (total : Int64) :
    List (String × StoredFormat) → List (String × StoredFormat) × List (String × StoredFormat)
  | [] => ([], [])
  | f :: rest =>
    if total.toInt ≤ limit ∨ (0 ≤ limit ∧ opened ≤ f.2.used) then ([], f :: rest)
    else
      let (removed, kept) := prune opened limit (total - f.2.size) rest
      (f :: removed, kept)

/-- All files, in an order of their last use.  In which order files come that were
    used at the same time is not said. -/
structure IsByUse (s : FormatStore) (files : List (String × StoredFormat)) : Prop where
  perm : files.Perm s.files.toList
  sorted : files.Pairwise fun f g => f.2.used ≤ g.2.used

/-- The order in which files that were used at the same time are ordered by key. -/
def byUse (s : FormatStore) : List (String × StoredFormat) :=
  s.files.toList.mergeSort fun a b => a.2.used ≤ b.2.used

/-- Removes files one after the other, and gives the first fault. -/
def removeAll (s : FormatStore) :
    FileTree → List (String × StoredFormat) → Option Fault × FileTree
  | tree, [] => (none, tree)
  | tree, f :: rest =>
    match tree.remove (s.path f.1) with
    | .ok tree => s.removeAll tree rest
    | .error reason =>
      (some (reason.fault "remove" (s.path f.1)), (s.removeAll tree rest).2)

/-- Closes the store, with the files in the given order.  At most `limit` bytes of
    formats that were not used remain; a negative limit removes everything.  A file
    that cannot be removed is reported, but does not keep the others from being
    removed. -/
def closeAlong (s : FormatStore) (files : List (String × StoredFormat)) (tree : FileTree)
    (limit : Int) : Outcome (Option Fault) :=
  let (removed, _) := prune s.opened limit (totalSize (files.map Prod.snd)) files
  let (fault, tree) := s.removeAll tree removed
  let tree := if limit < 0 then (tree.remove s.dir).toOption.getD tree else tree
  { value := fault, tree,
    log := if removed.isEmpty then []
      else [label s.dir ++ "removed " ++ summary (removed.map Prod.snd)] }

/-- Closes the store. -/
def close (s : FormatStore) (tree : FileTree) (limit : Int) : Outcome (Option Fault) :=
  s.closeAlong s.byUse tree limit

end FormatStore

end TexEngine
