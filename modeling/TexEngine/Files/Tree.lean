/-
  TexEngine.Files.Tree

  The files that a job can see: directories and files by their full name, the
  working directory, and a clock that gives every change a later time.  All
  operations are pure; those that change something return the new tree.
-/
import Std.Data.TreeMap.Basic
import TexEngine.Error
import TexEngine.Files.Path
import TexEngine.Text.Utf8

namespace TexEngine

/-- A file.  `content` is its text, `size` its length in bytes, and `modified` the
    time of the last change in nanoseconds.  The bytes are only given if they are
    not known to be those of the text. -/
structure FileData where
  content : String
  size : Nat
  modified : Int
  raw : Option (List UInt8) := none
  deriving DecidableEq, Repr, Inhabited

/-- The file with the given bytes. -/
def FileData.ofBytes (bytes : List UInt8) (modified : Int) : FileData :=
  { content := Text.Utf8.decode bytes, size := bytes.length, modified, raw := some bytes }

/-- The bytes of a file. -/
def FileData.bytes (d : FileData) : List UInt8 :=
  d.raw.getD (Text.Utf8.encode d.content)

/-- What a full name stands for. -/
inductive FileEntry where
  | directory
  | file (data : FileData)
  deriving DecidableEq, Repr, Inhabited

/-- Why an operation on a file fails. -/
inductive FileReason where
  | notExist
  | alreadyExists
  | notDirectory
  | isDirectory
  | notEmpty
  | nameTooLong
  | invalidName
  deriving DecidableEq, Repr, Inhabited

namespace FileReason

/-- The text of a reason. -/
def text : FileReason → String
  | notExist => "no such file or directory"
  | alreadyExists => "file exists"
  | notDirectory => "not a directory"
  | isDirectory => "is a directory"
  | notEmpty => "directory not empty"
  | nameTooLong => "file name too long"
  | invalidName => "invalid argument"

/-- The fault of an operation on a file. -/
def fault (r : FileReason) (operation path : String) : Fault :=
  let message := operation ++ " " ++ path ++ ": " ++ r.text
  match r with
  | notExist => .missingFile message
  | _ => .failure message

end FileReason

/-- Directories and files by full name; the root directory is not listed. -/
structure FileTree where
  cwd : String := "/"
  entries : Std.TreeMap String FileEntry := ∅
  clock : Int := 0

namespace FileTree

/-! ## Looking up -/

/-- What stands under a full name. -/
def found? (t : FileTree) (full : String) : Option FileEntry :=
  if full == "/" then some .directory else t.entries[full]?

/-- The longest name of a directory entry, in bytes. -/
def maxName : Nat := 255

/-- The length from which on a name is refused, in bytes. -/
def maxPath : Nat := 4096

/-- Follows the components of a name from the directory `here`. -/
def follow (t : FileTree) (here : String) :
    List String → Except FileReason (String × Option FileEntry)
  | [] => .ok (here, t.found? here)
  | c :: cs =>
    match t.found? here with
    | none => .error .notExist
    | some (.file _) => .error .notDirectory
    | some .directory =>
      if c == ".." then t.follow (Path.dir here) cs
      else if c.utf8ByteSize > maxName then .error .nameTooLong
      else t.follow (Path.child here c) cs

/-- The name can be looked up. -/
def check (path : String) : Except FileReason Unit :=
  if path.isEmpty then .error .notExist
  else if path.toList.contains (Char.ofNat 0) then .error .invalidName
  else if path.utf8ByteSize ≥ maxPath then .error .nameTooLong
  else .ok ()

/-- The directory that a name is seen from. -/
def start (t : FileTree) (path : String) : String :=
  if Path.isAbsolute path then "/" else t.cwd

/-- The full name that a name leads to, and what stands there. -/
def locate (t : FileTree) (path : String) : Except FileReason (String × Option FileEntry) := do
  check path
  let (full, found) ← t.follow (t.start path) (Path.components path)
  match found with
  | some (.file _) =>
    if path.toList.getLast? == some '/' then throw .notDirectory
    return (full, found)
  | _ => return (full, found)

/-- What stands under a name; it is an error if nothing does. -/
def stat (t : FileTree) (path : String) : Except FileReason FileEntry := do
  match ← t.locate path with
  | (_, some e) => return e
  | (_, none) => throw .notExist

/-- The names in a directory, in order. -/
def list (t : FileTree) (full : String) : List (String × FileEntry) :=
  t.entries.toList.filterMap fun (name, e) =>
    let base := Path.base name
    if name == Path.child full base then some (base, e) else none

/-! ## Changing -/

/-- The current time; afterwards it is later. -/
def tick (t : FileTree) : Int × FileTree :=
  (t.clock, { t with clock := t.clock + 1 })

/-- Creates a directory.  The name is seen from the directory `here`, where its
    last components lead to; the result has the full name of the directory. -/
def mkdir (t : FileTree) (path here : String) (last : List String) :
    Except FileReason (FileTree × String) := do
  check path
  match ← t.follow here last with
  | (full, none) => return ({ t with entries := t.entries.insert full .directory }, full)
  | (full, some .directory) => return (t, full)
  | (_, some (.file _)) => throw .alreadyExists

/-- Creates a directory and everything above it, which is found by taking parts off
    the name.  The result has the full name of the directory. -/
def mkdirFrom (t : FileTree) : Nat → String → Except Fault (FileTree × String)
  | 0, path => .error (FileReason.notExist.fault "mkdir" path)
  | fuel + 1, path =>
    match t.locate path with
    | .ok (full, some .directory) => .ok (t, full)
    | .ok (_, some (.file _)) => .error (FileReason.notDirectory.fault "mkdir" path)
    | _ => do
      let (t, here, done) ←
        match Path.parent? path with
        | some parent => do
          let (t, here) ← t.mkdirFrom fuel parent
          pure (t, here, parent)
        | none => pure (t, t.start path, "")
      let last := (Path.components path).drop (Path.components done).length
      match t.mkdir path here last with
      | .ok r => return r
      | .error reason => throw (reason.fault "mkdir" path)

/-- Creates a directory and everything above it. -/
def mkdirAll (t : FileTree) (path : String) : Except Fault FileTree :=
  (t.mkdirFrom (path.length + 1) path).map Prod.fst

/-- Writes a file into an existing directory, at the current time. -/
def write (t : FileTree) (path content : String) (size : Nat) : Except FileReason FileTree := do
  let (full, found) ← t.locate path
  if found matches some .directory then throw .isDirectory
  let (now, t) := t.tick
  return { t with entries := t.entries.insert full (.file { content, size, modified := now }) }

/-- Removes a file or an empty directory. -/
def remove (t : FileTree) (path : String) : Except FileReason FileTree := do
  match ← t.locate path with
  | (_, none) => throw .notExist
  | (full, some .directory) =>
    unless (t.list full).isEmpty do throw .notEmpty
    return { t with entries := t.entries.erase full }
  | (full, some (.file _)) => return { t with entries := t.entries.erase full }

/-- Adds a file, with all directories above it.  A directory is not replaced. -/
def addFile (t : FileTree) (path : String) (data : FileData) : FileTree :=
  let full := Path.absolute t.cwd path
  let t := (t.mkdirAll (Path.dir full)).toOption.getD t
  match t.found? full with
  | some .directory => t
  | _ => { t with entries := t.entries.insert full (.file data) }

/-- Adds a text file that was changed just now. -/
def addText (t : FileTree) (path content : String) : FileTree :=
  let (now, t) := t.tick
  t.addFile path { content, size := content.utf8ByteSize, modified := now }

/-- Adds a file with the given bytes that was changed just now. -/
def addBytes (t : FileTree) (path : String) (bytes : List UInt8) : FileTree :=
  let (now, t) := t.tick
  t.addFile path (.ofBytes bytes now)

/-- The full name of what was below `old` and is now below `new`. -/
def moved (old new name : String) : String :=
  if name == old then new
  else if name.startsWith (old ++ "/") then
    new ++ String.ofList (name.toList.drop old.length)
  else name

/-- Gives a file or a directory another name.  A file with the new name is replaced
    by a file, but nothing else is. -/
def rename (t : FileTree) (old new : String) : Except FileReason FileTree := do
  match ← t.locate old with
  | (_, none) => throw .notExist
  | (source, some e) =>
    let (target, found) ← t.locate new
    match e, found with
    | _, some .directory => throw .alreadyExists
    | .directory, some (.file _) => throw .notDirectory
    | .file _, some (.file _) =>
      return { t with entries := (t.entries.erase source).insert target e }
    | _, none =>
      -- A directory cannot be moved to a place below itself.
      if target.startsWith (source ++ "/") then throw .invalidName
      -- What is below a directory moves with it.
      let entries := t.entries.toList.map fun (name, e) => (moved source target name, e)
      return { t with entries := Std.TreeMap.ofList entries }

/-- Sets the time of the last change of a file. -/
def setModified (t : FileTree) (path : String) (time : Int) : Except FileReason FileTree := do
  match ← t.locate path with
  | (full, some (.file data)) =>
    return { t with entries := t.entries.insert full (.file { data with modified := time }) }
  | (_, some .directory) => return t
  | (_, none) => throw .notExist

end FileTree

end TexEngine
