/-
  TexEngine.Input.Reader

  Readers give the lines of a text or a file one after the other, as bytes.  A
  line ends at "\n" or "\r\n"; the last line need not be terminated, and a text
  that ends with a terminator has no further (empty) line.  A single carriage
  return at the end of an unterminated last line is dropped as well.

  Files are found relative to a base directory; a name without an extension also
  finds the file with the extension ".tex".
-/
import TexEngine.Files.Tree

namespace TexEngine

/-- Why no line can be read. -/
inductive ReadEnd where
  | finished
  | failed (message : String)
  deriving DecidableEq, Repr, Inhabited

/-- What is left to be read: bytes, or something that cannot be read. -/
inductive ReaderBody where
  | data (unread : List UInt8)
  | unreadable (message : String)
  deriving DecidableEq, Repr, Inhabited

namespace ReaderBody

/-- The number of bytes that are left. -/
def length : ReaderBody → Nat
  | data unread => unread.length
  | unreadable _ => 0

/-- Reads through the next byte that is `delim`.  Where there is none, reading ends
    behind the bytes that are left. -/
def readThrough (delim : UInt8) : ReaderBody → List UInt8 × Option ReadEnd × ReaderBody
  | data unread =>
    match unread.dropWhile (· != delim) with
    | [] => (unread, some .finished, .data [])
    | b :: rest => (unread.takeWhile (· != delim) ++ [b], none, .data rest)
  | unreadable message => ([], some (.failed message), .unreadable message)

/-- No byte is lost. -/
theorem length_readThrough (delim : UInt8) (body : ReaderBody) :
    (body.readThrough delim).1.length + (body.readThrough delim).2.2.length = body.length := by
  cases body with
  | unreadable message => rfl
  | data unread =>
    have hsplit := List.takeWhile_append_dropWhile (p := (· != delim)) (l := unread)
    have hlength := congrArg List.length hsplit
    rw [List.length_append] at hlength
    dsimp only [readThrough]
    cases hrest : unread.dropWhile (· != delim) with
    | nil => rfl
    | cons b rest =>
      rw [hrest, List.length_cons] at hlength
      simp only [List.length_append, List.length_singleton, length]
      omega

/-- Reading that does not come to the end gives at least one byte. -/
theorem ne_nil_of_readThrough {delim : UInt8} {body : ReaderBody}
    (h : (body.readThrough delim).2.1 = none) : (body.readThrough delim).1 ≠ [] := by
  cases body with
  | unreadable message => contradiction
  | data unread =>
    dsimp only [readThrough] at h ⊢
    cases hrest : unread.dropWhile (· != delim) with
    | nil =>
      rw [hrest] at h
      contradiction
    | cons b rest => exact List.concat_ne_nil b _

end ReaderBody

/-- A source of lines.  `path` is empty for a text that is no file, and `line` is
    the number of the line that was read last.  `ended` is set when no line could
    be read; then there will never be one again. -/
structure Reader where
  name : String
  path : String := ""
  line : Nat := 0
  body : ReaderBody
  ended : Option ReadEnd := none
  deriving DecidableEq, Repr, Inhabited

namespace Reader

/-- Reads bytes. -/
def ofBytes (bytes : List UInt8) (name : String) : Reader :=
  { name, body := .data bytes }

/-- Reads a text. -/
def ofText (text name : String) : Reader :=
  ofBytes (Text.Utf8.encode text) name

/-- The reader reads a file. -/
def isFile (r : Reader) : Bool :=
  !r.path.isEmpty

/-- Removes a byte from the end of a line, if it is there. -/
def trimEnd (b : UInt8) (line : List UInt8) : List UInt8 :=
  if line.getLast? = some b then line.dropLast else line

/-- Reads the next line, without its terminator. -/
def readLine (r : Reader) : Except ReadEnd (List UInt8) × Reader :=
  match r.ended with
  | some e => (.error e, r)
  | none =>
    let (line, end?, body) := r.body.readThrough 10
    let next := { r with line := r.line + 1, body }
    match end? with
    | none => (.ok (trimEnd 13 (trimEnd 10 line)), next)
    | some e =>
      -- A last line without a terminator is a line, unless it is empty.
      if e ≠ .finished ∨ line = [] then (.error e, { r with body, ended := some e })
      else (.ok (trimEnd 13 (trimEnd 10 line)), next)

/-- Every line that is read leaves fewer bytes to be read. -/
theorem length_lt_of_readLine {r next : Reader} {bytes : List UInt8}
    (h : r.readLine = (.ok bytes, next)) : next.body.length < r.body.length := by
  have hlength := ReaderBody.length_readThrough 10 r.body
  have hne := @ReaderBody.ne_nil_of_readThrough 10 r.body
  unfold readLine at h
  split at h
  · nomatch (Prod.mk.inj h).1
  · generalize r.body.readThrough 10 = read at h hlength hne
    obtain ⟨line, end?, body⟩ := read
    have hshorter : line ≠ [] → body.length < r.body.length := fun hline => by
      have := List.length_pos_iff.mpr hline
      dsimp only at hlength
      omega
    dsimp only at h
    split at h
    · obtain ⟨-, rfl⟩ := Prod.mk.inj h
      exact hshorter (hne rfl)
    · split at h
      · nomatch (Prod.mk.inj h).1
      · rename_i hline
        obtain ⟨-, rfl⟩ := Prod.mk.inj h
        exact hshorter fun hnil => hline (.inr hnil)

/-- Reads all lines, with their numbers; the second part is what ends them. -/
def readAll (r : Reader) : List (Nat × List Char) × ReadEnd :=
  match _h : r.readLine with
  | (.ok bytes, next) =>
    let (lines, last) := readAll next
    ((next.line, Text.Utf8.decodeFrom 0 bytes) :: lines, last)
  | (.error last, _) => ([], last)
termination_by r.body.length
decreasing_by exact length_lt_of_readLine _h

/-! ## Files -/

/-- The extension of input files. -/
def defaultExtension : String :=
  ".tex"

/-- The name of an input file, seen from the base directory. -/
def inputPath (baseDir fileName : String) : String :=
  if !baseDir.isEmpty && !Path.isAbsolute fileName then Path.join baseDir fileName
  else fileName

/-- Finds an input file. -/
def find (files : FileTree) (baseDir fileName : String) : Except Fault String :=
  let path := inputPath baseDir fileName
  match files.stat path with
  | .ok _ => .ok path
  | .error reason =>
    let alternative := path ++ defaultExtension
    if reason == .notExist && !Path.hasExtension path && (files.stat alternative).isOk then
      .ok alternative
    else .error (reason.fault "stat" path)

/-- Opens an input file.  A directory can be opened, but not read. -/
def openFile (files : FileTree) (baseDir fileName : String) : Except Fault Reader := do
  let path ← find files baseDir fileName
  match files.stat path with
  | .ok (.file data) =>
    return { name := Path.base path, path, body := .data data.bytes }
  | .ok .directory =>
    return { name := Path.base path, path,
             body := .unreadable (FileReason.isDirectory.fault "read" path).message }
  | .error reason => throw (reason.fault "open" path)

end Reader

end TexEngine
