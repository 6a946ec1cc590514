/-
  TexEngine.Config.Load

  Reading settings from a file.  Settings that the file does not mention, or for
  which it gives no value, keep their defaults; unknown and repeated names and
  values of a wrong type are refused.
-/
import TexEngine.Config.Basic
import TexEngine.Files.Tree
import TexEngine.Yaml.Document

namespace TexEngine

/-- Why the contents of a file are no settings. -/
inductive Malformed where
  | noDocument
  | unreadable (fault : Fault)
  | notSettings
  deriving DecidableEq, Repr

/-- The text of a reason. -/
def Malformed.text : Malformed → String
  | noDocument => "EOF"
  | unreadable fault => "yaml: input error: " ++ fault.message
  | notSettings => "yaml: cannot read the settings"

/-- Why settings cannot be read. -/
inductive ConfigFault where
  | emptyPath
  | file (fault : Fault)
  | malformed (path : String) (cause : Malformed)
  | invalid (path : String) (problem : ConfigProblem)
  deriving DecidableEq, Repr

/-- The text of a reason. -/
def ConfigFault.message : ConfigFault → String
  | emptyPath => "config: empty path"
  | file fault => fault.message
  | malformed path cause => "config: parse " ++ path ++ ": " ++ cause.text
  | invalid path problem => "config: " ++ path ++ ": " ++ problem.text

namespace Config

open Yaml (Scalar Sense)

/-! ## Values -/

/-- Replaces a value by that of a scalar, unless the scalar denotes nothing. -/
def scalarValue {α : Type} (old : α) (read : Scalar → Sense → Option α) :
    Yaml.Node → Option α
  | .scalar s =>
    match s.sense? with
    | none => none
    | some .null => some old
    | some d => read s d
  | _ => none

/-- A text setting: every scalar is a text. -/
def textValue (old : String) : Yaml.Node → Option String :=
  scalarValue old fun s d => some (s.textAs d)

/-- An integer setting. -/
def intValue (old : Int64) : Yaml.Node → Option Int64 :=
  scalarValue old fun _ d => d.int64?

/-- A truth value. -/
def boolValue (old : Bool) : Yaml.Node → Option Bool :=
  scalarValue old fun _ d => d.bool?

/-- A setting with named parts; a part without a value gets `empty`. -/
def tableValue {α : Type} (empty : α) (read : α → Yaml.Node → Option α) :
    Yaml.Node → Option (Std.TreeMap String α)
  | .scalar s => if s.isNull then some ∅ else none
  | .mapping own inherited => do
    let parts ← Yaml.Node.settings? own inherited
    parts.foldlM (fun m (k, v) => (read empty v).map (m.insert k ·)) ∅
  | _ => none

/-! ## Settings -/

/-- Changes the setting with the given name. -/
def set (c : Config) (name : String) (v : Yaml.Node) : Option Config :=
  match name with
  | "jobname" => (textValue c.jobName v).map fun x => { c with jobName := x }
  | "basedir" => (textValue c.baseDir v).map fun x => { c with baseDir := x }
  | "catcodes" => (textValue c.catcodes v).map fun x => { c with catcodes := x }
  | "unicode_letters" => (boolValue c.unicodeLetters v).map fun x => { c with unicodeLetters := x }
  | "endlinechar" => (intValue c.endLineChar v).map fun x => { c with endLineChar := x }
  | "max_expansion_depth" =>
    (intValue c.maxExpansionDepth v).map fun x => { c with maxExpansionDepth := x }
  | "max_pushback" => (intValue c.maxPushback v).map fun x => { c with maxPushback := x }
  | "max_input_depth" => (intValue c.maxInputDepth v).map fun x => { c with maxInputDepth := x }
  | "mag" => (intValue c.mag v).map fun x => { c with mag := x }
  | "format_cache" => (textValue c.formatCache v).map fun x => { c with formatCache := x }
  | "format" => (textValue c.format v).map fun x => { c with format := x }
  | "trace" => (tableValue "" textValue v).map fun x => { c with trace := x }
  | "counts" => (tableValue 0 intValue v).map fun x => { c with counts := x }
  | _ => none

/-- The settings in a file. -/
def ofNode? : Yaml.Node → Option Config
  | .scalar s => if s.isNull then some {} else none
  | .mapping own inherited => do
    let parts ← Yaml.Node.settings? own inherited
    parts.foldlM (fun (c : Config) (k, v) => c.set k v) {}
  | _ => none

/-- The settings in a file with the given bytes. -/
def ofBytes (bytes : List UInt8) : Except Malformed Config :=
  match Yaml.parse? bytes with
  | none => .error .notSettings
  | some none => .error .noDocument
  | some (some node) =>
    match ofNode? node with
    | some c => .ok c
    | none => .error .notSettings

/-- Reads a file with settings.  A relative base directory is seen from the
    directory of the file. -/
def load (files : FileTree) (path : String) : Except ConfigFault Config := do
  if path.isEmpty then throw .emptyPath
  let full := Path.absolute files.cwd path
  match files.stat full with
  | .error reason => throw (.file (reason.fault "open" full))
  | .ok .directory =>
    throw (.malformed full (.unreadable (FileReason.isDirectory.fault "read" full)))
  | .ok (.file data) =>
    match ofBytes data.bytes with
    | .error cause => throw (.malformed full cause)
    | .ok c =>
      match c.problem? with
      | some problem => throw (.invalid full problem)
      | none =>
        if c.baseDir.isEmpty || Path.isAbsolute c.baseDir then return c
        else return { c with baseDir := Path.join (Path.dir full) c.baseDir }

end Config

end TexEngine
