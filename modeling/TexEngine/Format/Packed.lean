/-
  TexEngine.Format.Packed

  Values as lists of text fields.  A value packs itself into fields and is read
  back from the front of a list of fields; lists are preceded by their length.
  In a file every field is a line, with line ends and backslashes escaped.
-/
import Std.Data.TreeMap.Basic
import TexEngine.Token.List

namespace TexEngine

/-! ## Fields as text -/

namespace Fields

/-- Escapes what would end a line. -/
def escape : List Char → List Char
  | [] => []
  | '\\' :: cs => '\\' :: '\\' :: escape cs
  | '\n' :: cs => '\\' :: 'n' :: escape cs
  | c :: cs => c :: escape cs

/-- Reads a field up to the end of its line, and gives what follows. -/
def unescape : List Char → Option (List Char × List Char)
  | [] => none
  | '\n' :: cs => some ([], cs)
  | '\\' :: '\\' :: cs => (unescape cs).map fun (f, rest) => ('\\' :: f, rest)
  | '\\' :: 'n' :: cs => (unescape cs).map fun (f, rest) => ('\n' :: f, rest)
  | '\\' :: _ => none
  | c :: cs => (unescape cs).map fun (f, rest) => (c :: f, rest)

/-- The lines of a list of fields. -/
def text (fields : List String) : String :=
  String.join (fields.map fun f => String.ofList (escape f.toList ++ ['\n']))

/-- Splits lines into at most `n` fields. -/
def splitFields : Nat → List Char → Option (List String)
  | _, [] => some []
  | 0, _ => none
  | n + 1, cs =>
    match unescape cs with
    | some (f, rest) => (splitFields n rest).map (String.ofList f :: ·)
    | none => none

/-- The fields of a text; every field ends with a line end. -/
def ofText? (s : String) : Option (List String) :=
  splitFields s.length s.toList

end Fields

/-! ## Packing -/

/-- Reading values from the front of a list of fields. -/
abbrev Unpack := StateT (List String) Option

/-- Types whose values can be written as fields. -/
class Packed (α : Type) where
  /-- The fields of a value. -/
  pack : α → List String
  /-- Reads a value back. -/
  unpack : Unpack α

export Packed (pack unpack)

namespace Packed

/-- Takes the first field. -/
def field : Unpack String := fun fields =>
  match fields with
  | f :: rest => some (f, rest)
  | [] => none

/-- Reads `n` values. -/
def many {α : Type} [Packed α] : Nat → Unpack (List α)
  | 0 => pure []
  | n + 1 => do
    let a ← unpack
    return a :: (← many n)

instance : Packed String where
  pack s := [s]
  unpack := field

instance : Packed Int where
  pack n := [toString n]
  unpack := do (← field).toInt?

instance : Packed Nat where
  pack n := [toString n]
  unpack := do (← field).toNat?

instance : Packed Int64 where
  pack n := pack n.toInt
  unpack := do return Int64.ofInt (← unpack)

instance : Packed Bool where
  pack b := [if b then "yes" else "no"]
  unpack := do return (← field) == "yes"

instance {α : Type} [Packed α] : Packed (List α) where
  pack xs := pack xs.length ++ xs.flatMap pack
  unpack := do many (← unpack)

instance {α β : Type} [Packed α] [Packed β] : Packed (α × β) where
  pack p := pack p.1 ++ pack p.2
  unpack := do
    let a ← unpack
    return (a, ← unpack)

instance {κ α : Type} {cmp : κ → κ → Ordering} [Packed κ] [Packed α] :
    Packed (Std.TreeMap κ α cmp) where
  pack m := pack m.toList
  unpack := do return Std.TreeMap.ofList (← unpack) cmp

/-! ## Tokens -/

instance : Packed Catcode where
  pack c := pack c.toInt
  unpack := do return Catcode.ofInt (← unpack)

instance : Packed Token where
  pack
    | .char c k => "character" :: pack c ++ pack k
    | .cs name => ["name", name]
    | .frozenRelax => ["relax"]
    | .param n => "parameter" :: pack n
  unpack := do
    match ← field with
    | "character" => return .char (← unpack) (← unpack)
    | "name" => return .cs (← field)
    | "relax" => return .frozenRelax
    | "parameter" => return .param (← unpack)
    | _ => failure

end Packed

end TexEngine
