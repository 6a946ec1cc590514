/-
  TexEngine.Yaml.Node

  The values of a settings file: scalars, sequences and mappings.  A mapping can
  take over entries of other mappings with the key "<<"; its own entries win.
-/
import TexEngine.Yaml.Scalar

namespace TexEngine.Yaml

/-- A value.  The entries that a mapping takes over are listed in the order in which
    they are considered.  A mapping is unusable if a key is repeated or no scalar, or
    if it takes over what is no mapping. -/
inductive Node where
  | scalar (s : Scalar)
  | sequence (items : List Node)
  | mapping (own inherited : List (Scalar × Node))
  | unusable
  deriving Repr, Inhabited

namespace Node

/-- The missing value. -/
def null : Node :=
  .scalar { text := "" }

/-- The entries that a mapping hands down. -/
def handedDown? : Node → Option (List (Scalar × Node))
  | mapping own inherited => some (own ++ inherited)
  | _ => none

/-- The entries that are taken over from the value of "<<": a mapping, or a sequence
    of mappings. -/
def inheritedFrom? : Node → Option (List (Scalar × Node))
  | sequence items => (items.mapM handedDown?).map List.flatten
  | n => n.handedDown?

/-- The entries with scalar keys, if there are no others. -/
def entries? (pairs : List (Node × Node)) : Option (List (Scalar × Node)) :=
  pairs.mapM fun (k, v) =>
    match k with
    | scalar s => some (s, v)
    | _ => none

/-- The mapping with the given entries.  No key may occur twice. -/
def ofEntries? (entries : List (Scalar × Node)) : Option Node := do
  let names := entries.map fun e => e.1.text
  if names.eraseDups.length == names.length then
    let (merges, own) := entries.partition fun e => e.1.isMerge
    return .mapping own (← merges.mapM fun e => e.2.inheritedFrom?).flatten
  else none

/-- The mapping with the given keys and values. -/
def ofPairs (pairs : List (Node × Node)) : Node :=
  ((entries? pairs).bind ofEntries?).getD .unusable

/-! ## Names -/

/-- The names of entries; those without a name are left out. -/
def named? (entries : List (Scalar × Node)) : Option (List (String × Node)) :=
  entries.filterMapM fun (k, v) =>
    k.sense?.map fun d => if d == .null then none else some (k.textAs d, v)

/-- The names of own entries that denote texts: these are never replaced by entries
    that are taken over. -/
def textKeys (own : List (Scalar × Node)) : List String :=
  own.filterMap fun e =>
    match e.1.sense? with
    | some (.text t) => some t
    | _ => none

/-- The first entry with every name that is not in `taken`. -/
def firstOnes (taken : List String) : List (String × Node) → List (String × Node)
  | [] => []
  | (k, v) :: rest =>
    if taken.contains k then firstOnes taken rest else (k, v) :: firstOnes (k :: taken) rest

/-- The entries of a mapping by name: its own, and then those that it takes over. -/
def settings? (own inherited : List (Scalar × Node)) : Option (List (String × Node)) := do
  return (← named? own) ++ firstOnes (textKeys own) (← named? inherited)

end Node

end TexEngine.Yaml
