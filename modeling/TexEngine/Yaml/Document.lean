/-
  TexEngine.Yaml.Document

  The value in a settings file: the first document, built from its tokens.  A value
  can be given a name by an anchor and be used again under this name.
-/
import TexEngine.Yaml.Node
import TexEngine.Yaml.Tokens

namespace TexEngine.Yaml

/-- The state while a document is read: the division into tokens, the values with
    names, latest first, and the handles of tags.  A value that is not complete
    yet is missing. -/
structure Reading where
  tokens : TokenSource
  anchors : List (String × Option Node) := []
  handles : List (String × String) := []

/-- Steps of reading a document; a malformed file ends them. -/
abbrev Parse := StateT Reading Option

namespace Parse

/-! ## Tokens -/

/-- Performs a step of the division into tokens. -/
def scan {α : Type} (act : Scan α) : Parse α := do
  let r ← get
  match act r.tokens with
  | some (a, tokens) =>
    set { r with tokens }
    return a
  | none => failure

/-- The next token. -/
def peek : Parse Token :=
  scan Scan.peek

/-- Moves to the token behind the next one, which is the result. -/
def next : Parse Token := do
  scan Scan.drop
  peek

/-! ## Names -/

/-- Gives a complete value a name. -/
def define (name : Option String) (n : Node) : Parse Unit :=
  modify fun r => { r with anchors := (name.map fun s => (s, some n)).toList ++ r.anchors }

/-- The value with the given name.  If it is not complete, it would contain
    itself. -/
def lookup (name : String) : Parse Node := do
  match (← get).anchors.lookup name with
  | some n => return n.getD .unusable
  | none => failure

/-- Reads a collection.  It gets its name when it begins, and the name its value
    when it ends. -/
def collection (name : Option String) (read : Parse Node) : Parse Node := do
  let outer := (← get).anchors.length
  modify fun r => { r with anchors := (name.map fun s => (s, none)).toList ++ r.anchors }
  let n ← read
  modify fun r =>
    match name with
    | some s => { r with anchors := r.anchors.set (r.anchors.length - outer - 1) (s, some n) }
    | none => r
  return n

/-! ## Tags -/

/-- The beginning of all tags that are known to every reader. -/
def commonTags : List Char :=
  "tag:yaml.org,2002:".toList

/-- The handles of a document without directives. -/
def commonHandles : List (String × String) :=
  [("!", "!"), ("!!", String.ofList commonTags)]

/-- The short form of a tag. -/
def shortTag (tag : String) : String :=
  let cs := tag.toList
  if commonTags.isPrefixOf cs then "!!" ++ String.ofList (cs.drop commonTags.length) else tag

/-- The tag that is written with a handle and a suffix.  A lone exclamation mark is
    no tag. -/
def tagOf (handle suffix : String) : Parse (Option String) := do
  if handle.isEmpty then return if suffix == "!" then none else some (shortTag suffix)
  else
    match (← get).handles.lookup handle with
    | some expansion => return some (shortTag (expansion ++ suffix))
    | none => failure

/-- What stands in front of a value. -/
structure Properties where
  anchor : Option String := none
  tag : Option String := none
  given : Bool := false

/-- Reads an anchor and a tag, in either order. -/
def properties : Parse Properties := do
  match ← peek with
  | .anchor name =>
    match ← next with
    | .tag handle suffix =>
      let _ ← next
      return { anchor := some name, tag := ← tagOf handle suffix, given := true }
    | _ => return { anchor := some name, given := true }
  | .tag handle suffix =>
    match ← next with
    | .anchor name =>
      let _ ← next
      return { anchor := some name, tag := ← tagOf handle suffix, given := true }
    | _ => return { tag := ← tagOf handle suffix, given := true }
  | _ => return {}

/-! ## Values -/

/-- A scalar, which gets a name. -/
def scalar (p : Properties) (text : String) (quoted : Bool) : Parse Node := do
  let n := Node.scalar { text, quoted, tag := p.tag }
  define p.anchor n
  return n

/-- Reads the comma between two items.  The result is the token that follows. -/
def flowSeparator (first : Bool) (stop : Token) : Parse Token := do
  let t ← peek
  if first || t == stop then return t
  else if t == .flowEntry then next
  else failure

mutual

/-- Reads a value.  Collections in block style are accepted if `block`, and a
    sequence without indentation of its own if `indentless`. -/
def node (fuel : Nat) (block indentless : Bool) : Parse Node :=
  match fuel with
  | 0 => failure
  | fuel + 1 => do
    -- A name of another value stands alone; it takes no properties.
    if let .reference name := ← peek then
      let n ← lookup name
      scan Scan.drop
      return n
    let p ← properties
    let t ← peek
    match t with
    | .blockEntry =>
      if indentless then
        collection p.anchor (do return .sequence (← indentlessItems fuel))
      -- Properties without a value belong to an empty one.
      else if p.given then scalar p "" false
      else failure
    | .scalar text plain =>
      scan Scan.drop
      scalar p text !plain
    | .flowSequence =>
      scan Scan.drop
      collection p.anchor (do return .sequence (← flowItems fuel true))
    | .flowMapping =>
      scan Scan.drop
      collection p.anchor (do return .ofPairs (← flowPairs fuel true))
    | _ =>
      if block && t == .blockSequence then
        scan Scan.drop
        collection p.anchor (do return .sequence (← blockItems fuel))
      else if block && t == .blockMapping then
        scan Scan.drop
        collection p.anchor (do return .ofPairs (← blockPairs fuel))
      else if p.given then scalar p "" false
      else failure

/-- Reads the items of a sequence in block style. -/
def blockItems (fuel : Nat) : Parse (List Node) :=
  match fuel with
  | 0 => failure
  | fuel + 1 => do
    match ← peek with
    | .blockEntry =>
      let t ← next
      let n ← if t == .blockEntry || t == .blockEnd then pure Node.null else node fuel true false
      return n :: (← blockItems fuel)
    | .blockEnd =>
      scan Scan.drop
      return []
    | _ => failure

/-- Reads the items of a sequence that has the indentation of the mapping around
    it. -/
def indentlessItems (fuel : Nat) : Parse (List Node) :=
  match fuel with
  | 0 => failure
  | fuel + 1 => do
    match ← peek with
    | .blockEntry =>
      let t ← next
      let n ←
        if t == .blockEntry || t.endsBlockPart then pure Node.null else node fuel true false
      return n :: (← indentlessItems fuel)
    | _ => return []

/-- Reads the entries of a mapping in block style. -/
def blockPairs (fuel : Nat) : Parse (List (Node × Node)) :=
  match fuel with
  | 0 => failure
  | fuel + 1 => do
    match ← peek with
    | .key =>
      let t ← next
      -- The key can be left out, and so can the value.
      let k ← if t.endsBlockPart then pure Node.null else node fuel true true
      let v ←
        if (← peek) == .value then do
          let t ← next
          if t.endsBlockPart then pure Node.null else node fuel true true
        else pure Node.null
      return (k, v) :: (← blockPairs fuel)
    | .blockEnd =>
      scan Scan.drop
      return []
    | _ => failure

/-- Reads the items of a sequence in brackets.  An item with a colon is a mapping
    with one entry. -/
def flowItems (fuel : Nat) (first : Bool) : Parse (List Node) :=
  match fuel with
  | 0 => failure
  | fuel + 1 => do
    let t ← flowSeparator first .flowSequenceEnd
    match t with
    | .flowSequenceEnd =>
      scan Scan.drop
      return []
    | .key =>
      let t ← next
      let k ←
        if t == .value || t == .flowEntry || t == .flowSequenceEnd then do
          scan Scan.drop
          pure Node.null
        else node fuel false false
      let v ← flowValue fuel .flowSequenceEnd
      return .ofPairs [(k, v)] :: (← flowItems fuel false)
    | _ =>
      let n ← node fuel false false
      return n :: (← flowItems fuel false)

/-- Reads the entries of a mapping in braces. -/
def flowPairs (fuel : Nat) (first : Bool) : Parse (List (Node × Node)) :=
  match fuel with
  | 0 => failure
  | fuel + 1 => do
    let t ← flowSeparator first .flowMappingEnd
    match t with
    | .flowMappingEnd =>
      scan Scan.drop
      return []
    | .key =>
      let t ← next
      let k ←
        if t == .value || t == .flowEntry || t == .flowMappingEnd then pure Node.null
        else node fuel false false
      let v ← flowValue fuel .flowMappingEnd
      return (k, v) :: (← flowPairs fuel false)
    | _ =>
      let k ← node fuel false false
      return (k, Node.null) :: (← flowPairs fuel false)

/-- Reads the value of an entry between brackets. -/
def flowValue (fuel : Nat) (stop : Token) : Parse Node :=
  match fuel with
  | 0 => failure
  | fuel + 1 => do
    if (← peek) == .value then
      let t ← next
      if t == .flowEntry || t == stop then return Node.null
      else node fuel false false
    else return Node.null

end

/-! ## Documents -/

/-- Reads directives. -/
def directives : Nat → Bool → List (String × String) → Parse (List (String × String))
  | 0, _, _ => failure
  | fuel + 1, versioned, handles => do
    match ← peek with
    | .version major minor =>
      if versioned || major != 1 || minor != 1 then failure
      scan Scan.drop
      directives fuel true handles
    | .tagHandle handle expansion =>
      if (handles.lookup handle).isSome then failure
      scan Scan.drop
      directives fuel versioned ((handle, expansion) :: handles)
    | _ => return handles

/-- Reads the first document, if there is one; what follows it must at least consist
    of tokens. -/
def document (fuel : Nat) : Parse (Option Node) := do
  let t ← next
  if t == .streamEnd then return none
  let n ←
    if t.isDirective || t == .documentStart then do
      let own ← directives fuel false []
      modify fun r => { r with handles := own ++ commonHandles }
      unless (← peek) == .documentStart do failure
      let t ← next
      if t.endsDocument then pure Node.null else node fuel true false
    else do
      modify fun r => { r with handles := commonHandles }
      node fuel true false
  let _ ← peek
  return some n

end Parse

/-- The value in a file, unless the file is malformed.  A file without contents has
    no value, but a marker starts a document. -/
def parse? (bytes : List UInt8) : Option (Option Node) :=
  let text := Contents.ofBytes bytes
  let start : Reading := { tokens := TokenSource.ofContents text }
  (Parse.document (8 * text.chars.length + 32) start).map Prod.fst

end TexEngine.Yaml
