/-
  TexEngine.Yaml.Property

  What can stand in front of a value or of a document: anchors, which give a value
  a name, tags, which tell its type, and directives.
-/
import TexEngine.Text.Numeral
import TexEngine.Yaml.Cursor
import TexEngine.Yaml.Token

namespace TexEngine.Yaml.Property

/-! ## Anchors -/

/-- Reads a name behind "&" or "*". -/
def name (c : Cursor) : Option (String × Cursor) :=
  let (cs, c) := (c.advance 1).advanceWhile isNameChar
  let ends := endsWord c.rest || (c.rest.head?.map "?:,]\x7d%@\x60".toList.contains).getD false
  if cs.isEmpty || !ends || !c.knows 1 then none else some (String.ofList cs, c)

/-! ## Tags -/

/-- The character may occur in a tag. -/
def isTagChar (c : Char) : Bool :=
  isNameChar c || ";/?:@&=+$,.!~*'()[]".toList.contains c

/-- Reads the characters of a tag; "%" starts the number of a byte, which must be
    the code of an ASCII character. -/
def tagCharsFrom : Nat → List Char → Cursor → Option (List Char × Cursor)
  | 0, done, c => some (done, c)
  | fuel + 1, done, c =>
    match c.rest with
    | [] => some (done, c)
    | ch :: rest =>
      if ch == '%' then
        match Text.Numeral.value? 16 (rest.take 2) with
        | some n =>
          if (rest.take 2).length = 2 ∧ n < 128 then
            tagCharsFrom fuel (done ++ [Char.ofNat n]) (c.advance 3)
          else none
        | none => none
      else if isTagChar ch then tagCharsFrom fuel (done ++ [ch]) (c.advance 1)
      else some (done, c)

/-- Reads the characters of a tag behind those in `head`; there has to be one. -/
def tagChars (head : List Char) (c : Cursor) : Option (String × Cursor) := do
  let (cs, c) ← tagCharsFrom (c.total + 1) [] c
  if cs.isEmpty && head.isEmpty then none
  else some (String.ofList (head.drop 1 ++ cs), c)

/-- Reads "!", the name characters that follow, and another "!" if there is one. -/
def handle (c : Cursor) : List Char × Cursor :=
  let (cs, c) := (c.advance 1).advanceWhile isNameChar
  if c.rest.head? == some '!' then ('!' :: cs ++ ['!'], c.advance 1) else ('!' :: cs, c)

/-- The characters form a handle: exclamation marks at both ends. -/
def isHandle (cs : List Char) : Bool :=
  cs.length > 1 && cs.getLast? == some '!'

/-- Reads a tag: "!<...>" in full, with a handle, or a local one. -/
def tagBody (c : Cursor) : Option (Token × Cursor) :=
  if c.rest.drop 1 |>.head? |>.any (· == '<') then do
    let (suffix, c) ← tagChars [] (c.advance 2)
    if c.rest.head? != some '>' then none
    else some (.tag "" suffix, c.advance 1)
  else do
    let (h, c) := handle c
    if isHandle h then
      let (suffix, c) ← tagChars [] c
      return (.tag (String.ofList h) suffix, c)
    else
      let (suffix, c) ← tagChars h c
      return (if suffix.isEmpty then .tag "" "!" else .tag "!" suffix, c)

/-- Reads a tag, which a separator has to follow. -/
def tag (c : Cursor) : Option (Token × Cursor) := do
  let (t, c) ← tagBody c
  if endsWord c.rest && c.knows 1 then some (t, c) else none

/-! ## Directives -/

/-- Reads a number of at most nine digits; only its last byte counts. -/
def versionNumber (c : Cursor) : Option (Nat × Cursor) :=
  let (ds, c) := c.advanceWhile Char.isDigit
  if ds.isEmpty || ds.length > 9 then none
  else (Text.Numeral.value? 10 ds).map fun n => (n % 256, c)

/-- Reads the two numbers of a version. -/
def version (c : Cursor) : Option (Token × Cursor) := do
  let (major, c) ← versionNumber (c.advanceWhile isBlank).2
  if c.rest.head? != some '.' then none
  else
    let (minor, c) ← versionNumber (c.advance 1)
    return (.version major minor, c)

/-- Reads a handle and what it stands for. -/
def tagHandle (c : Cursor) : Option (Token × Cursor) := do
  let c := (c.advanceWhile isBlank).2
  if c.rest.head? != some '!' then none
  else
    let (h, c) := handle c
    if h != ['!'] && !isHandle h then none
    else
      let (blanks, c) := c.advanceWhile isBlank
      if blanks.isEmpty then none
      else
        let (expansion, c) ← tagChars [] c
        if endsWord c.rest then some (.tagHandle (String.ofList h) expansion, c) else none

/-- Reads a directive with its line. -/
def directive (c : Cursor) : Option (Token × Cursor) := do
  let (cs, c) := (c.advance 1).advanceWhile isNameChar
  if !endsWord c.rest then none
  else
    let (t, c) ←
      if cs == "YAML".toList then version c
      else if cs == "TAG".toList then tagHandle c
      else none
    return (t, ← c.behindLine)

end TexEngine.Yaml.Property
