/-
  TexEngine.Yaml.Tokens

  Dividing a settings file into tokens.  Collections in block style begin where the
  indentation grows and end where it shrinks.  Whether a value is the key of a
  mapping is only known at the colon behind it, so tokens are kept in a queue, in
  which the mark of a key can still be put in front of the value.  Only as much of
  the file is read as is needed to know three tokens; what follows a document may
  be anything.
-/
import TexEngine.Yaml.Block
import TexEngine.Yaml.Plain
import TexEngine.Yaml.Property
import TexEngine.Yaml.Quoted

namespace TexEngine.Yaml

/-- A value that could be a key: the number of its first token, and its position.
    It is `required` to be one if nothing else can stand in this column. -/
structure KeyCandidate where
  number : Nat
  required : Bool
  index : Nat
  line : Nat
  column : Nat
  deriving DecidableEq, Repr, Inhabited

/-- The state of the division.  `keys` holds the candidate of every level of
    brackets, innermost first, and finally that of the block style; a new one is
    accepted only if `keyAllowed`.  `indents` are the indentations of the
    collections around the current one, and `taken` is the number of tokens that
    left the queue. -/
structure TokenSource where
  cursor : Cursor
  indent : Int := -1
  indents : List Int := []
  keys : List (Option KeyCandidate) := [none]
  keyAllowed : Bool := true
  queue : List Token := [.streamStart]
  taken : Nat := 0
  deriving Repr, Inhabited

/-- Steps of the division; a file that is malformed ends them. -/
abbrev Scan := StateT TokenSource Option

namespace TokenSource

/-- The beginning of a file.  A byte order mark that is still there takes up a
    column, but is no part of a token. -/
def ofContents (text : Contents) : TokenSource :=
  let start : Cursor :=
    { rest := text.chars, intact := text.intact, total := text.chars.length }
  { cursor := if start.rest.head? == some '\uFEFF' then start.advance 1 else start }

/-- The position is between brackets. -/
def inFlow (s : TokenSource) : Bool :=
  s.keys.length > 1

/-- The number that the next token gets. -/
def nextNumber (s : TokenSource) : Nat :=
  s.taken + s.queue.length

end TokenSource

namespace Scan

/-! ## Positions -/

/-- The current position. -/
def cursor : Scan Cursor := do
  return (← get).cursor

/-- Changes the position. -/
def setCursor (c : Cursor) : Scan Unit :=
  modify fun s => { s with cursor := c }

/-- Reads something with a function on positions. -/
def reading {α : Type} (f : Cursor → Option (α × Cursor)) : Scan α := do
  match f (← cursor) with
  | some (a, c) =>
    setCursor c
    return a
  | none => failure

/-- Demands that the next `n` characters are known. -/
def need (n : Nat) : Scan Unit := do
  unless (← cursor).knows n do failure

/-- Moves over `n` characters. -/
def skip (n : Nat) : Scan Unit := do
  setCursor ((← cursor).advance n)

/-! ## The queue -/

/-- Adds a token. -/
def emit (t : Token) : Scan Unit :=
  modify fun s => { s with queue := s.queue ++ [t] }

/-- Adds a token in front of the one with the given number. -/
def emitAt (number : Nat) (t : Token) : Scan Unit :=
  modify fun s =>
    let n := number - s.taken
    { s with queue := s.queue.take n ++ t :: s.queue.drop n }

/-- Tells whether a value may follow as a key. -/
def allowKey (allowed : Bool) : Scan Unit :=
  modify fun s => { s with keyAllowed := allowed }

/-! ## Candidates for keys -/

/-- How far the colon may be from the beginning of a key, in characters. -/
def keyReach : Nat := 1024

/-- A colon at the current position would make the candidate a key.  It is an error
    if a required key is left behind. -/
def isLive (k : KeyCandidate) : Scan Bool := do
  let c ← cursor
  if k.line < c.line || k.index + keyReach < c.index then
    if k.required then failure
    return false
  else return true

/-- Replaces the candidate of the innermost level. -/
def setKey (k : Option KeyCandidate) : Scan Unit :=
  modify fun s => { s with keys := k :: s.keys.drop 1 }

/-- The candidate of the innermost level. -/
def key? : Scan (Option KeyCandidate) := do
  return ((← get).keys.head?).join

/-- Drops the candidate of the innermost level, which must not be required. -/
def dropKey : Scan Unit := do
  match ← key? with
  | some k =>
    if k.required then failure
    setKey none
  | none => return

/-- Makes the value that starts here a candidate, if one is accepted. -/
def saveKey : Scan Unit := do
  let s ← get
  if s.keyAllowed then
    dropKey
    setKey (some
      { number := s.nextNumber
        required := !s.inFlow && s.indent == s.cursor.column
        index := s.cursor.index
        line := s.cursor.line
        column := s.cursor.column })

/-! ## Indentation -/

/-- Begins a collection in block style if the column is larger than the
    indentation; `emitStart` adds its first token. -/
def indentTo (column : Nat) (emitStart : Scan Unit) : Scan Unit := do
  let s ← get
  if !s.inFlow && s.indent < column then
    set { s with indents := s.indent :: s.indents, indent := (column : Int) }
    emitStart

/-- The collections that end at a column, and what is around them. -/
def unindented (column : Int) (indent : Int) : List Int → Nat × Int × List Int
  | [] => (0, indent, [])
  | outer :: rest =>
    if indent > column then
      let (n, indent, rest) := unindented column outer rest
      (n + 1, indent, rest)
    else (0, indent, outer :: rest)

/-- Ends all collections in block style with more indentation. -/
def unindentTo (column : Int) : Scan Unit := do
  let s ← get
  unless s.inFlow do
    let (n, indent, indents) := unindented column s.indent s.indents
    set { s with indent, indents, queue := s.queue ++ List.replicate n Token.blockEnd }

/-- Ends all collections in block style, at the end of a document. -/
def endBlocks : Scan Unit := do
  unindentTo (-1)
  dropKey
  allowKey false

/-! ## Spacing and comments -/

/-- How far a comment is looked for, in characters. -/
def commentReach : Nat := 512

/-- The number of characters in front of the next comment, if only line feeds,
    carriage returns and blanks precede it. -/
def nextComment? (c : Cursor) : Option Nat :=
  match c.rest with
  | ch :: rest =>
    if ch == '\n' || ch == '\r' then
      let gap := (rest.take (commentReach - 1)).takeWhile fun ch =>
        isBlank ch || ch == '\n' || ch == '\r'
      if (rest.drop gap.length).head? == some '#' && gap.length + 1 < commentReach then
        some (gap.length + 1)
      else none
    else none
  | [] => none

/-- Moves over `n` characters and line breaks. -/
def advanceOver : Nat → Nat → Cursor → Cursor
  | 0, _, c => c
  | fuel + 1, index, c =>
    if index ≤ c.index then c
    else
      match c.rest with
      | [] => c
      | ch :: _ => advanceOver fuel index (if isBreak ch then c.nextLine else c.advance 1)

/-- Moves to the end of the line of a comment, and over the comments on the lines
    that follow, whatever their indentation. -/
def skipComments : Nat → Cursor → Cursor
  | 0, c => c
  | fuel + 1, c =>
    let c := c.toLineEnd
    match nextComment? c with
    | some n => skipComments fuel (advanceOver (n + 1) (c.index + n) c)
    | none => c

/-- Moves to the next token.  In block style a tab must not stand where a key could
    begin. -/
def skipSpacing : Nat → Scan Unit
  | 0 => return
  | fuel + 1 => do
    let s ← get
    let tabs := s.inFlow || !s.keyAllowed
    let c := (s.cursor.advanceWhile fun ch => ch == ' ' || (tabs && ch == '\t')).2
    let c := if c.rest.head? == some '#' then skipComments fuel c else c
    setCursor c
    need 1
    match c.rest with
    | ch :: _ =>
      if isBreak ch then
        setCursor c.nextLine
        -- A new line is where a key of a block mapping can begin.
        unless s.inFlow do allowKey true
        skipSpacing fuel
    | [] => return

/-- Moves over a comment on the line of the token that was just read. -/
def skipLineComment : Scan Unit := do
  let c ← cursor
  if c.newlines = 0 then
    let gap := ((c.rest.take commentReach).takeWhile isBlank).length
    if gap < commentReach then
      need (gap + 1)
      if (c.rest.drop gap).head? == some '#' then
        setCursor c.toLineEnd
        need 1

/-! ## Tokens -/

/-- Reads an indicator. -/
def indicator (t : Token) (length : Nat) : Scan Unit := do
  skip length
  emit t

/-- Reads a bracket that begins a collection. -/
def openFlow (t : Token) : Scan Unit := do
  saveKey
  modify fun s => { s with keys := none :: s.keys }
  allowKey true
  indicator t 1

/-- Reads a bracket that ends a collection. -/
def closeFlow (t : Token) : Scan Unit := do
  dropKey
  modify fun s => if s.inFlow then { s with keys := s.keys.drop 1 } else s
  allowKey false
  indicator t 1

/-- Begins a part of a collection in block style at the current column. -/
def beginBlockPart (start : Token) : Scan Unit := do
  let s ← get
  unless s.inFlow do
    unless s.keyAllowed do failure
    indentTo s.cursor.column (emit start)

/-- Reads the mark of an item of a sequence. -/
def blockEntry : Scan Unit := do
  beginBlockPart .blockSequence
  dropKey
  allowKey true
  indicator .blockEntry 1

/-- Reads the mark of a key. -/
def explicitKey : Scan Unit := do
  beginBlockPart .blockMapping
  dropKey
  allowKey (!(← get).inFlow)
  indicator .key 1

/-- Reads the mark between key and value.  If there is a candidate, it becomes a
    key. -/
def valueMark : Scan Unit := do
  let last ← key?
  let live ← (last.map isLive).getD (pure false)
  match last, live with
  | some k, true =>
    emitAt k.number .key
    indentTo k.column (emitAt k.number .blockMapping)
    setKey none
    allowKey false
  | _, _ =>
    beginBlockPart .blockMapping
    allowKey (!(← get).inFlow)
  indicator .value 1

/-- Reads something that could be a key. -/
def candidate (f : Cursor → Option (Token × Cursor)) : Scan Unit := do
  saveKey
  allowKey false
  emit (← reading f)

/-- Reads a plain scalar.  If it ends in front of a new line, a key may follow. -/
def plain : Scan Unit := do
  saveKey
  allowKey false
  let s ← get
  match Plain.read s.inFlow (s.indent + 1).toNat s.cursor with
  | some r =>
    setCursor r.next
    emit (.scalar (String.ofList r.text) true)
    if r.folded then allowKey true
  | none => failure

/-- Reads a scalar in block style. -/
def blockScalar (literal : Bool) : Scan Unit := do
  dropKey
  allowKey true
  let text ← reading (Block.read literal (← get).indent)
  emit (.scalar (String.ofList text) false)

/-- A quoted scalar as a token. -/
def quoted (quote : Char) (c : Cursor) : Option (Token × Cursor) :=
  (Quoted.read quote c).map fun (text, c) => (.scalar (String.ofList text) false, c)

/-- An anchor as a token. -/
def anchor (c : Cursor) : Option (Token × Cursor) :=
  (Property.name c).map fun (name, c) => (.anchor name, c)

/-- The name of another value as a token. -/
def reference (c : Cursor) : Option (Token × Cursor) :=
  (Property.name c).map fun (name, c) => (.reference name, c)

/-- A plain scalar can start with the character, whatever follows. -/
def startsPlain (ch : Char) : Bool :=
  !(isSpacing ch || "-?:,[]\x7b\x7d#&*!|>'\"%@\x60".toList.contains ch)

/-- Reads the token that begins with a character. -/
def inner (ch : Char) (rest : List Char) : Scan Unit := do
  let inFlow := (← get).inFlow
  if ch == '[' then openFlow .flowSequence
  else if ch == '\x7b' then openFlow .flowMapping
  else if ch == ']' then closeFlow .flowSequenceEnd
  else if ch == '\x7d' then closeFlow .flowMappingEnd
  else if ch == ',' then
    dropKey
    allowKey true
    indicator .flowEntry 1
  else if ch == '-' && endsWord rest then blockEntry
  else if ch == '?' && (inFlow || endsWord rest) then explicitKey
  else if ch == ':' && (inFlow || endsWord rest) then valueMark
  else if ch == '*' then candidate reference
  else if ch == '&' then candidate anchor
  else if ch == '!' then candidate Property.tag
  else if ch == '|' && !inFlow then blockScalar true
  else if ch == '>' && !inFlow then blockScalar false
  else if ch == '\'' || ch == '"' then candidate (quoted ch)
  else if startsPlain ch || ch == '-' || ch == '?' || ch == ':' then plain
  else failure

/-- The end of the file.  It can be reached any number of times. -/
def streamEnd : Scan Unit := do
  let c ← cursor
  if c.column != 0 then setCursor { c with column := 0, line := c.line + 1 }
  endBlocks
  emit .streamEnd

/-- Reads the mark between documents. -/
def documentMark (t : Token) : Scan Unit := do
  endBlocks
  indicator t 3

/-- Reads a directive. -/
def directive : Scan Unit := do
  endBlocks
  emit (← reading Property.directive)

/-- Reads the next token, and perhaps tokens that follow from its indentation. -/
def fetch : Scan Unit := do
  skipSpacing ((← cursor).total + 1)
  let c ← cursor
  unindentTo c.column
  need 4
  match c.rest with
  | [] => streamEnd
  | ch :: rest =>
    if c.column == 0 && ch == '%' then directive
    else if c.atMarker '-' then documentMark .documentStart
    else if c.atMarker '.' then documentMark .documentEnd
    else
      inner ch rest
      unless (← get).queue.getLast? == some .blockEntry do skipLineComment

/-- The first token of the queue could still become a key. -/
def undecided : Scan Bool := do
  let s ← get
  match s.keys.find? fun k => k.any (·.number == s.taken) with
  | some (some k) => isLive k
  | _ => return false

/-- Reads tokens until the first one of the queue is settled, and two more are
    known. -/
def fill : Nat → Scan Unit
  | 0 => return
  | fuel + 1 => do
    let short := (← get).queue.length < 3
    let more ← if short then pure true else undecided
    if more then
      fetch
      fill fuel

/-- The next token. -/
def peek : Scan Token := do
  fill ((← cursor).total + 4)
  match (← get).queue with
  | t :: _ => return t
  | [] => failure

/-- Moves behind the next token. -/
def drop : Scan Unit :=
  modify fun s => { s with queue := s.queue.drop 1, taken := s.taken + 1 }

end Scan

end TexEngine.Yaml
