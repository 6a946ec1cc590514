/-
  TexEngine.Yaml.Cursor

  A position in a settings file: the characters that follow, their number, line
  and column, and how many line breaks precede it.  Carriage return with line feed,
  either of them alone, and the characters U+0085, U+2028 and U+2029 end a line.
-/
import TexEngine.Yaml.Contents

namespace TexEngine.Yaml

/-! ## Characters -/

/-- Spaces and tabs separate the parts of a line. -/
def isBlank (c : Char) : Bool :=
  c == ' ' || c == '\t'

/-- The character ends a line. -/
def isBreak (c : Char) : Bool :=
  c == '\n' || c == '\r' || c == '\u0085' || c == '\u2028' || c == '\u2029'

/-- The character separates words. -/
def isSpacing (c : Char) : Bool :=
  isBlank c || isBreak c

/-- The character of an anchor or of the name of a directive. -/
def isNameChar (c : Char) : Bool :=
  c.isAlphanum || c == '_' || c == '-'

/-- What a line break is in a scalar: the separators of lines and paragraphs stand
    for themselves, all others are line feeds. -/
def breakText (c : Char) : Char :=
  if c == '\u2028' || c == '\u2029' then c else '\n'

/-- No character, or one that separates words. -/
def endsWord : List Char → Bool
  | [] => true
  | c :: _ => isSpacing c

/-! ## Positions -/

/-- A position in a file.  Nothing can be said about what follows `rest` unless the
    file is `intact`.  `newlines` counts the line breaks behind the last character
    that was no blank, and `total` bounds the number of characters. -/
structure Cursor where
  rest : List Char
  intact : Bool
  index : Nat := 0
  line : Nat := 0
  column : Nat := 0
  newlines : Nat := 0
  total : Nat
  deriving DecidableEq, Repr, Inhabited

namespace Cursor

/-- The next `n` characters are known, or that there are fewer of them. -/
def knows (c : Cursor) (n : Nat) : Bool :=
  c.intact || (c.rest.take n).length == n

/-- Moves over `n` characters, none of which is a line break. -/
def advance (c : Cursor) (n : Nat) : Cursor :=
  let run := c.rest.take n
  { c with
    rest := c.rest.drop n
    index := c.index + run.length
    column := c.column + run.length
    newlines := if run.all isBlank then c.newlines else 0 }

/-- Moves over a line break. -/
def nextLine (c : Cursor) : Cursor :=
  let n :=
    match c.rest with
    | '\r' :: '\n' :: _ => 2
    | _ => 1
  { c with
    rest := c.rest.drop n
    index := c.index + n
    line := c.line + 1
    column := 0
    newlines := c.newlines + 1 }

/-- Moves over all characters of a kind that contains no line breaks. -/
def advanceWhile (c : Cursor) (p : Char → Bool) : List Char × Cursor :=
  let run := c.rest.takeWhile p
  (run, c.advance run.length)

/-- Moves to the end of the line. -/
def toLineEnd (c : Cursor) : Cursor :=
  (c.advanceWhile fun ch => !isBreak ch).2

/-- Moves behind the line, on which only a comment may follow. -/
def behindLine (c : Cursor) : Option Cursor :=
  let c := (c.advanceWhile isBlank).2
  let c := if c.rest.head? == some '#' then c.toLineEnd else c
  match c.rest with
  | [] => if c.intact then some c else none
  | ch :: _ => if isBreak ch then some c.nextLine else none

/-- A line that begins with three times the character, and then a separator, begins
    or ends a document. -/
def atMarker (c : Cursor) (mark : Char) : Bool :=
  c.column == 0 && c.rest.take 3 == [mark, mark, mark] && endsWord (c.rest.drop 3)

/-- A document begins or ends here. -/
def atDocumentMarker (c : Cursor) : Bool :=
  c.atMarker '-' || c.atMarker '.'

end Cursor

/-! ## Spacing

Between two words of a scalar, spacing on one line is kept.  Otherwise blanks around line
breaks are dropped, a single line break becomes a space, and of several line breaks the first
is dropped. -/

/-- Spacing that was read: the blanks in front of the first line break, this line
    break, and those that follow.  The gap is `folded` once a line has ended. -/
structure Gap where
  folded : Bool := false
  blanks : List Char := []
  first : List Char := []
  more : List Char := []
  deriving DecidableEq, Repr, Inhabited

namespace Gap

/-- What the spacing contributes to the scalar. -/
def text (g : Gap) : List Char :=
  if !g.folded then g.blanks
  else if g.first == ['\n'] then (if g.more.isEmpty then [' '] else g.more)
  else g.first ++ g.more

/-- Adds a blank. -/
def addBlank (g : Gap) (c : Char) : Gap :=
  if g.folded then g else { g with blanks := g.blanks ++ [c] }

/-- Adds a line break. -/
def addBreak (g : Gap) (c : Char) : Gap :=
  if g.folded then { g with more := g.more ++ [breakText c] }
  else { g with folded := true, first := [breakText c] }

/-- Reads spacing.  At the beginning of a line a tab must not stand in front of
    column `indent`. -/
def read (indent : Nat) : Nat → Gap → Cursor → Option (Gap × Cursor)
  | 0, g, c => some (g, c)
  | fuel + 1, g, c =>
    match c.rest with
    | [] => some (g, c)
    | ch :: _ =>
      if isBlank ch then
        if g.folded && ch == '\t' && c.column < indent then none
        else read indent fuel (g.addBlank ch) (c.advance 1)
      else if isBreak ch then read indent fuel (g.addBreak ch) c.nextLine
      else some (g, c)

end Gap

end TexEngine.Yaml
