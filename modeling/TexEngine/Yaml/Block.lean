/-
  TexEngine.Yaml.Block

  Scalars whose lines stand below an indicator, with more indentation than the
  lines around them.  Behind "|" line breaks are kept, behind ">" single ones
  become spaces; a sign tells what happens to the line breaks at the end.
-/
import TexEngine.Yaml.Cursor

namespace TexEngine.Yaml.Block

/-! ## The first line -/

/-- What happens to line breaks at the end: one is kept, none, or all. -/
inductive Chomping where
  | clip
  | strip
  | keep
  deriving DecidableEq, Repr

/-- The indicators behind "|" and ">"; an indentation of 0 is to be found out. -/
structure Header where
  chomping : Chomping := .clip
  indent : Nat := 0
  deriving DecidableEq, Repr

/-- The chomping that a sign asks for. -/
def sign? : List Char → Option Chomping
  | '+' :: _ => some .keep
  | '-' :: _ => some .strip
  | _ => none

/-- The indentation that a digit asks for; it must not be 0. -/
def digit? : List Char → Option (Option Nat)
  | c :: _ => if c == '0' then none else some (if c.isDigit then some (c.toNat - 48) else none)
  | [] => some none

/-- Reads the sign and the digit, in either order. -/
def header (c : Cursor) : Option (Header × Cursor) :=
  match sign? c.rest with
  | some chomping => do
    let c := c.advance 1
    match ← digit? c.rest with
    | some indent => return ({ chomping, indent }, c.advance 1)
    | none => return ({ chomping }, c)
  | none => do
    match ← digit? c.rest with
    | none => return ({}, c)
    | some indent =>
      let c := c.advance 1
      match sign? c.rest with
      | some chomping => return ({ chomping, indent }, c.advance 1)
      | none => return ({ indent }, c)

/-! ## The lines -/

/-- Moves over empty lines and the indentation of the line that follows.  The
    result tells the largest indentation and the line breaks.  An indentation of 0
    is not known yet. -/
def emptyLines (indent : Nat) :
    Nat → Nat → List Char → Cursor → Option (Nat × List Char × Cursor)
  | 0, widest, breaks, c => some (widest, breaks, c)
  | fuel + 1, widest, breaks, c =>
    -- As long as the indentation is not known, all blanks count for it.
    let room := if indent = 0 then c.rest else c.rest.take (indent - c.column)
    let c := c.advance (room.takeWhile (· == ' ')).length
    let widest := max widest c.column
    match c.rest with
    | [] => if c.intact then some (widest, breaks, c) else none
    | ch :: _ =>
      if ch == '\t' && (indent = 0 || c.column < indent) then none
      else if isBreak ch then
        emptyLines indent fuel widest (breaks ++ [breakText ch]) c.nextLine
      else some (widest, breaks, c)

/-- The lines that were read: their text, which is reversed, the line break behind
    the last one and those that follow, and whether the last one begins with a
    blank. -/
structure Lines where
  text : List Char := []
  first : List Char := []
  more : List Char := []
  blank : Bool := false
  deriving DecidableEq, Repr

/-- Adds a line.  A line break between two lines without leading blanks is folded
    if the scalar is not literal. -/
def Lines.add (literal : Bool) (s : Lines) (line : List Char) : Lines :=
  let blank := (line.head?.map isBlank).getD false
  let joint :=
    if !literal && !s.blank && !blank && s.first == ['\n'] then
      (if s.more.isEmpty then [' '] else [])
    else s.first
  { text := line.reverse ++ ((joint ++ s.more).reverse ++ s.text), blank }

/-- The text of the scalar. -/
def Lines.finish (chomping : Chomping) (s : Lines) : List Char :=
  match chomping with
  | .strip => s.text.reverse
  | .clip => s.text.reverse ++ s.first
  | .keep => s.text.reverse ++ s.first ++ s.more

/-- Reads all lines with the given indentation. -/
def readLines (literal : Bool) (indent : Nat) : Nat → Lines → Cursor → Option (Lines × Cursor)
  | 0, s, c => some (s, c)
  | fuel + 1, s, c =>
    if c.column != indent || c.rest.isEmpty then some (s, c)
    else do
      let (line, c) := c.advanceWhile fun ch => !isBreak ch
      if !c.knows 2 then none
      else
        let s := s.add literal line
        let (first, c) : List Char × Cursor :=
          match c.rest with
          | [] => ([], c)
          | ch :: _ => ([breakText ch], c.nextLine)
        let (_, more, c) ← emptyLines indent fuel 0 [] c
        readLines literal indent fuel { s with first, more } c

/-- Reads a scalar in a collection of the given indentation, which is -1 at the
    outermost level. -/
def read (literal : Bool) (outer : Int) (c : Cursor) : Option (List Char × Cursor) := do
  let fuel := c.total + 1
  let (h, c) ← header (c.advance 1)
  let c ← c.behindLine
  let indent := if h.indent = 0 then 0 else (max outer 0).toNat + h.indent
  let (widest, more, c) ← emptyLines indent fuel 0 [] c
  let indent := if indent = 0 then max widest (max (outer + 1) 1).toNat else indent
  let (s, c) ← readLines literal indent fuel { more } c
  return (s.finish h.chomping, c)

end TexEngine.Yaml.Block
