/-
  TexEngine.Yaml.Quoted

  Quoted scalars.  Between single quotes only the quote itself is special and is
  written twice; between double quotes a backslash starts an escape.  A backslash
  at the end of a line drops the line break.
-/
import TexEngine.Text.CharCode
import TexEngine.Text.Numeral
import TexEngine.Yaml.Cursor

namespace TexEngine.Yaml.Quoted

/-- A part of a scalar without spacing: its text, the number of characters it is
    written with, and whether a backslash at the end of the line follows. -/
structure Word where
  text : List Char := []
  length : Nat := 0
  continued : Bool := false
  deriving DecidableEq, Repr

/-- Adds a character that is written with `n` characters to the front. -/
def Word.add (c : Char) (n : Nat) (w : Word) : Word :=
  { w with text := c :: w.text, length := w.length + n }

/-- The word at the beginning of a text in single quotes. -/
def single : List Char → Word
  | '\'' :: '\'' :: cs => (single cs).add '\'' 2
  | c :: cs => if c == '\'' || isSpacing c then {} else (single cs).add c 1
  | [] => {}

/-- The character for a letter behind a backslash. -/
def escape? (c : Char) : Option Nat :=
  match c with
  | '0' => some 0
  | 'a' => some 7
  | 'b' => some 8
  | 't' => some 9
  | '\t' => some 9
  | 'n' => some 10
  | 'v' => some 11
  | 'f' => some 12
  | 'r' => some 13
  | 'e' => some 27
  | ' ' => some 32
  | '"' => some 34
  | '\'' => some 39
  | '\\' => some 92
  | 'N' => some 0x85
  | '_' => some 0xA0
  | 'L' => some 0x2028
  | 'P' => some 0x2029
  | _ => none

/-- The number of hexadecimal digits behind a letter. -/
def codeLength? (c : Char) : Option Nat :=
  match c with
  | 'x' => some 2
  | 'u' => some 4
  | 'U' => some 8
  | _ => none

/-- The scalar value with the given hexadecimal digits. -/
def scalarValue? (n : Nat) (ds : List Char) : Option Char :=
  if (ds.take n).length < n then none
  else
    match Text.Numeral.value? 16 (ds.take n) with
    | some v => if CharCode.IsScalar (v : Int) then some (Char.ofNat v) else none
    | none => none

/-- The word at the beginning of a text in double quotes; `skip` characters belong
    to an escape that was read already. -/
def double : Nat → List Char → Option Word
  | _, [] => some {}
  | skip + 1, _ :: cs => double skip cs
  | 0, '\\' :: c :: cs =>
    if isBreak c then some { continued := true }
    else
      match escape? c with
      | some v => (double 0 cs).map (·.add (Char.ofNat v) 2)
      | none =>
        match codeLength? c with
        | none => none
        | some n =>
          match scalarValue? n cs with
          | some ch => (double n cs).map (·.add ch (n + 2))
          | none => none
  | 0, c :: cs =>
    if c == '"' || isSpacing c then some {}
    -- Nothing follows the backslash.
    else if c == '\\' then none
    else (double 0 cs).map (·.add c 1)

/-- The word at the beginning of a text. -/
def word? (quote : Char) (cs : List Char) : Option Word :=
  if quote == '"' then double 0 cs else some (single cs)

/-- Reads a scalar up to the closing quote, behind the text `done`, which is
    reversed. -/
def readFrom (quote : Char) : Nat → List Char → Cursor → Option (List Char × Cursor)
  | 0, _, _ => none
  | fuel + 1, done, c =>
    if !c.knows 4 || c.atDocumentMarker || c.rest.isEmpty then none
    else do
      let w ← word? quote c.rest
      let c := c.advance w.length
      -- The line break behind the backslash is left out.
      let c := if w.continued then (c.advance 1).nextLine else c
      if !c.knows 2 then none
      else
        let done := w.text.reverse ++ done
        if c.rest.head? == some quote then some (done.reverse, c.advance 1)
        else
          let (gap, c) ← Gap.read 0 fuel { folded := w.continued } c
          readFrom quote fuel (gap.text.reverse ++ done) c

/-- Reads a scalar that begins with a quote. -/
def read (quote : Char) (c : Cursor) : Option (List Char × Cursor) :=
  readFrom quote (c.total + 1) [] (c.advance 1)

end TexEngine.Yaml.Quoted
