/-
  TexEngine.Input.Stream

  One entry of the input stack: tokens that were pushed back, which are read
  first, the rest of the current line, and the lines that follow.
-/
import TexEngine.Input.Cursor
import TexEngine.Input.Reader

namespace TexEngine

/-- An input stream.  Without a reader it only holds pushed-back tokens. -/
structure Stream where
  reader : Option Reader := none
  cursor : Cursor := {}
  pushed : List Token := []
  endInput : Bool := false
  deriving Repr, Inhabited

/-- The outcome of reading from a stream. -/
inductive StreamResult where
  | token (t : Token)
  | exhausted
  | fault (f : Fault)
  deriving Repr, Inhabited

namespace Stream

/-- The name of a stream in messages. -/
def name (s : Stream) : String :=
  match s.reader with
  | some r => r.name
  | none => "<tokens>"

/-- The stream reads a file. -/
def isFile (s : Stream) : Bool :=
  match s.reader with
  | some r => r.isFile
  | none => false

/-- What a lexeme gives. -/
def resultOf : Option Lexeme → StreamResult
  | some (.token t) => .token t
  | some (.invalid c) => .fault (.tex { kind := .invalidCharacter, details := [c.text] })
  | none => .exhausted

/-- Reads from the lines that follow, until one gives a token.  `cur` is the end of
    the line before. -/
def readLines (lex : Lexicon) (r : Reader) (cur : Cursor) : StreamResult × Reader × Cursor :=
  match _h : r.readLine with
  | (.error .finished, r) => (.exhausted, r, cur)
  | (.error (.failed message), r) => (.fault (.failure message), r, cur)
  | (.ok bytes, next) =>
    let line := Cursor.ofLine (lex.endLineChar ()) (Text.Utf8.decodeFrom 0 bytes)
    match line.next? lex.catcode with
    | (some x, cur) => (resultOf (some x), next, cur)
    | (none, cur) => readLines lex next cur
termination_by r.body.length
decreasing_by exact Reader.length_lt_of_readLine _h

/-- Reads the next token that is not pushed back. -/
def read (lex : Lexicon) (s : Stream) : StreamResult × Stream :=
  match s.cursor.next? lex.catcode with
  | (some x, cursor) => (resultOf (some x), { s with cursor })
  | (none, cursor) =>
    let s := { s with cursor }
    match s.reader with
    | none => (.exhausted, s)
    | some r =>
      if s.endInput then (.exhausted, s)
      else
        let (result, r, cursor) := readLines lex r cursor
        (result, { s with reader := some r, cursor })

/-! ## Positions -/

/-- The position of a stream that has a reader. -/
def locator? (s : Stream) : Option Locator :=
  s.reader.map fun r => { name := r.name, line := r.line, column := s.cursor.pos + 1 }

/-- What follows in the current line, shortened to 20 characters. -/
def context (s : Stream) : String :=
  if s.cursor.rest.length > 20 then CharCode.listText (s.cursor.rest.take 17) ++ "..."
  else CharCode.listText s.cursor.rest

/-- The description of a stream that has a reader. -/
def frame? (s : Stream) : Option Frame :=
  s.reader.map fun r =>
    { name := r.name, line := r.line, column := s.cursor.pos + 1, context := s.context }

end Stream

end TexEngine
