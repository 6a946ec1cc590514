/-
  TexEngine.Yaml.Plain

  Scalars without quotes.  Such a scalar ends at a colon that is followed by a
  separator, at a comment, at a line with too little indentation, and, between
  brackets, at an indicator.
-/
import TexEngine.Yaml.Cursor

namespace TexEngine.Yaml.Plain

/-- The indicators that end a scalar between brackets. -/
def closers : List Char :=
  [',', '?', '[', ']', '\x7b', '\x7d']

/-- The length of the word at the beginning of a text. -/
def wordLength (inFlow : Bool) : List Char → Nat
  | [] => 0
  | c :: rest =>
    if isSpacing c || (c == ':' && endsWord rest) || (inFlow && closers.contains c) then 0
    else wordLength inFlow rest + 1

/-- A scalar, whether lines were ended behind its last word, and what follows. -/
structure Result where
  text : List Char
  folded : Bool
  next : Cursor
  deriving Repr

/-- Reads words from column `indent` on; `gap` stands between them and the text
    `done`, which is reversed. -/
def readFrom (inFlow : Bool) (indent : Nat) : Nat → List Char → Gap → Cursor → Option Result
  | 0, done, gap, c => some ⟨done.reverse, gap.folded, c⟩
  | fuel + 1, done, gap, c =>
    if !c.knows 4 then none
    else if c.atDocumentMarker || c.rest.head? == some '#' then
      some ⟨done.reverse, gap.folded, c⟩
    else
      let n := wordLength inFlow c.rest
      let (done, gap) : List Char × Gap :=
        if n = 0 then (done, gap)
        else ((c.rest.take n).reverse ++ (gap.text.reverse ++ done), {})
      let c := c.advance n
      if !c.knows 2 then none
      else
        match c.rest with
        | [] => some ⟨done.reverse, gap.folded, c⟩
        | ch :: _ =>
          if isSpacing ch then do
            let (gap, c) ← Gap.read indent fuel gap c
            if !c.knows 1 then none
            -- In block style, a line with less indentation is not part of the scalar.
            else if !inFlow && c.column < indent then some ⟨done.reverse, gap.folded, c⟩
            else readFrom inFlow indent fuel done gap c
          else some ⟨done.reverse, gap.folded, c⟩

/-- Reads a scalar. -/
def read (inFlow : Bool) (indent : Nat) (c : Cursor) : Option Result :=
  readFrom inFlow indent (c.total + 1) [] {} c

end TexEngine.Yaml.Plain
