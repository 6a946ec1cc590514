/-
  TexEngine.Material.Fill

  Filling paragraphs.  A text is divided into paragraphs at empty lines, and
  the words of each paragraph are put on lines as long as they fit into the
  width; without a positive width every paragraph is one line.  The output is a
  list of pieces, one for each line and one for each gap between paragraphs.
-/
import TexEngine.Material.Recorder
import TexEngine.Text.Blank

namespace TexEngine.Fill

/-- Splits at pairs of line ends; `part` is the (reversed) beginning. -/
def splitFrom (part : List Char) : List Char → List String
  | '\n' :: '\n' :: cs => String.ofList part.reverse :: splitFrom [] cs
  | c :: cs => splitFrom (c :: part) cs
  | [] => [String.ofList part.reverse]

/-- The parts of a text between double line ends. -/
def parts (s : String) : List String :=
  splitFrom [] s.toList

/-- The paragraphs of a text, as non-empty lists of words. -/
def paragraphs (s : String) : List (List String) :=
  ((parts s).map Text.words).filter (!·.isEmpty)

/-- Puts words on lines; `line` (reversed, not empty) is `used` characters long. -/
def linesFrom (width : Int) (line : List String) (used : Nat) : List String → List (List String)
  | [] => [line.reverse]
  | w :: ws =>
    let n := w.length
    if width ≤ 0 ∨ ((used + 1 + n : Nat) : Int) ≤ width then
      linesFrom width (w :: line) (used + 1 + n) ws
    else line.reverse :: linesFrom width [w] n ws

/-- The lines of a paragraph. -/
def lines (width : Int) : List String → List (List String)
  | [] => []
  | w :: ws => linesFrom width [w] w.length ws

/-- The lines of a paragraph as terminated text. -/
def block (width : Int) (words : List String) : List String :=
  (lines width words).map fun line => String.intercalate " " line ++ "\n"

/-- The pieces of the filled text, in the order in which they are written. -/
def pieces (width : Int) (s : String) : List String :=
  match (paragraphs s).map (block width) with
  | [] => []
  | b :: bs => b ++ (bs.map ("\n" :: ·)).flatten

/-- The filled text. -/
def text (width : Int) (s : String) : String :=
  String.join (pieces width s)

end TexEngine.Fill

namespace TexEngine

/-- The text of the page, filled to lines of the given width. -/
def Recorder.filled (r : Recorder) (width : Int) : String :=
  Fill.text width r.text

end TexEngine
