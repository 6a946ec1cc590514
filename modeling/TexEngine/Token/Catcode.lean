/-
  TexEngine.Token.Catcode

  Category codes.  The category of a character decides what the lexer makes of
  it.  Sixteen codes have a meaning; any other number can be carried by a token
  and compared, but no rule refers to it.
-/

namespace TexEngine

/-- The category code of a character. -/
inductive Catcode where
  | escape | beginGroup | endGroup | mathShift | alignmentTab | endOfLine | parameter
  | superscript | subscript | ignored | space | letter | other | active | comment | invalid
  | unassigned (code : Int)
  deriving DecidableEq, Repr, Inhabited

namespace Catcode

/-- The sixteen categories, in the order of their codes. -/
def all : List Catcode :=
  [escape, beginGroup, endGroup, mathShift, alignmentTab, endOfLine, parameter, superscript,
   subscript, ignored, space, letter, other, active, comment, invalid]

/-- The number of a category. -/
def toInt : Catcode → Int
  | escape => 0
  | beginGroup => 1
  | endGroup => 2
  | mathShift => 3
  | alignmentTab => 4
  | endOfLine => 5
  | parameter => 6
  | superscript => 7
  | subscript => 8
  | ignored => 9
  | space => 10
  | letter => 11
  | other => 12
  | active => 13
  | comment => 14
  | invalid => 15
  | unassigned code => code

/-- The category with the given number. -/
def ofInt (n : Int) : Catcode :=
  if 0 ≤ n then all.getD n.toNat (unassigned n) else unassigned n

/-- The category is one of the sixteen. -/
def isValid (c : Catcode) : Bool :=
  0 ≤ c.toInt && c.toInt ≤ 15

/-- The name of a category in diagnostics. -/
def text : Catcode → String
  | escape => "escape"
  | beginGroup => "begin-group"
  | endGroup => "end-group"
  | mathShift => "math-shift"
  | alignmentTab => "alignment-tab"
  | endOfLine => "end-of-line"
  | parameter => "parameter"
  | superscript => "superscript"
  | subscript => "subscript"
  | ignored => "ignored"
  | space => "space"
  | letter => "letter"
  | other => "other"
  | active => "active"
  | comment => "comment"
  | invalid => "invalid"
  | unassigned code => "catcode(" ++ toString code ++ ")"

end Catcode

end TexEngine
