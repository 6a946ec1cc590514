/-
  TexEngine.Env.CodeTable

  The tables that give every character a number, and the values of characters
  without an explicit assignment.
-/
import TexEngine.Text.CaseMap
import TexEngine.Text.Letters
import TexEngine.Token.Catcode

namespace TexEngine

/-! ## Category codes -/

/-- The categories that characters have at the beginning. -/
inductive Preset where
  | initex
  | plain
  deriving DecidableEq, Repr, Inhabited

namespace Preset

/-- The name of a preset. -/
def text : Preset → String
  | initex => "initex"
  | plain => "plain"

/-- The preset with the given name; unknown names mean `initex`. -/
def ofName (s : String) : Preset :=
  if s == "plain" then plain else initex

end Preset

/-- The character counts as a letter: one of the 52 ASCII letters or, if
    `unicode` is set, any letter beyond ASCII. -/
def countsAsLetter (unicode : Bool) (c : CharCode) : Bool :=
  (97 ≤ c && c ≤ 122) || (65 ≤ c && c ≤ 90) || (unicode && c > 127 && Text.isLetter c)

namespace Catcode

/-- Categories before any assignment. -/
def initexDefault (unicode : Bool) (c : CharCode) : Catcode :=
  if countsAsLetter unicode c then .letter
  else if c = 92 then .escape
  else if c = 37 then .comment
  else if c = 35 then .parameter
  else if c = 32 then .space
  else if c = 13 then .endOfLine
  else if c = 0 then .ignored
  else if c = 127 then .invalid
  else .other

/-- Categories of the usual special characters. -/
def plainDefault (unicode : Bool) (c : CharCode) : Catcode :=
  if c = 123 then .beginGroup
  else if c = 125 then .endGroup
  else if c = 36 then .mathShift
  else if c = 38 then .alignmentTab
  else if c = 35 then .parameter
  else if c = 94 then .superscript
  else if c = 95 then .subscript
  else if c = 126 then .active
  else if c = 9 then .space
  else initexDefault unicode c

/-- The category of a character without an assignment. -/
def default (preset : Preset) (unicode : Bool) (c : CharCode) : Catcode :=
  match preset with
  | .initex => initexDefault unicode c
  | .plain => plainDefault unicode c

end Catcode

/-! ## The other tables -/

/-- The tables apart from the category codes. -/
inductive CodeTable where
  | mathcode
  | lccode
  | uccode
  | sfcode
  | delcode
  deriving DecidableEq, Repr, Inhabited

namespace CodeTable

/-- All tables. -/
def all : List CodeTable :=
  [mathcode, lccode, uccode, sfcode, delcode]

/-- The name of a table. -/
def text : CodeTable → String
  | mathcode => "mathcode"
  | lccode => "lccode"
  | uccode => "uccode"
  | sfcode => "sfcode"
  | delcode => "delcode"

/-- The smallest and the largest value that may be assigned. -/
def range : CodeTable → Int64 × Int64
  | mathcode => (0, 0x8000)
  | lccode => (0, 0x10FFFF)
  | uccode => (0, 0x10FFFF)
  | sfcode => (0, 32767)
  | delcode => (-1, 0xFFFFFF)

/-- The value of a character without an assignment. -/
def default (t : CodeTable) (unicode : Bool) (c : CharCode) : Int64 :=
  let letter := countsAsLetter unicode c
  match t with
  | mathcode =>
    if letter && c < 128 then Int64.ofInt (0x7100 + c)
    else if 48 ≤ c && c ≤ 57 then Int64.ofInt (0x7000 + c)
    else Int64.ofInt c
  | lccode => if letter then Int64.ofInt (Text.toSmall c) else 0
  | uccode => if letter then Int64.ofInt (Text.toCapital c) else 0
  | sfcode => if letter && Text.isCapital c then 999 else 1000
  | delcode => if c = 46 then 0 else -1

end CodeTable

end TexEngine
