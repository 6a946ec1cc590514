/-
  TexEngine.Env.Group

  Groups and assignments.  An assignment names a place of the environment and
  the value it gets, which may be "no value".  The same data describe how an
  assignment is undone, and a group is mainly the list of assignments that
  restore the places changed inside of it.
-/
import TexEngine.Env.CodeTable
import TexEngine.Locator
import TexEngine.Material.Recorder
import TexEngine.Token.List

namespace TexEngine

/-! ## Assignments -/

/-- A place of the environment together with the value it is to have.  For
    places in a table, `none` means that there is no entry.  `μ` is the type of
    meanings. -/
inductive Assignment (μ : Type) where
  | count (name : String) (value : Option Int64)
  | dimen (name : String) (value : Option Dimen)
  | glue (name : String) (value : Option Glue)
  | toks (name : String) (value : Option TokenList)
  | box (name : String) (value : Option (Option Box))
  | code (name : String) (value : Option μ)
  | active (char : CharCode) (value : Option μ)
  | catcode (char : CharCode) (value : Option Catcode)
  | charCode (table : CodeTable) (char : CharCode) (value : Option Int64)
  | font (value : Font)
  | color (value : Color)
  | direction (value : Direction)

/-- The key under which a group remembers that a place was changed.  Characters
    are identified by their text, so all codes without a character of their own
    have the same key. -/
inductive UndoKey where
  | count (name : String)
  | dimen (name : String)
  | glue (name : String)
  | toks (name : String)
  | box (name : String)
  | code (name : String)
  | active (char : Char)
  | catcode (char : Char)
  | charCode (table : CodeTable) (char : Char)
  | font
  | color
  | direction
  deriving DecidableEq, Repr

/-- The text of a key. -/
def UndoKey.text : UndoKey → String
  | count name => "count " ++ name
  | dimen name => "dimen " ++ name
  | glue name => "skip " ++ name
  | toks name => "toks " ++ name
  | box name => "box " ++ name
  | code name => "\\" ++ name
  | active c => "active " ++ String.singleton c
  | catcode c => "catcode " ++ String.singleton c
  | charCode table c => table.text ++ " " ++ String.singleton c
  | font => "font"
  | color => "color"
  | direction => "textdir"

/-- The key of the place that is assigned to. -/
def Assignment.key {μ : Type} : Assignment μ → UndoKey
  | count name _ => .count name
  | dimen name _ => .dimen name
  | glue name _ => .glue name
  | toks name _ => .toks name
  | box name _ => .box name
  | code name _ => .code name
  | active c _ => .active c.toChar
  | catcode c _ => .catcode c.toChar
  | charCode table c _ => .charCode table c.toChar
  | font _ => .font
  | color _ => .color
  | direction _ => .direction

/-! ## Groups -/

/-- How a group was opened. -/
inductive GroupType where
  | bottomLevel
  | simple
  | semiSimple
  | hbox
  | vbox
  | unknown
  deriving DecidableEq, Repr, Inhabited

namespace GroupType

/-- The group type with the given number. -/
def ofInt (n : Int) : GroupType :=
  if 0 ≤ n then [bottomLevel, simple, semiSimple, hbox, vbox].getD n.toNat unknown else unknown

/-- The name of a group type. -/
def text : GroupType → String
  | bottomLevel => "bottom level"
  | simple => "simple"
  | semiSimple => "semi simple"
  | hbox => "hbox"
  | vbox => "vbox"
  | unknown => "unknown"

/-- The group collects the contents of a box. -/
def isBox : GroupType → Bool
  | hbox => true
  | vbox => true
  | _ => false

end GroupType

/-- Where a finished box goes. -/
inductive Delivery where
  | toPage
  | toRegister (name : String) (global : Bool)
  deriving DecidableEq, Repr, Inhabited

/-- An open group.  `undo` restores the places that were changed locally, latest
    change first, with at most one entry for a key; `afterTokens` are to be read
    behind the group, the one at the front last. -/
structure Group (μ : Type) where
  type : GroupType
  locator : Locator
  start : Token
  deliver : Option Delivery := none
  undo : List (Assignment μ) := []
  afterTokens : TokenList := []

namespace Group

variable {μ : Type}

/-- Remembers how to restore a place, unless the group knows already. -/
def save (g : Group μ) (old : Assignment μ) : Group μ :=
  if g.undo.any (·.key = old.key) then g else { g with undo := old :: g.undo }

/-- Forgets how to restore a place. -/
def purge (g : Group μ) (key : UndoKey) : Group μ :=
  { g with undo := g.undo.filter (·.key ≠ key) }

end Group

end TexEngine
