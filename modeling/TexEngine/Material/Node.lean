/-
  TexEngine.Material.Node

  Typeset material: characters with their attributes, spaces, glue, kerns,
  penalties, paragraph ends, and boxes that hold further material.
-/
import TexEngine.Decimal.Binary64
import TexEngine.Material.Font
import TexEngine.Text.CharCode

namespace TexEngine

/-! ## Attributes -/

/-- The writing direction of text. -/
inductive Direction where
  | leftToRight
  | rightToLeft
  deriving DecidableEq, Repr, Inhabited

/-- The keyword of a direction. -/
def Direction.text : Direction → String
  | leftToRight => "TLT"
  | rightToLeft => "TRT"

/-- How the components of a color are interpreted. -/
inductive ColorSpace where
  | gray
  | rgb
  deriving DecidableEq, Repr, Inhabited

/-- A text color with up to three components. -/
structure Color where
  space : ColorSpace := .gray
  first : Binary64 := ⟨0⟩
  second : Binary64 := ⟨0⟩
  third : Binary64 := ⟨0⟩
  deriving DecidableEq, Repr, Inhabited

namespace Color

/-- The color is the initial one.  A component may be zero of either sign. -/
def isDefault (c : Color) : Bool :=
  c.space == .gray && c.first.isZero && c.second.isZero && c.third.isZero

/-- The text of a color. -/
def text (c : Color) : String :=
  match c.space with
  | .gray => "gray " ++ c.first.text
  | .rgb => "rgb " ++ c.first.text ++ " " ++ c.second.text ++ " " ++ c.third.text

end Color

/-- What is attached to characters and spaces. -/
structure Attributes where
  font : Option Font := none
  color : Color := {}
  direction : Direction := .leftToRight
  deriving DecidableEq, Repr, Inhabited

/-! ## Boxes -/

/-- The two kinds of box. -/
inductive BoxKind where
  | horizontal
  | vertical
  deriving DecidableEq, Repr, Inhabited

/-- The control sequence that makes a box of a kind. -/
def BoxKind.command : BoxKind → String
  | horizontal => "\\hbox"
  | vertical => "\\vbox"

/-- The requested size of a box. -/
inductive BoxSpec where
  | natural
  | exactly (size : Dimen)
  | spread (size : Dimen)
  deriving DecidableEq, Repr, Inhabited

/-- The text of a size request; empty for the natural size. -/
def BoxSpec.text : BoxSpec → String
  | natural => ""
  | exactly size => "to " ++ Dimen.text size
  | spread size => "spread " ++ Dimen.text size

/-- One item of typeset material. -/
inductive Node where
  | char (code : CharCode) (attr : Attributes)
  | space (glue : Glue) (attr : Attributes)
  | glue (glue : Glue) (vertical : Bool)
  | kern (width : Dimen)
  | penalty (value : Int64)
  | par
  | box (kind : BoxKind) (spec : BoxSpec) (nodes : List Node)
  | voidBox
  deriving Repr, Inhabited

/-- A finished box. -/
structure Box where
  kind : BoxKind := .horizontal
  spec : BoxSpec := .natural
  nodes : List Node := []
  deriving Repr, Inhabited

/-- A box as an item of the surrounding material; a void box is an item, too. -/
def Box.node? : Option Box → Node
  | some b => .box b.kind b.spec b.nodes
  | none => .voidBox

/-! ## Text -/

namespace Node

mutual

/-- The characters that an item adds to the plain text: glue, kerns and
    penalties add none, a paragraph end adds an empty line. -/
def plain : Node → List Char
  | char code _ => [code.toChar]
  | space _ _ => [' ']
  | par => ['\n', '\n']
  | box _ _ nodes => plainList nodes
  | _ => []

/-- The characters that a list of items adds to the plain text. -/
def plainList : List Node → List Char
  | [] => []
  | n :: ns => plain n ++ plainList ns

end

/-- The plain text of a list of items. -/
def listText (ns : List Node) : String :=
  String.ofList (plainList ns)

/-- The text of a box in diagnostics. -/
def boxText (kind : BoxKind) (spec : BoxSpec) (nodes : List Node) : String :=
  kind.command ++ (if spec.text.isEmpty then "" else " " ++ spec.text) ++
    "\x7b" ++ listText nodes ++ "\x7d"

/-- The text of an item in diagnostics. -/
def text : Node → String
  | char code _ => code.text
  | space _ _ => " "
  | glue g vertical => (if vertical then "\\vskip " else "\\hskip ") ++ g.text
  | kern width => "\\kern " ++ Dimen.text width
  | penalty value => "\\penalty " ++ Count.text value
  | par => "\\par"
  | box kind spec nodes => boxText kind spec nodes
  | voidBox => "\\box\x7b\x7d"

end Node

end TexEngine
