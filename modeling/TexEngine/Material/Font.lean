/-
  TexEngine.Material.Font

  Fonts.  No metric files are read; the usual font parameters are derived from
  the size.  A font is identified by its serial number, and its parameters,
  which can be changed at any time and by any group, are kept in a book beside
  the fonts.
-/
import Std.Data.TreeMap.Basic
import TexEngine.Arith.Word

namespace TexEngine

/-- A loaded font.  Two fonts are the same if they have the same serial number;
    `id` is the name of the control sequence that was defined to select it. -/
structure Font where
  serial : Nat
  id : String
  name : String
  size : Dimen
  designSize : Dimen
  deriving DecidableEq, Repr, Inhabited

namespace Font

/-- The design size of all fonts. -/
def defaultSize : Dimen :=
  Dimen.points 10

/-- The font that is selected at first. -/
def null : Font :=
  { serial := 0, id := "nullfont", name := "nullfont", size := 0, designSize := 0 }

/-- The font name, with the size if it is not the design size. -/
def fullName (f : Font) : String :=
  if f.size ≠ f.designSize ∧ f.size ≠ 0 then f.name ++ " at " ++ Dimen.text f.size
  else f.name

end Font

/-- The parameters of a font, by number. -/
abbrev FontParams := Std.TreeMap Int Dimen

namespace FontParams

/-- Slant, space, stretch, shrink, x-height, quad and extra space of a font of
    the given size. -/
def ofSize (size : Dimen) : FontParams :=
  Std.TreeMap.ofList
    [((1 : Int), (0 : Dimen)), (2, size / 3), (3, size / 6), (4, size / 9), (5, size * 43 / 100),
     (6, size), (7, size / 9)]

/-- `ofSize` is exact. -/
def ofSizeFits (size : Dimen) : Bool :=
  Word.divFits size 3 && Word.divFits size 6 && Word.divFits size 9 && Word.mulFits size 43 &&
    Word.divFits (size * 43) 100

end FontParams

/-- All fonts that have parameters, by serial number.  Serial number 0 is the
    null font, which has none. -/
structure FontBook where
  next : Nat := 1
  params : Std.TreeMap Nat FontParams := ∅

namespace FontBook

/-- The parameters of a font. -/
def paramsOf (b : FontBook) (f : Font) : FontParams :=
  b.params.getD f.serial ∅

/-- Parameter `n` of a font; parameters that are not set are zero. -/
def param (b : FontBook) (f : Font) (n : Int) : Dimen :=
  (b.paramsOf f).getD n 0

/-- Changes parameter `n` of a font. -/
def setParam (b : FontBook) (f : Font) (n : Int) (d : Dimen) : FontBook :=
  { b with params := b.params.insert f.serial ((b.paramsOf f).insert n d) }

/-- The interword glue of a font. -/
def spaceGlue (b : FontBook) (f : Font) : Glue :=
  { width := b.param f 2, stretch := ⟨b.param f 3, 0⟩, shrink := ⟨b.param f 4, 0⟩ }

/-- The size of a font that is loaded: the design size, if no positive size is
    given. -/
def loadSize (size : Dimen) : Dimen :=
  if size ≤ 0 then Font.defaultSize else size

/-- Loads a font. -/
def load (b : FontBook) (id name : String) (size : Dimen) : Font × FontBook :=
  let size := loadSize size
  ({ serial := b.next, id, name, size, designSize := Font.defaultSize },
   { next := b.next + 1, params := b.params.insert b.next (FontParams.ofSize size) })

end FontBook

end TexEngine
