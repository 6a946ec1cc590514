/-
  TexEngine.Locator

  Positions in the input.
-/

namespace TexEngine

/-- A position in a named input.  The empty name means that the position is not
    known. -/
structure Locator where
  name : String := ""
  line : Int := 0
  column : Int := 0
  deriving DecidableEq, Repr, Inhabited

/-- The text of a position. -/
def Locator.text (l : Locator) : String :=
  if l.name.isEmpty then "<unknown>"
  else l.name ++ ":" ++ toString l.line ++ ":" ++ toString l.column

end TexEngine
