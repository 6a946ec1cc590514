/-
  TexEngine.Arith.Glue

  Glue: a natural width that can stretch and shrink.  The stretch and shrink
  components have an order of infinity, and a component of higher order
  dominates one of lower order in a sum.
-/
import TexEngine.Arith.Dimen

namespace TexEngine

/-- The stretch or shrink part of a glue.  Order 0 is finite; orders 1, 2 and 3
    are written fil, fill and filll. -/
structure GlueComponent where
  value : Dimen := 0
  order : Nat := 0
  deriving DecidableEq, Repr, Inhabited

namespace GlueComponent

/-- The component has no effect. -/
def isZero (g : GlueComponent) : Bool :=
  g.value == 0

/-- The text of a component. -/
def text (g : GlueComponent) : String :=
  if g.order == 0 then Dimen.text g.value
  else Dimen.formatScaled g.value ++ "fi" ++ String.ofList (List.replicate g.order 'l')

/-- Sum of two components; the lower order is dropped. -/
def add (g h : GlueComponent) : Except ArithFault GlueComponent :=
  if h.isZero then .ok g
  else if g.isZero || g.order < h.order then .ok h
  else if g.order > h.order then .ok g
  else do
    let v ← Dimen.add g.value h.value
    return if v == 0 then {} else ⟨v, g.order⟩

/-- A component without effect is finite. -/
def normalize (g : GlueComponent) : GlueComponent :=
  if g.isZero then { g with order := 0 } else g

end GlueComponent

/-- A length with stretchability and shrinkability. -/
structure Glue where
  width : Dimen := 0
  stretch : GlueComponent := {}
  shrink : GlueComponent := {}
  deriving DecidableEq, Repr, Inhabited

namespace Glue

/-- Sum of two glues. -/
def add (g h : Glue) : Except ArithFault Glue := do
  let width ← Dimen.add g.width h.width
  let stretch ← g.stretch.add h.stretch
  let shrink ← g.shrink.add h.shrink
  return { width, stretch, shrink }

/-- The glue with all three lengths negated. -/
def negate (g : Glue) : Glue :=
  { width := -g.width,
    stretch := { g.stretch with value := -g.stretch.value },
    shrink := { g.shrink with value := -g.shrink.value } }

/-- Applies `f` to all three lengths. -/
def mapM (f : Dimen → Except ArithFault Dimen) (g : Glue) : Except ArithFault Glue := do
  let width ← f g.width
  let stretch ← f g.stretch.value
  let shrink ← f g.shrink.value
  return { width,
           stretch := GlueComponent.normalize ⟨stretch, g.stretch.order⟩,
           shrink := GlueComponent.normalize ⟨shrink, g.shrink.order⟩ }

/-- All three lengths multiplied by `n`. -/
def multiply (g : Glue) (n : Int64) : Except ArithFault Glue :=
  g.mapM (Dimen.multiply · n)

/-- All three lengths divided by `n`. -/
def divide (g : Glue) (n : Int64) : Except ArithFault Glue :=
  g.mapM (Dimen.divide · n)

/-- The text of a glue; components without effect are left out. -/
def text (g : Glue) : String :=
  Dimen.text g.width ++
    (if g.stretch.isZero then "" else " plus " ++ g.stretch.text) ++
    (if g.shrink.isZero then "" else " minus " ++ g.shrink.text)

end Glue

end TexEngine
