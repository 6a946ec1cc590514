/-
  TexEngine.Material.Recorder

  The recorder keeps all material that is typeset.  Boxes can be opened inside
  of boxes; new material goes into the innermost open box, or to the page if no
  box is open.
-/
import TexEngine.Material.Node

namespace TexEngine

/-- A box whose material is still being collected.  The item added last stands
    first. -/
structure OpenBox where
  kind : BoxKind
  spec : BoxSpec
  latest : List Node := []
  deriving Repr, Inhabited

/-- The page, whose item added last stands first, and the open boxes, innermost
    first. -/
structure Recorder where
  latest : List Node := []
  boxes : List OpenBox := []
  deriving Repr, Inhabited

namespace Recorder

/-- The items of the page, in the order in which they were added. -/
def page (r : Recorder) : List Node :=
  r.latest.reverse

/-- Adds an item. -/
def add (r : Recorder) (n : Node) : Recorder :=
  match r.boxes with
  | [] => { r with latest := n :: r.latest }
  | b :: bs => { r with boxes := { b with latest := n :: b.latest } :: bs }

/-- Starts a box. -/
def openBox (r : Recorder) (kind : BoxKind) (spec : BoxSpec) : Recorder :=
  { r with boxes := { kind, spec } :: r.boxes }

/-- Ends the innermost box, if there is one. -/
def closeBox? (r : Recorder) : Option (Box × Recorder) :=
  match r.boxes with
  | [] => none
  | b :: bs =>
    some ({ kind := b.kind, spec := b.spec, nodes := b.latest.reverse }, { r with boxes := bs })

/-- Why `closeBox?` fails. -/
def noOpenBox : String :=
  "CloseBox without matching OpenBox"

/-- What is wrong at the end of a job, if anything. -/
def unfinished? (r : Recorder) : Option String :=
  if r.boxes.isEmpty then none else some "unfinished box at end of input"

/-- The plain text of the page. -/
def text (r : Recorder) : String :=
  Node.listText r.page

end Recorder

/-- What happens to boxes and to the material that is typeset.  An item is `added` while a
    number of boxes is open.  A box is `used` when it goes to the typesetter; when it is
    fetched from a register it may be `copied`, or the group may have `remembered` it,
    which will put it back at its end. -/
inductive BoxEvent where
  | opened (kind : BoxKind) (spec : BoxSpec)
  | added (depth : Nat) (n : Node)
  | built (b : Box)
  | used (b : Box)
  | copied (b : Box)
  | remembered (b : Box)

end TexEngine
