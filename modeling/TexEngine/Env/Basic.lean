/-
  TexEngine.Env.Basic

  The environment: registers, tables, the meanings of control sequences and
  active characters, the current attributes, and the stack of open groups.
  Local assignments are undone at the end of the group, global ones survive all
  open groups.  Look-ups never fail: an unset register is zero or empty.

  Font parameters belong to fonts and not to groups; they are kept here but
  never restored.
-/
import Std.Data.TreeMap.Basic
import TexEngine.Env.Group
import TexEngine.Error
import TexEngine.Input.Cursor

namespace TexEngine

/-- An open conditional.  `value` is set once a branch is being processed,
    `pending` while the test is being evaluated, `inElse` in the branch behind
    \else, and `isCase` for \ifcase. -/
structure Conditional where
  locator : Locator := {}
  primitive : String := ""
  value : Bool := false
  pending : Bool := false
  inElse : Bool := false
  isCase : Bool := false
  deriving DecidableEq, Repr, Inhabited

/-- The complete state that assignments can change. -/
structure Env (μ : Type) where
  preset : Preset := .initex
  unicodeLetters : Bool := false
  catcodes : Std.TreeMap Int Catcode := ∅
  mathcodes : Std.TreeMap Int Int64 := ∅
  lccodes : Std.TreeMap Int Int64 := ∅
  uccodes : Std.TreeMap Int Int64 := ∅
  sfcodes : Std.TreeMap Int Int64 := ∅
  delcodes : Std.TreeMap Int Int64 := ∅
  counts : Std.TreeMap String Int64 := ∅
  dimens : Std.TreeMap String Dimen := ∅
  glues : Std.TreeMap String Glue := ∅
  toks : Std.TreeMap String TokenList := ∅
  boxes : Std.TreeMap String (Option Box) := ∅
  codes : Std.TreeMap String μ := ∅
  active : Std.TreeMap Int μ := ∅
  font : Font := Font.null
  color : Color := {}
  direction : Direction := .leftToRight
  fonts : FontBook := {}
  groups : List (Group μ) := []
  conditionals : Array Conditional := #[]
  afterAssignment : Option Token := none

namespace Env

variable {μ : Type}

/-! ## Initial state -/

/-- The integer parameters that are not zero at first. -/
def initialCounts : Std.TreeMap String Int64 :=
  Std.TreeMap.ofList
    [("mag", (1000 : Int64)), ("tolerance", 10000), ("maxdeadcycles", 25), ("hangafter", 1),
     ("escapechar", 92), ("endlinechar", 13)]

/-- The environment at the beginning of a job. -/
def initial (preset : Preset) (unicodeLetters : Bool) : Env μ :=
  { preset, unicodeLetters, counts := initialCounts }

/-! ## Look-ups -/

/-- An integer register or parameter. -/
def count (env : Env μ) (name : String) : Int64 :=
  env.counts.getD name 0

/-- A length register or parameter. -/
def dimen (env : Env μ) (name : String) : Dimen :=
  env.dimens.getD name 0

/-- A glue register or parameter. -/
def glue (env : Env μ) (name : String) : Glue :=
  env.glues.getD name {}

/-- A token list register or parameter. -/
def tokens (env : Env μ) (name : String) : TokenList :=
  env.toks.getD name []

/-- A box register; `none` if it is void. -/
def box (env : Env μ) (name : String) : Option Box :=
  (env.boxes[name]?).getD none

/-- The meaning of a control sequence. -/
def code? (env : Env μ) (name : String) : Option μ :=
  env.codes[name]?

/-- The meaning of an active character. -/
def active? (env : Env μ) (c : CharCode) : Option μ :=
  env.active[c]?

/-- The meaning of a control sequence or active character; other tokens have
    none. -/
def meaning? (env : Env μ) (t : Token) : Option μ :=
  if t.isCs then env.code? t.name
  else if t.isActive then env.active? t.code
  else none

/-- The category of a character. -/
def catcode (env : Env μ) (c : CharCode) : Catcode :=
  env.catcodes.getD c (Catcode.default env.preset env.unicodeLetters c)

/-- The explicit entries of a table. -/
def table (env : Env μ) : CodeTable → Std.TreeMap Int Int64
  | .mathcode => env.mathcodes
  | .lccode => env.lccodes
  | .uccode => env.uccodes
  | .sfcode => env.sfcodes
  | .delcode => env.delcodes

/-- Replaces the explicit entries of a table. -/
def setTable (env : Env μ) (t : CodeTable) (m : Std.TreeMap Int Int64) : Env μ :=
  match t with
  | .mathcode => { env with mathcodes := m }
  | .lccode => { env with lccodes := m }
  | .uccode => { env with uccodes := m }
  | .sfcode => { env with sfcodes := m }
  | .delcode => { env with delcodes := m }

/-- The entry of a character in a table. -/
def charCode (env : Env μ) (t : CodeTable) (c : CharCode) : Int64 :=
  (env.table t).getD c (t.default env.unicodeLetters c)

/-- The current attributes. -/
def attributes (env : Env μ) : Attributes :=
  { font := some env.font, color := env.color, direction := env.direction }

/-- A parameter that holds a character, if its value is a character code. -/
def charParameter (env : Env μ) (name : String) : Option CharCode :=
  let c := (env.count name).toInt
  if c < 0 ∨ c > CharCode.max then none else some c

/-- The character in front of control sequence names. -/
def escapeChar (env : Env μ) : Option CharCode :=
  env.charParameter "escapechar"

/-- The character at the end of input lines. -/
def endLineChar (env : Env μ) : Option CharCode :=
  env.charParameter "endlinechar"

/-- What the lexer needs to know. -/
def lexicon (env : Env μ) : Lexicon :=
  { catcode := env.catcode, endLineChar := fun _ => env.endLineChar }

/-! ## Assignments -/

/-- Sets or removes an entry. -/
def alterEntry {κ α : Type} {cmp : κ → κ → Ordering} (m : Std.TreeMap κ α cmp) (k : κ) :
    Option α → Std.TreeMap κ α cmp
  | some v => m.insert k v
  | none => m.erase k

/-- Performs an assignment, without regard to groups. -/
def write (env : Env μ) : Assignment μ → Env μ
  | .count name v => { env with counts := alterEntry env.counts name v }
  | .dimen name v => { env with dimens := alterEntry env.dimens name v }
  | .glue name v => { env with glues := alterEntry env.glues name v }
  | .toks name v => { env with toks := alterEntry env.toks name v }
  | .box name v => { env with boxes := alterEntry env.boxes name v }
  | .code name v => { env with codes := alterEntry env.codes name v }
  | .active c v => { env with active := alterEntry env.active c v }
  | .catcode c v => { env with catcodes := alterEntry env.catcodes c v }
  | .charCode t c v => env.setTable t (alterEntry (env.table t) c v)
  | .font v => { env with font := v }
  | .color v => { env with color := v }
  | .direction v => { env with direction := v }

/-- The assignment that would leave the place of `a` as it is. -/
def current (env : Env μ) (a : Assignment μ) : Assignment μ :=
  match a with
  | .count name _ => .count name env.counts[name]?
  | .dimen name _ => .dimen name env.dimens[name]?
  | .glue name _ => .glue name env.glues[name]?
  | .toks name _ => .toks name env.toks[name]?
  | .box name _ => .box name env.boxes[name]?
  | .code name _ => .code name env.codes[name]?
  | .active c _ => .active c env.active[c]?
  | .catcode c _ => .catcode c env.catcodes[c]?
  | .charCode t c _ => .charCode t c (env.table t)[c]?
  | .font _ => .font env.font
  | .color _ => .color env.color
  | .direction _ => .direction env.direction

/-- Remembers in the innermost group how to restore a place. -/
def save (env : Env μ) (old : Assignment μ) : Env μ :=
  match env.groups with
  | [] => env
  | g :: gs => { env with groups := g.save old :: gs }

/-- The innermost group does not know yet how to restore a place, so that a local
    assignment makes it remember what is there. -/
def remembers (env : Env μ) (key : UndoKey) : Bool :=
  match env.groups with
  | [] => false
  | g :: _ => !g.undo.any (·.key = key)

/-- Makes all open groups forget how to restore a place. -/
def purge (env : Env μ) (key : UndoKey) : Env μ :=
  { env with groups := env.groups.map (·.purge key) }

/-- Performs an assignment: a local one is undone at the end of the group, a
    global one at no time. -/
def assign (env : Env μ) (a : Assignment μ) (global : Bool) : Env μ :=
  (if global then env.purge a.key else env.save (env.current a)).write a

/-- Gives a control sequence or active character a meaning, or takes it away. -/
def setMeaning (env : Env μ) (t : Token) (m : Option μ) (global : Bool) : Env μ :=
  env.assign (if t.isActive then .active t.code m else .code t.name m) global

/-! ## Groups -/

/-- The number of open groups. -/
def level (env : Env μ) : Nat :=
  env.groups.length

/-- No group is open. -/
def atBottom (env : Env μ) : Bool :=
  env.groups.isEmpty

/-- A positive tracing parameter asks for diagnostics. -/
def traces (env : Env μ) (name : String) : Bool :=
  env.count name > 0

/-- Opens a group.  The second part is a diagnostic, if one is wanted. -/
def openGroup (env : Env μ) (type : GroupType) (locator : Locator) (start : Token)
    (deliver : Option Delivery) : Env μ × List String :=
  let env := { env with groups := { type, locator, start, deliver } :: env.groups }
  (env,
   if env.traces "tracinggroups" then
     ["\x7bentering " ++ type.text ++ " group (level " ++ toString env.level ++ ") at " ++
        locator.text ++ "\x7d"]
   else [])

/-- The value of an assignment in diagnostics. -/
def valueText (env : Env μ) (nameOf : μ → String) : Assignment μ → String
  | .count _ (some v) => Count.text v
  | .dimen _ (some v) => Dimen.text v
  | .glue _ (some v) => v.text
  | .toks _ (some v) => TokenList.text v
  | .box _ (some v) => (Box.node? v).text
  | .code _ (some v) => "<" ++ nameOf v ++ ">"
  | .active _ (some v) => "<" ++ nameOf v ++ ">"
  | .catcode _ (some v) => v.text
  | .catcode c none => (Catcode.default env.preset env.unicodeLetters c).text
  | .charCode _ _ (some v) => Count.text v
  | .font v => v.id
  | .color v => v.text
  | .direction v => v.text
  | _ => "<nil>"

/-- Restores places, latest change first. -/
def restore (env : Env μ) (undo : List (Assignment μ)) : Env μ :=
  undo.foldl write env

/-- What closing a group changes outside of the environment. -/
structure Closing (μ : Type) where
  env : Env μ
  recorder : Option Recorder
  traces : List String
  afterTokens : TokenList

/-- Ends the innermost group: its box is taken from the recorder, the places
    changed inside of the group are restored, and the box is delivered in the
    enclosing group. -/
def closeGroup (env : Env μ) (nameOf : μ → String) (recorder : Option Recorder) :
    Except Fault (Closing μ) := do
  match env.groups with
  | [] => throw (.tex { kind := .tooManyRightBraces })
  | g :: gs =>
    let (box, recorder) ←
      if g.type.isBox then
        match recorder with
        | none => pure (none, none)
        | some r =>
          match r.closeBox? with
          | some (b, r) => pure (some b, some r)
          | none => throw (.failure Recorder.noOpenBox)
      else pure (none, recorder)
    let restored :=
      if env.traces "tracingrestores" then
        g.undo.map fun a =>
          "\x7brestoring " ++ a.key.text ++ "=" ++ env.valueText nameOf a ++ "\x7d"
      else []
    let env := { env.restore g.undo with groups := gs }
    -- The group that is left is no longer counted, hence one level more.
    let left :=
      if env.traces "tracinggroups" then
        ["\x7bleaving " ++ g.type.text ++ " group (level " ++ toString (env.level + 1) ++ ")\x7d"]
      else []
    let b := box.getD {}
    let (env, recorder) :=
      match g.deliver with
      | none => (env, recorder)
      | some .toPage => (env, recorder.map (·.add (Box.node? (some b))))
      | some (.toRegister name global) => (env.assign (.box name (some (some b))) global, recorder)
    return { env, recorder, traces := restored ++ left, afterTokens := g.afterTokens.reverse }

/-- Saves a token to be read behind the current group; outside of all groups it
    is dropped. -/
def afterGroup (env : Env μ) (t : Token) : Env μ :=
  match env.groups with
  | [] => env
  | g :: gs => { env with groups := { g with afterTokens := t :: g.afterTokens } :: gs }

end Env

end TexEngine
