/-
  TexEngine.Engine.Value

  The values of quantities, and the cells in which they are kept: registers,
  parameters, entries of the character tables, font parameters, and numbers that
  can only be read.
-/
import TexEngine.Engine.Machine

namespace TexEngine

/-! ## Values -/

/-- The value of a quantity. -/
inductive Value where
  | int (n : Int64)
  | dimen (d : Dimen)
  | glue (g : Glue)
  | toks (ts : TokenList)
  deriving DecidableEq, Repr, Inhabited

namespace Value

/-- The type of a value. -/
def kind : Value → ValueKind
  | int _ => .int
  | dimen _ => .dimen
  | glue _ => .glue
  | toks _ => .toks

/-- The value as \the shows it. -/
def tokens : Value → TokenList
  | int n => TokenList.ofText (Count.text n)
  | dimen d => TokenList.ofText (Dimen.text d)
  | glue g => TokenList.ofText g.text
  | toks ts => ts

/-- The value where a number is wanted: a length counts in scaled points, glue by
    its width. -/
def toInt : Value → Int64
  | int n => n
  | dimen d => d
  | glue g => g.width
  | toks _ => 0

/-- The sum of two values of one type. -/
def add : Value → Value → Except ArithFault Value
  | int a, int b => int <$> Count.add a b
  | dimen a, dimen b => dimen <$> Dimen.add a b
  | glue a, glue b => glue <$> Glue.add a b
  | v, _ => .ok v

/-- `n` times a value. -/
def multiply (n : Int64) : Value → Except ArithFault Value
  | int a => int <$> Count.multiply a n
  | dimen d => dimen <$> Dimen.multiply d n
  | glue g => glue <$> Glue.multiply g n
  | v => .ok v

/-- A value divided by `n`. -/
def divide (n : Int64) : Value → Except ArithFault Value
  | int a => int <$> Count.divide a n
  | dimen d => dimen <$> Dimen.divide d n
  | glue g => glue <$> Glue.divide g n
  | v => .ok v

/-- `add` is exact. -/
def addFits : Value → Value → Bool
  | int a, int b => Word.addFits a b
  | dimen a, dimen b => Word.addFits a b
  | glue a, glue b => a.addFits b
  | _, _ => true

/-- `multiply` is exact. -/
def multiplyFits (n : Int64) : Value → Bool
  | int a => Count.multiplyFits a n
  | dimen d => Dimen.multiplyFits d n
  | glue g => g.multiplyFits n
  | toks _ => true

/-- `divide` is exact. -/
def divideFits (n : Int64) : Value → Bool
  | int a => Word.divFits a n
  | dimen d => Word.divFits d n
  | glue g => g.divideFits n
  | toks _ => true

end Value

/-! ## Cells -/

/-- Where a value is kept. -/
inductive Cell where
  | register (bank : Bank) (name : String)
  | catcode (c : CharCode)
  | charCode (table : CodeTable) (c : CharCode)
  | fontDimen (f : Font) (n : Int64)
  | inputLine
  | groupLevel
  | conditionalLevel
  | constant (n : Int64)
  deriving DecidableEq, Repr, Inhabited

namespace Cell

open Eng

/-- The type of the value of a cell. -/
def kind : Cell → ValueKind
  | register bank _ => bank.kind
  | fontDimen _ _ => .dimen
  | _ => .int

/-- The value of a cell. -/
def read (cell : Cell) : Eng Value := do
  let m ← get
  match cell with
  | register .count name => return .int (m.env.count name)
  | register .dimen name => return .dimen (m.env.dimen name)
  | register .skip name => return .glue (m.env.glue name)
  | register .toks name => return .toks (m.env.tokens name)
  | catcode c => return .int (Int64.ofInt (m.env.catcode c).toInt)
  | charCode table c => return .int (m.env.charCode table c)
  | fontDimen f n => return .dimen (m.env.fonts.param f n.toInt)
  | inputLine =>
    observeLevel m.input.locator.line.toNat
    return .int (Int64.ofInt m.input.locator.line)
  | groupLevel =>
    observeLevel m.env.level
    return .int (Int64.ofNat m.env.level)
  | conditionalLevel =>
    observeLevel m.env.conditionals.size
    return .int (Int64.ofNat m.env.conditionals.size)
  | constant n => return .int n

/-- The cell can be assigned to. -/
def isMutable : Cell → Bool
  | inputLine => false
  | groupLevel => false
  | conditionalLevel => false
  | constant _ => false
  | _ => true

/-- Gives a cell a value of its type.  Codes have to be in the range of their
    table. -/
def write (cell : Cell) (v : Value) (global : Bool) : Eng Unit := do
  match cell, v with
  | register .count name, .int n => assign (.count name (some n)) global
  | register .dimen name, .dimen d => assign (.dimen name (some d)) global
  | register .skip name, .glue g => assign (.glue name (some g)) global
  | register .toks name, .toks ts => assign (.toks name (some ts)) global
  | catcode c, .int n =>
    let k := Catcode.ofInt n.toInt
    if k.isValid then assign (.catcode c (some k)) global
    else fail .badCatcode [Count.text n]
  | charCode table c, .int n =>
    let (low, high) := table.range
    if n < low ∨ n > high then fail .badCatcode [Count.text n]
    else assign (.charCode table c (some n)) global
  | fontDimen f n, .dimen d =>
    -- The parameters of a font are not restored at the end of a group.
    modifyEnv fun env => { env with fonts := env.fonts.setParam f n.toInt d }
  | _, _ => pure ()

end Cell

end TexEngine
