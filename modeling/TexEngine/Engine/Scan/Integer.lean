/-
  TexEngine.Engine.Scan.Integer

  Integers: decimal, octal and hexadecimal constants, character constants, and
  quantities.  A quantity may itself read an integer, such as a register number,
  so scanning an integer and resolving a quantity depend on each other; the
  recursion is bounded by the expander's fuel.
-/
import TexEngine.Engine.Scan.Keyword
import TexEngine.Engine.Value

namespace TexEngine

/-- The largest register number. -/
def maxRegister : Int64 :=
  32767

/-- The value of a digit token in the given radix. -/
def digit? (t : Token) (radix : Int64) : Option Int64 :=
  match t with
  | .char c k =>
    let d : Option Int64 :=
      if k = .other ∧ 48 ≤ c ∧ c ≤ 57 then some (Int64.ofInt (c - 48))
      else if radix = 16 ∧ (k = .other ∨ k = .letter) ∧ 65 ≤ c ∧ c ≤ 70 then
        some (Int64.ofInt (c - 55))
      else none
    d.filter (· < radix)
  | _ => none

namespace Expander

open Eng

/-! ## Constants -/

/-- What has been read of a constant. -/
structure Constant where
  value : Int64 := 0
  digits : Nat := 0
  tooBig : Bool := false

/-- Adds a digit; a value that gets too big stays at the largest integer. -/
def Constant.add (c : Constant) (radix d : Int64) : Constant :=
  let v := c.value * radix + d
  if v > Count.max then { value := Count.max, digits := c.digits + 1, tooBig := true }
  else { c with value := v, digits := c.digits + 1 }

/-- `Constant.add` is exact. -/
def Constant.addFits (c : Constant) (radix d : Int64) : Bool :=
  Word.mulFits c.value radix && Word.addFits (c.value * radix) d

/-- Reads digits.  The first token may have been read already; a space behind the
    digits belongs to the constant. -/
def scanRadix (x : Expander) (radix : Int64) (first : Option Token) : Eng Int64 := do
  let c ← iterate (fun (c, first) => do
    let t? ←
      match first with
      | some t => pure (some t)
      | none => x.next?
    match t? with
    | none => return .done c
    | some t =>
      match digit? t radix, ← isFrozen with
      | some d, false =>
        observe (Constant.addFits c radix d)
        return .again (Constant.add c radix d, none)
      | _, _ =>
        -- One space behind the digits belongs to the number.
        unless t.hasCat .space do push [t]
        return .done c) x.fuel (({} : Constant), first)
  if c.digits = 0 then fail .missingNumber []
  else if c.tooBig then fail .numberTooBig []
  else return c.value

/-- Reads a character constant, behind the quote. -/
def scanCharConstant (x : Expander) : Eng Int64 := do
  let t ← expect (← token?) .missingNumber []
  let c ←
    if t.isCs then
      match CharCode.ofText t.name with
      | [c] => pure c
      | _ => failAt .badCharCode t []
    else pure t.code
  x.skipOptionalSpace
  return Int64.ofInt c

/-! ## Quantities -/

/-- The meaning of a token that denotes a quantity, and the type of the
    quantity. -/
def quantity? (t : Token) : Eng (Option (Meaning × ValueKind)) := do
  if (← isFrozen) || !t.isCommand then return none
  match ← meaning? t with
  | some m => return m.kind?.map fun k => (m, k)
  | none => return none

/-- Reads something that denotes a font. -/
def scanFont (x : Expander) : Eng Font := do
  let t ← expect (← x.nextNonSpace?) .missingControlSequence []
  match ← meaning? t with
  | some (.font f) => return f
  | some (.assigner .font) => return (← env).font
  | _ =>
    push [t]
    failAt .missingControlSequence t ["font identifier expected"]

/-- An integer in the range from 0 to `max`. -/
def numberWith (int : Eng Int64) (max : Int64) : Eng Int64 := do
  let n ← int
  if n < 0 ∨ n > max then fail .badRegister [Count.text n] else return n

/-- A character code. -/
def charCodeWith (int : Eng Int64) : Eng CharCode := do
  let n ← int
  if n < 0 ∨ n.toInt > CharCode.max then fail .badCharCode [Count.text n] else return n.toInt

/-- The cell that a quantity denotes; `int` reads the numbers in its name. -/
def resolveWith (x : Expander) (int : Eng Int64) (m : Meaning) : Eng Cell := do
  match m with
  | .quantity (.parameter bank name) => return .register bank name
  | .quantity (.register bank) =>
    return .register bank (Count.text (← numberWith int maxRegister))
  | .quantity .inputLine => return .inputLine
  | .quantity .groupLevel => return .groupLevel
  | .quantity .conditionalLevel => return .conditionalLevel
  | .quantity .catcode => return .catcode (← charCodeWith int)
  | .quantity (.charCode table) => return .charCode table (← charCodeWith int)
  | .quantity .fontDimen => do
    let n ← int
    let f ← x.scanFont
    if n < 1 ∨ f = Font.null then fail .badRegister [Count.text n, "font", f.name]
    else return .fontDimen f n
  | .register bank index => return .register bank (Count.text index)
  | .charDef c => return .constant (Int64.ofInt c)
  | _ => return .constant 0

/-! ## Integers -/

/-- Reads an unsigned integer that begins with `t`. -/
def unsignedWith (x : Expander) (int : Eng Int64) (t : Token) : Eng Int64 := do
  match ← quantity? t with
  | some (_, .toks) =>
    push [t]
    failAt .missingNumber t []
  | some (m, _) => return (← (← x.resolveWith int m).read).toInt
  | none =>
    if t = .other 96 then x.scanCharConstant
    else if t = .other 39 then x.scanRadix 8 none
    else if t = .other 34 then x.scanRadix 16 none
    else if (digit? t 10).isSome then x.scanRadix 10 (some t)
    else
      push [t]
      failAt .missingNumber t []

/-- Reads a signed integer; at most `n` integers are nested. -/
def integerWithin (x : Expander) : Nat → Eng Int64
  | 0 => throw .outOfFuel
  | n + 1 => do
    let (neg, t) ← x.scanSigns
    let v ← x.unsignedWith (x.integerWithin n) t
    observe (!neg || Word.negFits v)
    return if neg then -v else v

/-- Reads a signed integer. -/
def scanInteger (x : Expander) : Eng Int64 :=
  x.integerWithin x.fuel

/-- Reads an unsigned integer that begins with `t`. -/
def scanUnsigned (x : Expander) (t : Token) : Eng Int64 :=
  x.unsignedWith x.scanInteger t

/-- Reads an integer in the range from 0 to `max`. -/
def scanNumber (x : Expander) (max : Int64) : Eng Int64 :=
  numberWith x.scanInteger max

/-- Reads a register number. -/
def scanRegisterNumber (x : Expander) : Eng Int64 :=
  x.scanNumber maxRegister

/-- Reads a character code. -/
def scanCharCode (x : Expander) : Eng CharCode :=
  charCodeWith x.scanInteger

/-- The cell that a quantity denotes. -/
def resolve (x : Expander) (m : Meaning) : Eng Cell :=
  x.resolveWith x.scanInteger m

end Expander

end TexEngine
