/-
  TexEngine.Arith.Count

  Integer arithmetic.  Registers are 64-bit words and every operation wraps; the
  checked operations below refuse results outside of the range that a register
  may hold, so that no stored value can wrap.
-/

namespace TexEngine

/-- Why an arithmetic operation has no result. -/
inductive ArithFault where
  | overflow
  | divisionByZero
  | dimenTooLarge
  | illegalUnit (unit : String)
  | illegalMag (mag : Int64)
  deriving DecidableEq, Repr

namespace Count

/-- The largest legal integer. -/
def max : Int64 := 0x7FFFFFFF

/-- `n` may be stored in a register. -/
def InRange (n : Int64) : Prop :=
  -max ≤ n ∧ n ≤ max

instance (n : Int64) : Decidable (InRange n) :=
  inferInstanceAs (Decidable (_ ∧ _))

/-- Accepts the result of an operation if it is in range. -/
def checked (n : Int64) : Except ArithFault Int64 :=
  if InRange n then .ok n else .error .overflow

/-- Sum of two integers. -/
def add (a b : Int64) : Except ArithFault Int64 :=
  checked (a + b)

/-- Product of two integers.  Dividing the product by a factor shows whether the
    multiplication wrapped. -/
def multiply (a b : Int64) : Except ArithFault Int64 :=
  let r := a * b
  if a ≠ 0 ∧ r / a ≠ b then .error .overflow else checked r

/-- Quotient of two integers, truncated towards zero. -/
def divide (a b : Int64) : Except ArithFault Int64 :=
  if b = 0 then .error .divisionByZero else .ok (a / b)

/-- Decimal text of an integer. -/
def text (n : Int64) : String :=
  toString n.toInt

/-! ## Roman numerals -/

/-- Symbols with their values, larger ones first. -/
def romanSymbols : List (Nat × String) :=
  [(1000, "m"), (900, "cm"), (500, "d"), (400, "cd"), (100, "c"), (90, "xc"), (50, "l"),
   (40, "xl"), (10, "x"), (9, "ix"), (5, "v"), (4, "iv"), (1, "i")]

/-- Writes a symbol and takes its value from `n`, as long as it fits, and gives what is left.
    A symbol without a value would fit for ever; there is none. -/
def romanRepeat (value : Nat) (symbol : String) (n : Nat) : String × Nat :=
  if _h : 0 < value ∧ value ≤ n then
    let (text, left) := romanRepeat value symbol (n - value)
    (symbol ++ text, left)
  else ("", n)
termination_by n

/-- Writes `n` with the given symbols, each as long as it fits. -/
def romanFrom : List (Nat × String) → Nat → String
  | [], _ => ""
  | (value, symbol) :: rest, n =>
    let (text, left) := romanRepeat value symbol n
    text ++ romanFrom rest left

/-- The small roman numeral of `n`; numbers below 1 have none. -/
def roman (n : Int64) : String :=
  romanFrom romanSymbols n.toInt.toNat

end Count

end TexEngine
