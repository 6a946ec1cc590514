/-
  TexEngine.Decimal.Binary64

  Double precision numbers, given by their 64 bits.  A decimal number is read as
  the nearest of them.  Their shortest decimal form consists of the fewest
  significant digits that still lie in the interval of reals that round to the
  number, and among those of the ones nearest to it.
-/
import TexEngine.Decimal.Significant

namespace TexEngine

/-- A finite double precision number. -/
structure Binary64 where
  bits : UInt64
  deriving DecidableEq, Repr, Inhabited

namespace Binary64

/-! ## Components -/

/-- The sign bit is set. -/
def negative (x : Binary64) : Bool :=
  x.bits >>> 63 == 1

/-- The exponent field. -/
def biased (x : Binary64) : Nat :=
  ((x.bits >>> 52) &&& 0x7FF).toNat

/-- The fraction field. -/
def field (x : Binary64) : Nat :=
  (x.bits &&& 0xFFFFFFFFFFFFF).toNat

/-- The absolute value is `significand * 2 ^ scale`. -/
def significand (x : Binary64) : Nat :=
  if x.biased = 0 then x.field else x.field + 0x10000000000000

/-- The weight of the last bit of the significand. -/
def scale (x : Binary64) : Int :=
  if x.biased = 0 then -1074 else (x.biased : Int) - 1075

/-- The number is zero, of either sign. -/
def isZero (x : Binary64) : Bool :=
  x.significand == 0

/-- The number `n / 2 ^ k`, negated if `neg`.  Exact for `n < 2 ^ 53`. -/
def ofDyadic (neg : Bool) (n k : Nat) : Binary64 :=
  let sign : UInt64 := if neg then 0x8000000000000000 else 0
  if n = 0 then ⟨sign⟩
  else
    let e := n.log2
    let fraction := n <<< (52 - e) - 0x10000000000000
    ⟨sign ||| (UInt64.ofNat (e + 1023 - k) <<< 52) ||| UInt64.ofNat fraction⟩

/-! ## Reading decimals -/

/-- `2 ^ e` as numerator and denominator. -/
def powerOfTwo (e : Int) : Nat × Nat :=
  if e < 0 then (1, 1 <<< e.natAbs) else (1 <<< e.natAbs, 1)

/-- The exponent of the largest power of two that is at most `num / den`, for
    positive numbers. -/
def leadingBit (num den : Nat) : Int :=
  let guess : Int := (num.log2 : Int) - den.log2
  let (up, down) := powerOfTwo guess
  if den * up ≤ num * down then guess else guess - 1

/-- Beyond every number: the bits of infinity. -/
def infiniteBits : Nat := 0x7FF0000000000000

/-- The bits of the number nearest to `num / den`, ties to even.  Because the
    exponent field follows the fraction field, a fraction that is rounded up to a
    power of two increases the exponent. -/
def nearestBits (num den : Nat) : Nat :=
  let scale := max (leadingBit num den - 52) (-1074)
  let (up, down) := powerOfTwo scale
  (scale + 1074).toNat * 0x10000000000000 + Decimal.roundDiv (num * down) (den * up)

/-- The number nearest to `n * 10 ^ e`, negated if `neg`.  There is none if this is
    out of range.  Numbers that are far out of range, or too small, are found by
    the number of their digits. -/
def ofDecimal? (neg : Bool) (n : Nat) (e : Int) : Option Binary64 :=
  let sign : UInt64 := if neg then 0x8000000000000000 else 0
  let places : Int := ((Nat.toDigits 10 n).length : Int) + e
  if n = 0 ∨ places < -400 then some ⟨sign⟩
  else if places > 400 then none
  else
    let (up, down) := Decimal.powerOfTen e
    let bits := nearestBits (n * up) down
    if bits < infiniteBits then some ⟨sign ||| UInt64.ofNat bits⟩ else none

/-- The number without its fractional part. -/
def whole (x : Binary64) : Int :=
  let (up, down) := powerOfTwo x.scale
  let n := x.significand * up / down
  if x.negative then -(n : Int) else n

/-! ## Shortest decimal form -/

/-- The interval of reals that round to a number, in quarters of the weight of
    its last bit: lower end, value, upper end.  Below a power of two the
    neighbour is only half as far away. -/
def interval (x : Binary64) : Nat × Nat × Nat :=
  let m := 4 * x.significand
  (if x.field = 0 ∧ x.biased > 1 then m - 1 else m - 2, m, m + 2)

/-- A decimal with the unit `10 ^ unit` in the interval that is nearest to the
    value, if there is one.  It is one of the two multiples of the unit around
    the value; if both are equally near, it is the even one. -/
def nearest? (x : Binary64) (unit : Int) : Option Nat :=
  let (low, value, high) := x.interval
  let s := x.scale - 2
  let (bn, bd) := powerOfTwo s
  let (tn, td) := Decimal.powerOfTen unit
  -- a multiple `c` of the unit is compared with `b` quarters as `c * tn * bd` with `b * bn * td`
  let unitSize := tn * bd
  let size (b : Nat) : Nat := b * bn * td
  let inside (c : Nat) : Bool :=
    if x.significand % 2 = 0 then size low ≤ c * unitSize && c * unitSize ≤ size high
    else size low < c * unitSize && c * unitSize < size high
  let below := size value / unitSize
  let above := below + 1
  if inside below then
    let up := above * unitSize - size value
    let down := size value - below * unitSize
    if inside above && (up < down || (up == down && below % 2 == 1)) then some above
    else some below
  else if inside above then some above
  else none

/-- Looks for the shortest form, from `unit` on downwards. -/
def shortestFrom (x : Binary64) : Nat → Int → Decimal.Digits
  | 0, unit => Decimal.Digits.ofScaled 0 unit
  | n + 1, unit =>
    match x.nearest? unit with
    | some c => Decimal.Digits.ofScaled c unit
    | none => shortestFrom x n (unit - 1)

/-- The shortest digits of a number other than zero. -/
def shortest (x : Binary64) : Decimal.Digits :=
  let (up, down) := powerOfTwo x.scale
  shortestFrom x 20 (Decimal.leadingExponent (x.significand * up) down)

/-- The text of a number; from a million on it has an exponent. -/
def text (x : Binary64) : String :=
  (if x.negative then "-" else "") ++ (if x.isZero then "0" else x.shortest.text 6)

end Binary64

end TexEngine
