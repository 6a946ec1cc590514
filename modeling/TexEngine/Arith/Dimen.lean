/-
  TexEngine.Arith.Dimen

  Lengths in fixed-point arithmetic.  A length is a number of scaled points,
  65536 of which make one point.  Printing gives the shortest decimal fraction
  that scans back to the same number, and scanning rounds a decimal fraction to
  the nearest multiple of 1/65536.
-/
import TexEngine.Arith.Count

namespace TexEngine

/-- A length in scaled points. -/
abbrev Dimen := Int64

namespace Dimen

/-- Scaled points in one point. -/
def unity : Int64 := 0x10000

/-- The largest legal length. -/
def max : Dimen := 0x3FFFFFFF

/-- `d` may be stored in a register. -/
def InRange (d : Dimen) : Prop :=
  -max ≤ d ∧ d ≤ max

instance (d : Dimen) : Decidable (InRange d) :=
  inferInstanceAs (Decidable (_ ∧ _))

/-- A length of `n` points. -/
def points (n : Int64) : Dimen :=
  n * unity

/-! ## Checked operations -/

/-- Refuses lengths that are too large. -/
def check (d : Dimen) : Except ArithFault Unit :=
  if InRange d then .ok () else .error .dimenTooLarge

/-- Accepts the result of an operation if it is in range. -/
def checked (d : Dimen) : Except ArithFault Dimen :=
  if InRange d then .ok d else .error .overflow

/-- Sum of two lengths. -/
def add (d e : Dimen) : Except ArithFault Dimen :=
  checked (d + e)

/-- `n` times a length. -/
def multiply (d : Dimen) (n : Int64) : Except ArithFault Dimen :=
  let r := d * n
  if n ≠ 0 ∧ r / n ≠ d then .error .overflow else checked r

/-- A length divided by `n`, truncated towards zero. -/
def divide (d : Dimen) (n : Int64) : Except ArithFault Dimen :=
  if n = 0 then .error .divisionByZero else .ok (d / n)

/-! ## Decimal fractions -/

/-- The digits of a fraction.  `s` is ten times the part still to be written, in
    scaled points and with half a unit of the last place added; `delta` is the
    tolerance within which the written digits already scan back to the value.
    After five digits the tolerance exceeds every remainder. -/
def fractionDigits : Nat → Int64 → Int64 → List Char
  | 0, _, _ => []
  | n + 1, s, delta =>
    let s := if delta > unity then s + 0x8000 - 50000 else s
    let digit := Char.ofNat (48 + s / unity).toInt.toNat
    let s := 10 * (s % unity)
    let delta := delta * 10
    if s ≤ delta then [digit] else digit :: fractionDigits n s delta

/-- A multiple of 1/65536 as a decimal number. -/
def formatScaled (s : Int64) : String :=
  let sign := if s < 0 then "-" else ""
  let s := if s < 0 then -s else s
  sign ++ Count.text (s / unity) ++ "." ++
    String.ofList (fractionDigits 5 (10 * (s % unity) + 5) 10)

/-- The text of a length, in points. -/
def text (d : Dimen) : String :=
  formatScaled d ++ "pt"

/-- The multiple of 1/65536 nearest to the fraction with the given decimal
    digits.  At most 17 digits are significant. -/
def roundDecimals (digits : List Int64) : Int64 :=
  ((digits.take 17).foldr (fun d a => (a + d * (2 * unity)) / 10) 0 + 1) / 2

/-! ## Units -/

/-- Quotient and remainder of `x * n` by `d`. -/
def xnOverD (x n d : Int64) : Int64 × Int64 :=
  (x * n / d, x * n % d)

/-- Physical units of measure. -/
inductive PhysicalUnit where
  | point | inch | pica | centimetre | millimetre | bigPoint | didot | cicero
  deriving DecidableEq, Repr

namespace PhysicalUnit

/-- All units, in the order in which they are looked for. -/
def all : List PhysicalUnit :=
  [point, inch, pica, centimetre, millimetre, bigPoint, didot, cicero]

/-- The keyword that denotes a unit. -/
def keyword : PhysicalUnit → String
  | point => "pt"
  | inch => "in"
  | pica => "pc"
  | centimetre => "cm"
  | millimetre => "mm"
  | bigPoint => "bp"
  | didot => "dd"
  | cicero => "cc"

/-- Points in one unit, as numerator and denominator. -/
def ratio : PhysicalUnit → Int64 × Int64
  | point => (1, 1)
  | inch => (7227, 100)
  | pica => (12, 1)
  | centimetre => (7227, 254)
  | millimetre => (7227, 2540)
  | bigPoint => (7227, 7200)
  | didot => (1238, 1157)
  | cicero => (14856, 1157)

/-- The unit that a keyword denotes. -/
def ofKeyword? (kw : String) : Option PhysicalUnit :=
  all.find? (·.keyword == kw)

end PhysicalUnit

/-- Multiplies the number `integer + frac / 65536` by `num / denom`, giving an
    integer and a fraction again. -/
def convert (integer frac num denom : Int64) : Int64 × Int64 :=
  let (whole, rem) := xnOverD integer num denom
  let frac := (num * frac + unity * rem) / denom
  (whole + frac / unity, frac % unity)

/-- The length of `integer + frac / 65536` points. -/
def ofParts (integer frac : Int64) : Except ArithFault Dimen :=
  if integer ≥ 0x4000 then .error .dimenTooLarge else .ok (integer * unity + frac)

/-- The length of `integer + frac / 65536` units. -/
def scaleUnit (integer frac : Int64) (u : PhysicalUnit) : Except ArithFault Dimen :=
  let (num, denom) := u.ratio
  if num = 1 ∧ denom = 1 then ofParts integer frac
  else
    let (integer, frac) := convert integer frac num denom
    ofParts integer frac

/-- The length of `integer + frac / 65536` of the named unit. -/
def scale (integer frac : Int64) (unit : String) : Except ArithFault Dimen :=
  match PhysicalUnit.ofKeyword? unit with
  | some u => scaleUnit integer frac u
  | none => .error (.illegalUnit unit)

/-- Undoes the magnification of a number of "true" units. -/
def magnify (integer frac mag : Int64) : Except ArithFault (Int64 × Int64) :=
  if mag ≤ 0 ∨ mag > 32768 then .error (.illegalMag mag)
  else if mag = 1000 then .ok (integer, frac)
  else .ok (convert integer frac 1000 mag)

/-- `integer + frac / 65536` times the length `d`. -/
def fraction (integer frac : Int64) (d : Dimen) : Except ArithFault Dimen :=
  let v := if d < 0 then -d else d
  let r := integer * v + (xnOverD v frac unity).1
  if r > max then .error .dimenTooLarge
  else .ok (if d < 0 then -r else r)

end Dimen

end TexEngine
