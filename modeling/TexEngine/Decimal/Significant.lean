/-
  TexEngine.Decimal.Significant

  Decimal notation of numbers given by their significant digits, and the rounding of a
  quotient to a fixed number of them.  Numbers of moderate size are written positionally,
  all others with an exponent that has a sign and at least two digits.  A value halfway
  between two candidates is rounded to the even one.
-/

namespace TexEngine.Decimal

/-! ## Layout -/

/-- A positive decimal number: `digits` without trailing zeros, the first of
    which has the weight `10 ^ exponent`. -/
structure Digits where
  digits : List Char
  exponent : Int
  deriving DecidableEq, Repr

/-- Removes zeros from the end of a list of digits. -/
def dropZeros (ds : List Char) : List Char :=
  (ds.reverse.dropWhile (· == '0')).reverse

/-- The number `n * 10 ^ unit`. -/
def Digits.ofScaled (n : Nat) (unit : Int) : Digits :=
  let ds := Nat.toDigits 10 n
  ⟨dropZeros ds, unit + (ds.length - 1 : Nat)⟩

/-- The exponent part: a sign and at least two digits. -/
def exponentText (x : Int) : String :=
  let ds := toString x.natAbs
  "e" ++ (if x < 0 then "-" else "+") ++ (if ds.length < 2 then "0" ++ ds else ds)

/-- The text of a number.  Exponents below -4 or from `limit` on are written
    out. -/
def Digits.text (limit : Int) (d : Digits) : String :=
  let n := d.digits.length
  if d.exponent < -4 ∨ d.exponent ≥ limit then
    let tail := d.digits.drop 1
    String.ofList (d.digits.take 1) ++
      (if tail.isEmpty then "" else "." ++ String.ofList tail) ++ exponentText d.exponent
  else if d.exponent < 0 then
    "0." ++ String.ofList (List.replicate (d.exponent.natAbs - 1) '0' ++ d.digits)
  else
    let whole := d.exponent.toNat + 1
    if n ≤ whole then String.ofList (d.digits ++ List.replicate (whole - n) '0')
    else String.ofList (d.digits.take whole) ++ "." ++ String.ofList (d.digits.drop whole)

/-- The weight of the first digit of `num / den`, for positive numbers. -/
def leadingExponent (num den : Nat) : Int :=
  if num ≥ den then ((Nat.toDigits 10 (num / den)).length - 1 : Nat)
  else -((Nat.toDigits 10 ((den - 1) / num)).length : Int)

/-- `10 ^ e` as numerator and denominator. -/
def powerOfTen (e : Int) : Nat × Nat :=
  if e < 0 then (1, Nat.pow 10 e.natAbs) else (Nat.pow 10 e.natAbs, 1)

/-! ## Rounding -/

/-- The integer nearest to `num / den`, ties to even. -/
def roundDiv (num den : Nat) : Nat :=
  let q := num / den
  let r := num % den
  if 2 * r > den ∨ (2 * r = den ∧ q % 2 = 1) then q + 1 else q

/-- `num / den` rounded to `places` significant digits. -/
def Digits.ofQuotient (places num den : Nat) : Digits :=
  let unit := leadingExponent num den - places + 1
  let (up, down) := powerOfTen unit
  Digits.ofScaled (roundDiv (num * down) (den * up)) unit

/-- `num / den` with `places` significant digits; zero is written as such. -/
def significantText (places num den : Nat) : String :=
  if num = 0 then "0" else (Digits.ofQuotient places num den).text places

end TexEngine.Decimal
