/-
  TexEngine.Decimal.ByteSize

  Sizes of files in messages: three significant digits and a unit.  A unit is
  left for the next one, which is 1024 times as large, above 1000.
-/
import TexEngine.Decimal.Significant

namespace TexEngine.ByteSize

/-- The marks of the units, smallest first. -/
def marks : List String :=
  ["", "K", "M", "G", "T"]

/-- The mark and the divisor for `n` bytes, where `den` is the size of the first
    unit.  Above 1000 of the last unit the divisor grows once more, but there is
    no further mark. -/
def unitFor (n den : Nat) : List String → String × Nat
  | [] => ("", den)
  | [mark] => (mark, if n ≤ 1000 * den then den else 1024 * den)
  | mark :: rest => if n ≤ 1000 * den then (mark, den) else unitFor n (1024 * den) rest

/-- The double precision number nearest to `n`, ties to even. -/
def toDouble (n : Nat) : Nat :=
  let unit := Nat.pow 2 (n.log2 - 52)
  Decimal.roundDiv n unit * unit

/-- The text of a size.  Sums of sizes that have wrapped around may be negative;
    they are small for every unit. -/
def text (n : Int64) : String :=
  if n < 0 then "-" ++ Decimal.significantText 3 (toDouble n.toInt.natAbs) 1 ++ "B"
  else
    let bytes := toDouble n.toInt.natAbs
    let (mark, den) := unitFor bytes 1 marks
    Decimal.significantText 3 bytes den ++ mark ++ "B"

end TexEngine.ByteSize
