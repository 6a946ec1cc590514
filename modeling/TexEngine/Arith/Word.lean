/-
  TexEngine.Arith.Word

  Which computations with machine words are exact.  Every operation on words wraps
  around; for each function of the arithmetic there is a predicate which says,
  operation by operation, that the exact results can be held by words.

  No computation depends on these predicates.  The engine notes their values, so
  that one can say of a whole run that nothing wrapped on the way.
-/
import TexEngine.Arith.Glue

namespace TexEngine

/-! ## Single operations -/

namespace Word

/-- The number can be held by a word. -/
def holds (n : Int) : Bool :=
  -0x8000000000000000 ≤ n && n < 0x8000000000000000

/-- The sum of two words is exact. -/
def addFits (a b : Int64) : Bool :=
  holds (a.toInt + b.toInt)

/-- The product of two words is exact. -/
def mulFits (a b : Int64) : Bool :=
  holds (a.toInt * b.toInt)

/-- The quotient of two words is exact, apart from the rounding. -/
def divFits (a b : Int64) : Bool :=
  holds (a.toInt.tdiv b.toInt)

/-- The negative of a word is exact. -/
def negFits (a : Int64) : Bool :=
  holds (-a.toInt)

end Word

open Word

/-! ## Integers -/

namespace Count

/-- `multiply` is exact, with the division that checks the product. -/
def multiplyFits (a b : Int64) : Bool :=
  mulFits a b && (a == 0 || divFits (a * b) a)

end Count

/-! ## Lengths -/

namespace Dimen

/-- `multiply` is exact, with the division that checks the product. -/
def multiplyFits (d : Dimen) (n : Int64) : Bool :=
  mulFits d n && (n == 0 || divFits (d * n) n)

/-- One step of `roundDecimals` is exact: the digit `d` in front of the digits whose
    doubled value is `a`. -/
def roundStepFits (d a : Int64) : Bool :=
  mulFits 2 unity && mulFits d (2 * unity) && addFits a (d * (2 * unity)) &&
    divFits (a + d * (2 * unity)) 10

/-- All steps of `roundDecimals` are exact. -/
def roundStepsFit : List Int64 → Bool
  | [] => true
  | d :: ds =>
    roundStepsFit ds && roundStepFits d (ds.foldr (fun d a => (a + d * (2 * unity)) / 10) 0)

/-- `roundDecimals` is exact. -/
def roundFits (digits : List Int64) : Bool :=
  let sum := (digits.take 17).foldr (fun d a => (a + d * (2 * unity)) / 10) 0
  roundStepsFit (digits.take 17) && addFits sum 1 && divFits (sum + 1) 2

/-- `xnOverD` is exact. -/
def xnOverDFits (x n d : Int64) : Bool :=
  mulFits x n && divFits (x * n) d

/-- `convert` is exact. -/
def convertFits (integer frac num denom : Int64) : Bool :=
  let (whole, rem) := xnOverD integer num denom
  let scaled := num * frac + unity * rem
  xnOverDFits integer num denom && mulFits num frac && mulFits unity rem &&
    addFits (num * frac) (unity * rem) && divFits scaled denom && divFits (scaled / denom) unity &&
    addFits whole (scaled / denom / unity)

/-- The length of a number of points is exact, unless the number is too large. -/
def partsFits (integer frac : Int64) : Bool :=
  integer ≥ 0x4000 || (mulFits integer unity && addFits (integer * unity) frac)

/-- `scaleUnit` is exact. -/
def scaleUnitFits (integer frac : Int64) (u : PhysicalUnit) : Bool :=
  let (num, denom) := u.ratio
  if num = 1 ∧ denom = 1 then partsFits integer frac
  else
    convertFits integer frac num denom &&
      partsFits (convert integer frac num denom).1 (convert integer frac num denom).2

/-- `magnify` is exact. -/
def magnifyFits (integer frac mag : Int64) : Bool :=
  if mag ≤ 0 ∨ mag > 32768 then true
  else if mag = 1000 then true
  else convertFits integer frac 1000 mag

/-- `fraction` is exact. -/
def fractionFits (integer frac : Int64) (d : Dimen) : Bool :=
  let v := if d < 0 then -d else d
  let r := integer * v + (xnOverD v frac unity).1
  negFits d && mulFits integer v && xnOverDFits v frac unity &&
    addFits (integer * v) (xnOverD v frac unity).1 && negFits r

end Dimen

/-! ## Glue -/

namespace GlueComponent

/-- `add` is exact. -/
def addFits (g h : GlueComponent) : Bool :=
  g.isZero || h.isZero || g.order != h.order || Word.addFits g.value h.value

end GlueComponent

namespace Glue

/-- `add` is exact. -/
def addFits (g h : Glue) : Bool :=
  Word.addFits g.width h.width && g.stretch.addFits h.stretch && g.shrink.addFits h.shrink

/-- `negate` is exact. -/
def negateFits (g : Glue) : Bool :=
  negFits g.width && negFits g.stretch.value && negFits g.shrink.value

/-- `multiply` is exact. -/
def multiplyFits (g : Glue) (n : Int64) : Bool :=
  Dimen.multiplyFits g.width n && Dimen.multiplyFits g.stretch.value n &&
    Dimen.multiplyFits g.shrink.value n

/-- `divide` is exact. -/
def divideFits (g : Glue) (n : Int64) : Bool :=
  divFits g.width n && divFits g.stretch.value n && divFits g.shrink.value n

end Glue

end TexEngine
