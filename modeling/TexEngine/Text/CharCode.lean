/-
  TexEngine.Text.CharCode

  Character codes.  A code is any integer; those that are Unicode scalar values
  have a character of their own, and all others (surrogates, negative numbers,
  numbers beyond 0x10FFFF) are shown as U+FFFD when they become text.  Arithmetic
  progressions of codes are the entries of the tables of character properties.
-/

namespace TexEngine

/-- A character, given by its number.  Numbers that no character has are legal. -/
abbrev CharCode := Int

namespace CharCode

/-- The code is a Unicode scalar value. -/
def IsScalar (c : CharCode) : Prop :=
  (0 ≤ c ∧ c < 0xD800) ∨ (0xDFFF < c ∧ c < 0x110000)

instance (c : CharCode) : Decidable c.IsScalar :=
  inferInstanceAs (Decidable (_ ∨ _))

/-- The largest character code that can be written in the input. -/
def max : CharCode := 0x10FFFF

/-- The character that stands for codes without a character. -/
def replacement : Char := '\uFFFD'

/-- The character shown for a code. -/
def toChar (c : CharCode) : Char :=
  if c.IsScalar then Char.ofNat c.toNat else replacement

/-- The code of a character. -/
def ofChar (ch : Char) : CharCode :=
  ch.toNat

/-- The code that a machine word holds: the low 32 bits, with their sign. -/
def ofWord (v : Int64) : CharCode :=
  v.toInt.bmod 0x100000000

/-- The one-character text of a code. -/
def text (c : CharCode) : String :=
  String.singleton c.toChar

/-- The text of a list of codes. -/
def listText (cs : List CharCode) : String :=
  String.ofList (cs.map toChar)

/-- The codes of a text. -/
def ofText (s : String) : List CharCode :=
  s.toList.map ofChar

end CharCode

/-! ## Ranges -/

namespace Text

/-- The codes `first, first + step, ...` up to and including `last`. -/
structure CodeRange where
  first : Nat
  last : Nat
  step : Nat
  deriving Repr

/-- `c` is one of the codes of the range. -/
def CodeRange.contains (r : CodeRange) (c : CharCode) : Bool :=
  (r.first : Int) ≤ c && c ≤ (r.last : Int) && (c.toNat - r.first) % r.step == 0

end Text

end TexEngine
