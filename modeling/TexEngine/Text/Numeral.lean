/-
  TexEngine.Text.Numeral

  Integers in settings and on the command line: an optional sign, and digits
  that are binary after "0b", octal after "0o" or "0", hexadecimal after "0x",
  and decimal otherwise.
-/

namespace TexEngine.Text.Numeral

/-- The value of a digit. -/
def digit? (base : Nat) (c : Char) : Option Nat :=
  let n := c.toNat
  let d :=
    if 48 ≤ n ∧ n ≤ 57 then n - 48
    else if 97 ≤ n ∧ n ≤ 122 then n - 87
    else if 65 ≤ n ∧ n ≤ 90 then n - 55
    else base
  if d < base then some d else none

/-- The number with the given digits. -/
def value? (base : Nat) (digits : List Char) : Option Nat :=
  digits.foldlM (fun n c => (digit? base c).map (base * n + ·)) 0

/-- The base that an unsigned text announces, and the digits that follow. -/
def announced : List Char → Nat × List Char
  | '0' :: c :: d :: ds =>
    if c == 'b' || c == 'B' then (2, d :: ds)
    else if c == 'o' || c == 'O' then (8, d :: ds)
    else if c == 'x' || c == 'X' then (16, d :: ds)
    else (8, c :: d :: ds)
  | '0' :: ds => (8, ds)
  | ds => (10, ds)

/-- The number that an unsigned text denotes. -/
def magnitude? (cs : List Char) : Option Nat :=
  if cs.isEmpty then none
  else
    let (base, ds) := announced cs
    value? base ds

/-- Takes a sign off; the first part tells whether it was a minus sign. -/
def sign : List Char → Bool × List Char
  | '-' :: cs => (true, cs)
  | '+' :: cs => (false, cs)
  | cs => (false, cs)

/-- The number `n`, negated if `negative`. -/
def signed (negative : Bool) (n : Nat) : Int :=
  if negative then -(n : Int) else n

/-- The integer that a text denotes. -/
def literal? (cs : List Char) : Option Int :=
  let (negative, ds) := sign cs
  (magnitude? ds).map (signed negative)

/-! ## Words -/

/-- The smallest integer of 64 bits. -/
def wordMin : Int := -0x8000000000000000

/-- The largest integer of 64 bits. -/
def wordMax : Int := 0x7FFFFFFFFFFFFFFF

/-- The largest natural number of 64 bits. -/
def unsignedMax : Int := 0xFFFFFFFFFFFFFFFF

/-- Why a text is no integer of 64 bits. -/
inductive WordFault where
  | noNumber
  | outOfRange
  deriving DecidableEq, Repr

/-! ## Separators -/

/-- Every underscore stands between two digits, where `digit` tells whether a digit
    is in front; a base that is announced counts as one. -/
def separatorsFit (isDigit : Char → Bool) (digit : Bool) : List Char → Bool
  | [] => true
  | '_' :: rest => digit && rest.head?.any isDigit && separatorsFit isDigit false rest
  | c :: rest => separatorsFit isDigit (isDigit c) rest

/-- The integer of 64 bits that a text denotes, in which underscores may separate
    digits.  Once the digits exceed what 64 bits can hold, it does not matter what
    follows them. -/
def word (s : String) : Except WordFault Int :=
  let (negative, cs) := sign s.toList
  let (base, ds) := announced cs
  let (numeric, rest) := ds.span fun c => c == '_' || (digit? base c).isSome
  let n := signed negative ((value? base (numeric.filter (· != '_'))).getD 0)
  let fits := separatorsFit (fun c => (digit? base c).isSome) (base != 10) ds
  if n.natAbs > unsignedMax.toNat then .error .outOfRange
  else if cs.isEmpty || !rest.isEmpty || !fits then .error .noNumber
  else if wordMin ≤ n ∧ n ≤ wordMax then .ok n
  else .error .outOfRange

end TexEngine.Text.Numeral
