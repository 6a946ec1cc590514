/-
  TexEngine.Text.Base64

  Bytes as text, six bits for a character.  Text that is safe in file names has
  letters, digits, "-" and "_", without padding at the end.  Text that is read has
  "+" and "/" in place of the last two, and padding.
-/

namespace TexEngine.Text.Base64

/-- The 64 digits. -/
def alphabet : String :=
  "ABCDEFGHIJKLMNOPQRSTUVWXYZabcdefghijklmnopqrstuvwxyz0123456789-_"

/-- The digit for the last six bits of `n`. -/
def digit (n : Nat) : Char :=
  alphabet.toList.getD (n % 64) 'A'

/-- Three bytes give four digits; what is left over gives two or three. -/
def encodeChars : List UInt8 → List Char
  | a :: b :: c :: rest =>
    let n := (a.toNat * 256 + b.toNat) * 256 + c.toNat
    digit (n / 262144) :: digit (n / 4096) :: digit (n / 64) :: digit n :: encodeChars rest
  | [a, b] =>
    let n := (a.toNat * 256 + b.toNat) * 4
    [digit (n / 4096), digit (n / 64), digit n]
  | [a] => [digit (a.toNat / 4), digit (a.toNat * 16)]
  | [] => []

/-- The text of a list of bytes. -/
def encode (bytes : List UInt8) : String :=
  String.ofList (encodeChars bytes)

/-! ## Reading -/

/-- The value of a digit. -/
def value? (c : Char) : Option Nat :=
  let n := c.toNat
  if 65 ≤ n ∧ n ≤ 90 then some (n - 65)
  else if 97 ≤ n ∧ n ≤ 122 then some (n - 71)
  else if 48 ≤ n ∧ n ≤ 57 then some (n + 4)
  else if c == '+' then some 62
  else if c == '/' then some 63
  else none

/-- The bytes that a text gives.  Equals signs fill up the last four characters. -/
def decodeChars? : List Char → Option (List UInt8)
  | [] => some []
  | [a, b, '=', '='] => do
    let n := (← value? a) * 64 + (← value? b)
    return [UInt8.ofNat (n / 16)]
  | [a, b, c, '='] => do
    let n := ((← value? a) * 64 + (← value? b)) * 64 + (← value? c)
    return [UInt8.ofNat (n / 1024), UInt8.ofNat (n / 4)]
  | a :: b :: c :: d :: rest => do
    let n := (((← value? a) * 64 + (← value? b)) * 64 + (← value? c)) * 64 + (← value? d)
    return UInt8.ofNat (n / 65536) :: UInt8.ofNat (n / 256) :: UInt8.ofNat n ::
      (← decodeChars? rest)
  | _ => none

/-- The bytes that a text gives; line breaks are ignored. -/
def decode? (s : String) : Option (List UInt8) :=
  decodeChars? (s.toList.filter fun c => c != '\n' && c != '\r')

end TexEngine.Text.Base64
