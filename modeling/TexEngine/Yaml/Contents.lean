/-
  TexEngine.Yaml.Contents

  The characters of a settings file.  A byte order mark selects UTF-16 with either
  order of bytes; all other files are UTF-8.  A file is read in blocks of 512
  bytes, and nothing of a block can be used if it contains a malformed sequence or
  a character that is not allowed.  What precedes the first such block is kept,
  because a document may end there.
-/
import TexEngine.Text.Utf8

namespace TexEngine.Yaml

/-- The characters that can be read; `intact` tells whether these are all. -/
structure Contents where
  chars : List Char
  intact : Bool
  deriving DecidableEq, Repr, Inhabited

namespace Contents

/-- The size of a block, in bytes. -/
def blockSize : Nat := 512

/-- The character may occur in a file. -/
def isAllowed (c : Char) : Bool :=
  let n := c.toNat
  n == 0x9 || n == 0xA || n == 0xD || (0x20 ≤ n && n ≤ 0x7E) || n == 0x85 ||
    (0xA0 ≤ n && n != 0xFFFE && n != 0xFFFF)

/-- How a character is encoded: the number of bytes, as far as the first two bytes
    tell, and the character in these bytes. -/
structure Encoding where
  width : List UInt8 → Nat
  char? : List UInt8 → Option Char

/-! ## UTF-8 -/

/-- The number of bytes that the first byte announces. -/
def utf8Width : List UInt8 → Nat
  | [] => 1
  | b :: _ =>
    if 0xC0 ≤ b && b ≤ 0xDF then 2
    else if 0xE0 ≤ b && b ≤ 0xEF then 3
    else if 0xF0 ≤ b && b ≤ 0xF7 then 4
    else 1

/-- The well-formed sequences of Unicode. -/
def utf8 : Encoding where
  width := utf8Width
  char? bytes := (Text.Utf8.sequence? bytes).map Prod.fst

/-! ## UTF-16 -/

/-- Two bytes as a number. -/
def unit (low high : UInt8) : Nat :=
  low.toNat + 256 * high.toNat

/-- The number is the first half of a surrogate pair. -/
def isHighHalf (n : Nat) : Bool :=
  0xD800 ≤ n && n ≤ 0xDBFF

/-- The number is the second half of a surrogate pair. -/
def isLowHalf (n : Nat) : Bool :=
  0xDC00 ≤ n && n ≤ 0xDFFF

/-- The character that the units give. -/
def utf16Char? : List Nat → Option Char
  | a :: rest =>
    if isLowHalf a then none
    else if isHighHalf a then
      match rest with
      | b :: _ =>
        if isLowHalf b then some (Char.ofNat (0x10000 + (a - 0xD800) * 0x400 + (b - 0xDC00)))
        else none
      | [] => none
    else some (Char.ofNat a)
  | [] => none

/-- The units of at most four bytes. -/
def units (bigEndian : Bool) : List UInt8 → List Nat
  | a :: b :: rest =>
    let first := if bigEndian then unit b a else unit a b
    match rest with
    | c :: d :: _ => [first, if bigEndian then unit d c else unit c d]
    | _ => [first]
  | _ => []

/-- Units of two bytes in the given order. -/
def utf16 (bigEndian : Bool) : Encoding where
  width bytes :=
    match units bigEndian bytes with
    | a :: _ => if isHighHalf a then 4 else 2
    | [] => 2
  char? bytes := utf16Char? (units bigEndian bytes)

/-! ## Blocks -/

/-- Decodes bytes.  `left` bytes belong to the current block, `done` holds the
    characters of earlier blocks and `block` those of the current one, both
    reversed.  A sequence that does not fit into the block starts the next one. -/
def decodeFrom (e : Encoding) (fuel left : Nat) (done block : List Char) (bytes : List UInt8) :
    Contents :=
  match fuel, bytes with
  | 0, _ => ⟨(block ++ done).reverse, false⟩
  | _, [] => ⟨(block ++ done).reverse, true⟩
  | fuel + 1, b :: bs =>
    let width := e.width (b :: bs)
    if ((b :: bs).take width).length < width then ⟨(block ++ done).reverse, false⟩
    else if left < width then decodeFrom e fuel blockSize (block ++ done) [] (b :: bs)
    else
      match e.char? (b :: bs) with
      | some c =>
        if isAllowed c then
          decodeFrom e fuel (left - width) done (c :: block) ((b :: bs).drop width)
        else ⟨done.reverse, false⟩
      | none => ⟨done.reverse, false⟩

/-- Decodes the bytes behind a byte order mark of the given length. -/
def decode (e : Encoding) (mark : Nat) (bytes : List UInt8) : Contents :=
  decodeFrom e (2 * bytes.length + 1) (blockSize - mark) [] [] (bytes.drop mark)

/-- The characters of a file. -/
def ofBytes (bytes : List UInt8) : Contents :=
  match bytes with
  | 0xFF :: 0xFE :: _ => decode (utf16 false) 2 bytes
  | 0xFE :: 0xFF :: _ => decode (utf16 true) 2 bytes
  | 0xEF :: 0xBB :: 0xBF :: _ => decode utf8 3 bytes
  | _ => decode utf8 0 bytes

end Contents

end TexEngine.Yaml
