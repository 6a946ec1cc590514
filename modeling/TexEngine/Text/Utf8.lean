/-
  TexEngine.Text.Utf8

  Lenient decoding of UTF-8.  Well-formed sequences give their character; every
  byte that is not part of a well-formed sequence gives one U+FFFD.
-/
import TexEngine.Text.CharCode

namespace TexEngine.Text.Utf8

/-- The byte continues a multi-byte sequence. -/
def isTail (b : UInt8) : Bool :=
  0x80 ≤ b && b ≤ 0xBF

/-- The six payload bits of a continuation byte. -/
def tailBits (b : UInt8) : Nat :=
  b.toNat % 64

/-- The well-formed sequence at the head of the bytes, with its length.  The
    ranges of the second byte exclude overlong forms, surrogates and numbers
    beyond 0x10FFFF. -/
def sequence? : List UInt8 → Option (Char × Nat)
  | a :: rest =>
    if a < 0x80 then some (Char.ofNat a.toNat, 1)
    else match rest with
    | b :: rest =>
      if 0xC2 ≤ a && a ≤ 0xDF then
        if isTail b then some (Char.ofNat (a.toNat % 32 * 64 + tailBits b), 2) else none
      else match rest with
      | c :: rest =>
        let low : UInt8 := if a == 0xE0 then 0xA0 else if a == 0xF0 then 0x90 else 0x80
        let high : UInt8 := if a == 0xED then 0x9F else if a == 0xF4 then 0x8F else 0xBF
        if !(low ≤ b && b ≤ high && isTail c) then none
        else if 0xE0 ≤ a && a ≤ 0xEF then
          some (Char.ofNat (a.toNat % 16 * 4096 + tailBits b * 64 + tailBits c), 3)
        else match rest with
        | d :: _ =>
          if 0xF0 ≤ a && a ≤ 0xF4 && isTail d then
            some (Char.ofNat
              (a.toNat % 8 * 262144 + tailBits b * 4096 + tailBits c * 64 + tailBits d), 4)
          else none
        | [] => none
      | [] => none
    | [] => none
  | [] => none

/-- Decodes the bytes; `skip` of them are left over from the sequence before. -/
def decodeFrom (skip : Nat) : List UInt8 → List Char
  | [] => []
  | b :: bs =>
    match skip with
    | n + 1 => decodeFrom n bs
    | 0 =>
      match sequence? (b :: bs) with
      | some (c, n) => c :: decodeFrom (n - 1) bs
      | none => CharCode.replacement :: decodeFrom 0 bs

/-- The text of a byte string. -/
def decode (bytes : List UInt8) : String :=
  String.ofList (decodeFrom 0 bytes)

/-- The bytes of a text. -/
def encode (text : String) : List UInt8 :=
  text.toList.flatMap String.utf8EncodeChar

end TexEngine.Text.Utf8
