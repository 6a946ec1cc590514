/-
  TexEngine.Text.Quoted

  Quoted text in diagnostics.  Printable characters stand for themselves; the
  quote and the backslash are escaped, the usual control characters have letter
  escapes, and everything else is written as a hexadecimal number of two, four
  or eight digits.
-/
import TexEngine.Text.Printable

namespace TexEngine.Text.Quoted

/-- Lower-case hexadecimal digits of `n`, padded with zeros to `width`. -/
def hex (width n : Nat) : String :=
  let ds := Nat.toDigits 16 n
  String.ofList (List.replicate (width - ds.length) '0' ++ ds)

/-- The letter escape of a control character, if it has one. -/
def letterEscape? (n : Nat) : Option Char :=
  match n with
  | 7 => some 'a'
  | 8 => some 'b'
  | 12 => some 'f'
  | 10 => some 'n'
  | 13 => some 'r'
  | 9 => some 't'
  | 11 => some 'v'
  | _ => none

/-- How `c` is written between two quote characters `quote`. -/
def char (quote c : Char) : String :=
  if c == quote || c == '\\' then String.ofList ['\\', c]
  else if isPrintable (CharCode.ofChar c) then String.singleton c
  else
    let n := c.toNat
    match letterEscape? n with
    | some e => String.ofList ['\\', e]
    | none =>
      if n < 0x20 || n == 0x7F then "\\x" ++ hex 2 n
      else if n < 0x10000 then "\\u" ++ hex 4 n
      else "\\U" ++ hex 8 n

/-- A text in double quotes. -/
def text (s : String) : String :=
  "\"" ++ String.join (s.toList.map (char '"')) ++ "\""

/-- A character in single quotes. -/
def code (c : CharCode) : String :=
  "'" ++ char '\'' c.toChar ++ "'"

end TexEngine.Text.Quoted
