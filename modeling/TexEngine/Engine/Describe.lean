/-
  TexEngine.Engine.Describe

  The descriptions of tokens and meanings that \meaning, \string and \show give.
-/
import TexEngine.Engine.Machine

namespace TexEngine

/-- What characters of a category are called. -/
def Catcode.description : Catcode → String
  | .beginGroup => "begin-group character "
  | .endGroup => "end-group character "
  | .mathShift => "math shift character "
  | .alignmentTab => "alignment tab character "
  | .parameter => "macro parameter character "
  | .superscript => "superscript character "
  | .subscript => "subscript character "
  | .space => "blank space "
  | .letter => "the letter "
  | _ => "the character "

/-- The description of a character token. -/
def Token.description (t : Token) : String :=
  t.cat.description ++ t.code.text

/-- A character code in capital hexadecimal digits. -/
def CharCode.hexText (c : CharCode) : String :=
  let digits := String.ofList ((Nat.toDigits 16 c.natAbs).map Char.toUpper)
  if c < 0 then "-" ++ digits else digits

/-- The description of a meaning. -/
def Meaning.description (esc : Option CharCode) : Meaning → String
  | .defined m => m.text esc
  | .charToken t => t.description
  | .charDef c => Token.escapeText esc ++ "char\"" ++ c.hexText
  | .font f => "select font " ++ f.fullName
  | m => Token.escapeText esc ++ m.name

namespace Eng

/-- The description of a token. -/
def describe (t : Token) : Eng String := do
  if t.isCommand then
    match ← meaning? t with
    | none => return "undefined"
    | some m => return m.description (← env).escapeChar
  else return t.description

/-- A token turned into characters. -/
def stringTokens (t : Token) : Eng TokenList := do
  if t.isCs then return TokenList.ofText (← showToken t)
  else if t.code = 32 then return [.space]
  else return [.other t.code]

end Eng

end TexEngine
