/-
  TexEngine.Token.List

  Token lists: the bodies of macros and the contents of token registers.
-/
import TexEngine.Token.Basic

namespace TexEngine

/-- A sequence of tokens. -/
abbrev TokenList := List Token

namespace TokenList

/-- How a token is shown in a list: control sequences are followed by a blank
    where needed, and parameter characters are doubled. -/
def formatItem (esc : Option CharCode) (t : Token) : String :=
  match t with
  | .char c .parameter => c.text ++ c.text
  | .char c _ => c.text
  | .param n => "#" ++ toString n
  | _ => if t.needsSpace then t.format esc ++ " " else t.format esc

/-- The text of a token list. -/
def format (esc : Option CharCode) (ts : TokenList) : String :=
  String.join (ts.map (formatItem esc))

/-- The text of a token list in diagnostics. -/
def text (ts : TokenList) : String :=
  format (some Token.backslash) ts

/-- The texts of the tokens, one after the other. -/
def plain (esc : Option CharCode) (ts : TokenList) : String :=
  String.join (ts.map (Token.format esc))

/-- The token that a character becomes when text is turned into tokens. -/
def ofChar (c : Char) : Token :=
  if c == ' ' then Token.space else Token.other (CharCode.ofChar c)

/-- The tokens of a text: blanks become space tokens, everything else has
    category other. -/
def ofText (s : String) : TokenList :=
  s.toList.map ofChar

end TokenList

end TexEngine
