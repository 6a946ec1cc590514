/-
  TexEngine.Token.Basic

  Tokens, the lexical units of the engine: character tokens, which keep the
  category their character had when it was read, control sequences, and
  references to macro parameters.

  The frozen \relax is a control sequence of its own: it is inserted by the
  engine to end an interrupted test, it always means \relax, and it differs from
  the control sequence that has this name.
-/
import TexEngine.Text.Letters
import TexEngine.Token.Catcode

namespace TexEngine

/-- A lexical unit. -/
inductive Token where
  | char (code : CharCode) (cat : Catcode)
  | cs (name : String)
  | frozenRelax
  | param (index : Nat)
  deriving DecidableEq, Repr, Inhabited

namespace Token

/-! ## Constructors for common tokens -/

/-- The token that stands for blank space. -/
def space : Token :=
  .char 32 .space

/-- A character of category letter. -/
def letter (c : CharCode) : Token :=
  .char c .letter

/-- A character of category other. -/
def other (c : CharCode) : Token :=
  .char c .other

/-! ## Components -/

/-- The character of a character token; all other tokens have character 0. -/
def code : Token → CharCode
  | char c _ => c
  | _ => 0

/-- The category of a character token; all other tokens count as escape. -/
def cat : Token → Catcode
  | char _ k => k
  | _ => .escape

/-- The name of a control sequence; all other tokens have an empty name. -/
def name : Token → String
  | cs n => n
  | frozenRelax => "relax"
  | _ => ""

/-! ## Classification -/

/-- The token is a character token. -/
def isChar : Token → Bool
  | char _ _ => true
  | _ => false

/-- The token is a control sequence. -/
def isCs : Token → Bool
  | cs _ => true
  | frozenRelax => true
  | _ => false

/-- The token is an active character. -/
def isActive : Token → Bool
  | char _ .active => true
  | _ => false

/-- The token has a meaning that is looked up. -/
def isCommand (t : Token) : Bool :=
  t.isCs || t.isActive

/-- The token is a macro parameter. -/
def isParam : Token → Bool
  | param _ => true
  | _ => false

/-- The token is a character of the given category. -/
def hasCat (t : Token) (k : Catcode) : Bool :=
  match t with
  | char _ k' => k' == k
  | _ => false

/-- The token is the character `c` of category other. -/
def isOther (t : Token) (c : Char) : Bool :=
  t == other (CharCode.ofChar c)

/-! ## Text -/

/-- The name under which a definition is recorded: the name of a control
    sequence, or the character if it is active. -/
def definedName (t : Token) : String :=
  if t.isActive then t.code.text else t.name

/-- The text of an escape character, which may be missing. -/
def escapeText (esc : Option CharCode) : String :=
  match esc with
  | some c => c.text
  | none => ""

/-- The text of a token, with `esc` in front of control sequence names. -/
def format (esc : Option CharCode) : Token → String
  | char c _ => c.text
  | cs n => escapeText esc ++ n
  | frozenRelax => escapeText esc ++ "relax"
  | param n => "#" ++ toString n

/-- The usual escape character. -/
def backslash : CharCode :=
  92

/-- The text of a token in diagnostics. -/
def text (t : Token) : String :=
  t.format (some backslash)

/-- In a list, a control sequence is followed by a blank, unless its name is a
    single character that is not a letter. -/
def needsSpace (t : Token) : Bool :=
  match t.name.toList with
  | [c] => Text.isLetter (CharCode.ofChar c)
  | _ => true

end Token

end TexEngine
