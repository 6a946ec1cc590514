/-
  TexEngine.Meaning.Basic

  What a control sequence or an active character can mean: a primitive, a macro,
  a character token, a character code, a register, or a font.
-/
import TexEngine.Meaning.Primitive
import TexEngine.Token.List

namespace TexEngine

/-! ## Macros -/

/-- A macro.  The pattern consists of delimiter tokens and of the parameters in
    their order; in the body, parameters stand for the arguments.  `name` is the
    name with which the macro was defined. -/
structure MacroDef where
  name : String := ""
  pattern : TokenList := []
  body : TokenList := []
  isLong : Bool := false
  isOuter : Bool := false
  isProtected : Bool := false
  deriving DecidableEq, Repr, Inhabited

namespace MacroDef

/-- Two macros do the same; their names do not matter. -/
def same (m n : MacroDef) : Bool :=
  m.isLong == n.isLong && m.isOuter == n.isOuter && m.isProtected == n.isProtected &&
    m.pattern == n.pattern && m.body == n.body

/-- The text of a macro. -/
def text (esc : Option CharCode) (m : MacroDef) : String :=
  let word (isSet : Bool) (name : String) : String :=
    if isSet then Token.escapeText esc ++ name else ""
  word m.isProtected "protected" ++ word m.isLong "long" ++ word m.isOuter "outer" ++
    (if m.isProtected || m.isLong || m.isOuter then " " else "") ++
    "macro:" ++ TokenList.format esc m.pattern ++ "->" ++ TokenList.format esc m.body

/-- The body with the arguments put in. -/
def substitute (args : List TokenList) (body : TokenList) : TokenList :=
  body.flatMap fun t =>
    match t with
    | .param k => args.getD (k - 1) []
    | t => [t]

end MacroDef

/-! ## Meanings -/

/-- The meaning of a control sequence or active character. -/
inductive Meaning where
  | expandable (p : Expandable)
  | conditional (p : CondPrimitive)
  | quantity (q : Quantity)
  | assigner (a : Assigner)
  | modifier (m : Modifier)
  | command (c : Command)
  | defined (m : MacroDef)
  | charToken (t : Token)
  | charDef (c : CharCode)
  | register (bank : Bank) (index : Int64)
  | font (f : Font)
  deriving DecidableEq, Repr, Inhabited

namespace Meaning

/-- The meaning of \relax. -/
def relax : Meaning :=
  .command .relax

/-- The name of a meaning. -/
def name : Meaning → String
  | expandable p => p.name
  | conditional p => p.name
  | quantity q => q.name
  | assigner a => a.name
  | modifier m => m.name
  | command c => c.name
  | defined m => m.name
  | charToken t => t.code.text
  | charDef c => "char" ++ toString c
  | register bank index => bank.name ++ Count.text index
  | font f => f.id

/-- Tokens with this meaning are replaced by others. -/
def isExpandable : Meaning → Bool
  | expandable _ => true
  | conditional _ => true
  | defined _ => true
  | _ => false

/-- The type of the quantity that is denoted, if any. -/
def kind? : Meaning → Option ValueKind
  | quantity q => some q.kind
  | register bank _ => some bank.kind
  | charDef _ => some .int
  | _ => none

/-- Two meanings count as the same for \ifx. -/
def same : Meaning → Meaning → Bool
  | defined m, defined n => m.same n
  | a, b => a == b

/-- A command with this meaning may follow the given modifiers. -/
def accepts (m : Meaning) (f : Modifiers) : Bool :=
  match m with
  | modifier _ => true
  | assigner a => a.isDefinition || !f.forDefinition
  | quantity _ => !f.forDefinition && !f.isImmediate
  | register _ _ => !f.forDefinition && !f.isImmediate
  | font _ => !f.forDefinition && !f.isImmediate
  | command .write => !f.forDefinition && !f.isGlobal
  | _ => false

/-! ## Primitives -/

/-- The meanings that are defined at first. -/
def primitives : List Meaning :=
  Expandable.all.map expandable ++ CondPrimitive.all.map conditional ++
    Quantity.all.map quantity ++ Assigner.all.map assigner ++ Modifier.all.map modifier ++
    Command.all.map command ++ [font Font.null]

/-- The primitives by name. -/
def primitiveTable : Std.TreeMap String Meaning :=
  Std.TreeMap.ofList (primitives.map fun m => (m.name, m))

/-- The primitive with the given name. -/
def primitive? (name : String) : Option Meaning :=
  primitiveTable[name]?

/-- The names of all primitives, in order. -/
def primitiveNames : List String :=
  primitiveTable.keys

/-- The meaning is the primitive with the given name. -/
def isPrimitive (m : Meaning) (name : String) : Bool :=
  primitive? name == some m

end Meaning

end TexEngine
