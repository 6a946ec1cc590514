/-
  TexEngine.Yaml.Token

  The parts of a settings file: the marks that give it its structure, properties of
  values, and scalars.
-/

namespace TexEngine.Yaml

/-- A part of a file.  The beginning and the end of a collection in block style
    have no characters of their own; they follow from the indentation. -/
inductive Token where
  | streamStart
  | streamEnd
  | version (major minor : Nat)
  | tagHandle (handle expansion : String)
  | documentStart
  | documentEnd
  | blockSequence
  | blockMapping
  | blockEnd
  | flowSequence
  | flowSequenceEnd
  | flowMapping
  | flowMappingEnd
  | blockEntry
  | flowEntry
  | key
  | value
  | reference (name : String)
  | anchor (name : String)
  | tag (handle suffix : String)
  | scalar (text : String) (plain : Bool)
  deriving DecidableEq, Repr, Inhabited

namespace Token

/-- The token is a directive. -/
def isDirective : Token → Bool
  | version _ _ => true
  | tagHandle _ _ => true
  | _ => false

/-- No value can start with the token, because a document begins or ends there. -/
def endsDocument (t : Token) : Bool :=
  t.isDirective || t == documentStart || t == documentEnd || t == streamEnd

/-- The token begins the next part of a mapping in block style, or ends it. -/
def endsBlockPart (t : Token) : Bool :=
  t == key || t == value || t == blockEnd

end Token

end TexEngine.Yaml
