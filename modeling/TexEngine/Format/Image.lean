/-
  TexEngine.Format.Image

  Formats: the state of an engine in a form that can be stored.  Meanings become
  bindings, records that only refer to primitives by name.
-/
import TexEngine.Env.Snapshot
import TexEngine.Meaning.Basic

namespace TexEngine

/-! ## Bindings -/

/-- The stored meaning of a control sequence or active character.  `kind` is 0
    for a primitive, 1 for a macro, 2 for a character token, 3 for a character
    code, 4 for a register and 5 for a font; the other fields belong to some of
    these kinds.  A font that was not written out yet shares the parameters of
    the font with the serial number `shares`. -/
structure Binding where
  kind : Int := 0
  name : String := ""
  pattern : TokenList := []
  body : TokenList := []
  isLong : Bool := false
  isOuter : Bool := false
  isProtected : Bool := false
  token : Token := .char 0 .escape
  value : Int64 := 0
  fontId : String := ""
  size : Dimen := 0
  params : FontParams := ∅
  shares : Option Nat := none

/-- Why a binding has no meaning. -/
inductive BindingFault where
  | unknownPrimitive (name : String)
  | unknownRegister (name : String)
  | unknownKind
  deriving DecidableEq, Repr

/-- The meaning can be stored: it is a macro, a character, a register or a font, or the
    primitive with its own name. -/
def Meaning.isStorable : Meaning → Bool
  | .defined _ => true
  | .charToken _ => true
  | .charDef _ => true
  | .register _ _ => true
  | .font _ => true
  | m => primitive? m.name == some m

/-- The text of a reason. -/
def BindingFault.text : BindingFault → String
  | unknownPrimitive name => "unknown primitive " ++ Text.Quoted.text name
  | unknownRegister name => "unknown register class " ++ Text.Quoted.text name
  | unknownKind => "cannot dump this meaning"

namespace Binding

/-- The stored form of a meaning that can be stored. -/
def ofMeaning (fonts : FontBook) : Meaning → Binding
  | .defined m =>
    { kind := 1, name := m.name, pattern := m.pattern, body := m.body, isLong := m.isLong,
      isOuter := m.isOuter, isProtected := m.isProtected }
  | .charToken t => { kind := 2, token := t }
  | .charDef c => { kind := 3, value := Int64.ofInt c }
  | .register bank index => { kind := 4, name := bank.name, value := index }
  | .font f =>
    if f = Font.null then { kind := 0, name := f.id }
    else
      { kind := 5, name := f.name, fontId := f.id, size := f.size, params := fonts.paramsOf f,
        shares := some f.serial }
  | m => { kind := 0, name := m.name }

/-- The stored form of a meaning, if it can be stored. -/
def ofMeaning? (fonts : FontBook) (m : Meaning) : Except BindingFault Binding :=
  if m.isStorable then .ok (ofMeaning fonts m) else .error .unknownKind

/-- The fonts loaded so far from the same image, by their names. -/
abbrev FontNames := Std.TreeMap String Font

/-- The meaning of a stored binding.  Bindings of a font with the same name refer
    to one font, the first of them decides what it is like. -/
def toMeaning (b : Binding) (fonts : FontBook) (known : FontNames) :
    Except BindingFault (Meaning × FontBook × FontNames) :=
  if b.kind = 0 then
    match Meaning.primitive? b.name with
    | some m => .ok (m, fonts, known)
    | none => .error (.unknownPrimitive b.name)
  else if b.kind = 1 then
    .ok (.defined
      { name := b.name, pattern := b.pattern, body := b.body, isLong := b.isLong,
        isOuter := b.isOuter, isProtected := b.isProtected }, fonts, known)
  else if b.kind = 2 then .ok (.charToken b.token, fonts, known)
  else if b.kind = 3 then .ok (.charDef (CharCode.ofWord b.value), fonts, known)
  else if b.kind = 4 then
    match Bank.all.find? (·.name == b.name) with
    | some bank => .ok (.register bank b.value, fonts, known)
    | none => .error (.unknownRegister b.name)
  else if b.kind = 5 then
    match known[b.fontId]? with
    | some f => .ok (.font f, fonts, known)
    | none =>
      let (f, fonts) := fonts.load b.fontId b.name b.size
      let fonts := b.params.foldl (fun fs n d => fs.setParam f n d) fonts
      .ok (.font f, fonts, known.insert b.fontId f)
  else .error .unknownKind

end Binding

/-! ## Images -/

/-- A stored state.  `identified` is false for an image without an
    identification number. -/
structure Image where
  version : Int
  identified : Bool := true
  job : String := ""
  preset : String := ""
  catcodes : Std.TreeMap Int Catcode := ∅
  tables : Std.TreeMap String (Std.TreeMap Int Int64) := ∅
  counts : Std.TreeMap String Int64 := ∅
  dimens : Std.TreeMap String Dimen := ∅
  glues : Std.TreeMap String Glue := ∅
  toks : Std.TreeMap String TokenList := ∅
  codes : Std.TreeMap String Binding := ∅
  active : Std.TreeMap Int Binding := ∅
  font : String := ""

namespace Image

/-- The version of images that can be loaded. -/
def currentVersion : Int :=
  2

/-- What is wrong with the version of an image. -/
def versionText (version : Int) : String :=
  "incompatible format version " ++ toString version ++ " (want " ++
    toString currentVersion ++ ")"

/-- Applies `f` to all bindings of a table. -/
def mapBindings {κ : Type} {cmp : κ → κ → Ordering} (f : Binding → Binding)
    (m : Std.TreeMap κ Binding cmp) : Std.TreeMap κ Binding cmp :=
  m.foldl (fun acc k b => acc.insert k (f b)) ∅

/-- The image with the present parameters of the fonts that it shares. -/
def refresh (img : Image) (fonts : FontBook) : Image :=
  let update (b : Binding) : Binding :=
    match b.shares with
    | some serial => { b with params := fonts.params.getD serial ∅ }
    | none => b
  { img with codes := mapBindings update img.codes, active := mapBindings update img.active }

end Image

end TexEngine
