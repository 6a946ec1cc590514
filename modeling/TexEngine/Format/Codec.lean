/-
  TexEngine.Format.Codec

  Images as text.  Reading gives an image back, or tells whether the text is
  damaged or belongs to another version.
-/
import TexEngine.Format.Image
import TexEngine.Format.Packed

namespace TexEngine

namespace Packed

instance : Packed Glue where
  pack g :=
    pack g.width ++ pack g.stretch.value ++ pack g.stretch.order ++ pack g.shrink.value ++
      pack g.shrink.order
  unpack := do
    return { width := ← unpack, stretch := ⟨← unpack, ← unpack⟩, shrink := ⟨← unpack, ← unpack⟩ }

instance : Packed Binding where
  pack b :=
    pack b.kind ++ pack b.name ++ pack b.pattern ++ pack b.body ++ pack b.isLong ++
      pack b.isOuter ++ pack b.isProtected ++ pack b.token ++ pack b.value ++ pack b.fontId ++
      pack b.size ++ pack b.params
  unpack := do
    return {
      kind := ← unpack
      name := ← unpack
      pattern := ← unpack
      body := ← unpack
      isLong := ← unpack
      isOuter := ← unpack
      isProtected := ← unpack
      token := ← unpack
      value := ← unpack
      fontId := ← unpack
      size := ← unpack
      params := ← unpack }

instance : Packed Image where
  pack img :=
    pack img.version ++ pack img.identified ++ pack img.job ++ pack img.preset ++
      pack img.catcodes ++ pack img.tables ++ pack img.counts ++ pack img.dimens ++
      pack img.glues ++ pack img.toks ++ pack img.codes ++ pack img.active ++ pack img.font
  unpack := do
    return {
      version := ← unpack
      identified := ← unpack
      job := ← unpack
      preset := ← unpack
      catcodes := ← unpack
      tables := ← unpack
      counts := ← unpack
      dimens := ← unpack
      glues := ← unpack
      toks := ← unpack
      codes := ← unpack
      active := ← unpack
      font := ← unpack }

end Packed

/-- Why a text does not give an image.  What is no image is taken for a message that
    begins with its length, followed by the number of its type. -/
inductive CodecFault where
  | missing
  | truncated
  | badLength
  | repeatedType
  | unknownType
  | damaged
  | wrongVersion (version : Int)
  deriving DecidableEq, Repr

namespace CodecFault

/-- The text of a reason. -/
def text : CodecFault → String
  | missing => "EOF"
  | truncated => "unexpected EOF"
  | badLength => "gob: encoded unsigned integer out of range"
  | repeatedType => "gob: duplicate type received"
  | unknownType => "gob: unknown type id or corrupted data"
  | damaged => "damaged format file"
  | wrongVersion version => Image.versionText version

/-- The reason why bytes are no image. -/
def ofBytes : List UInt8 → CodecFault
  | [] => missing
  | length :: body =>
    if length == 0 then missing
    else if length ≥ 0x80 then badLength
    else if body.length < length.toNat then truncated
    else
      match body with
      | [] => truncated
      | type :: _ =>
        if type ≥ 0x7F then damaged
        else if type % 2 == 1 then repeatedType
        else if type ≥ 0x30 then unknownType
        else damaged

end CodecFault

namespace Image

/-- The first field of every image. -/
def signature : String :=
  "format"

/-- The text of an image. -/
def encode (img : Image) : String :=
  Fields.text (signature :: pack img)

/-- The image of a text.  Only images of the current version are accepted. -/
def decode (s : String) : Except CodecFault Image :=
  match Fields.ofText? s with
  | some (first :: fields) =>
    if first != signature then .error (CodecFault.ofBytes s.toUTF8.toList)
    else
      match (unpack : Unpack Image) fields with
      | some (img, _) =>
        if img.version = currentVersion then .ok img else .error (.wrongVersion img.version)
      | none => .error .damaged
  | _ => .error (CodecFault.ofBytes s.toUTF8.toList)

end Image

end TexEngine
