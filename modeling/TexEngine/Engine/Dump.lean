/-
  TexEngine.Engine.Dump

  Turning the state of a machine into a format image, and back.  Primitives that
  still have their meaning are not stored, and a meaning that has no place in a format
  cannot be stored.  Loading decodes all bindings before it changes anything.
-/
import TexEngine.Engine.Machine

namespace TexEngine

namespace Image

/-- The stored form of the meanings in a table, without those that need not be stored;
    `label` names the place of a meaning that cannot be stored. -/
def bindings? {κ : Type} {cmp : κ → κ → Ordering} (label : κ → String) (skip : κ → Meaning → Bool)
    (fonts : FontBook) (meanings : Std.TreeMap κ Meaning cmp) :
    Except Fault (Std.TreeMap κ Binding cmp) :=
  meanings.foldlM (fun acc k m =>
    if skip k m then .ok acc
    else
      match Binding.ofMeaning? fonts m with
      | .ok b => .ok (acc.insert k b)
      | .error reason => .error (.failure (label k ++ ": " ++ reason.text))) ∅

/-- The image of a snapshot whose meanings have these stored forms. -/
def withBindings (job : String) (s : Snapshot Meaning) (codes : Std.TreeMap String Binding)
    (active : Std.TreeMap Int Binding) : Image :=
  { version := currentVersion, job, preset := s.preset, catcodes := s.catcodes,
    tables := Std.TreeMap.ofList (CodeTable.all.map fun t => (t.text, s.tables t)),
    counts := s.counts, dimens := s.dimens, glues := s.glues, toks := s.toks,
    codes, active, font := (s.font.filter (· ≠ Font.null)).elim "" Font.id }

/-- The image of a snapshot.  Primitives that still have their meaning need not be stored. -/
def ofSnapshot? (job : String) (fonts : FontBook) (s : Snapshot Meaning) : Except Fault Image := do
  let codes ← bindings? (fun name => "\\" ++ name) (fun name m => m.isPrimitive name) fonts s.codes
  let active ←
    bindings? (fun c => "active " ++ Text.Quoted.code c) (fun _ _ => false) fonts s.active
  return withBindings job s codes active

/-- Bindings that are being decoded: the meanings found, and the fonts. -/
structure Decoding (κ : Type) (cmp : κ → κ → Ordering) where
  meanings : Std.TreeMap κ Meaning cmp := ∅
  fonts : FontBook
  known : Binding.FontNames

/-- Decodes bindings one after the other; `label` names the place of a binding
    that has no meaning. -/
def decodeBindings {κ : Type} {cmp : κ → κ → Ordering} (label : κ → String) (fonts : FontBook)
    (known : Binding.FontNames) (bs : Std.TreeMap κ Binding cmp) :
    Except Fault (Decoding κ cmp) :=
  bs.foldlM (fun d k b =>
    match b.toMeaning d.fonts d.known with
    | .ok (m, fonts, known) => .ok { meanings := d.meanings.insert k m, fonts, known }
    | .error reason => .error (.failure (label k ++ ": " ++ reason.text)))
    { fonts, known }

/-- The snapshot of an image, and the fonts it needs. -/
def toSnapshot (img : Image) (fonts : FontBook) : Except Fault (Snapshot Meaning × FontBook) := do
  let codes ← decodeBindings (fun name => "\\" ++ name) fonts ∅ img.codes
  let active ←
    decodeBindings (fun c => "active " ++ Text.Quoted.code c) codes.fonts codes.known img.active
  return ({ preset := img.preset, catcodes := img.catcodes,
            tables := fun t => img.tables.getD t.text ∅,
            counts := img.counts, dimens := img.dimens, glues := img.glues, toks := img.toks,
            codes := codes.meanings, active := active.meanings,
            font := if img.font.isEmpty then none else active.known[img.font]? },
          active.fonts)

end Image

namespace Machine

/-- The job name of a machine that was not given any. -/
def defaultJobName : String :=
  "texput"

/-- The machine that an image turns `m` into.  The job name of the image is used
    if the machine has none. -/
def load (m : Machine) (img : Image) : Except Fault Machine := do
  let (snapshot, fonts) ← img.toSnapshot m.env.fonts
  let env ← m.env.restoreSnapshot snapshot
  return { m with
    env := { env with fonts }
    jobName :=
      if !img.job.isEmpty && m.jobName == defaultJobName then img.job else m.jobName }

end Machine

namespace Eng

/-- The image of the current state. -/
def dump : Eng Image := do
  let m ← get
  match m.env.snapshot with
  | .error f => throw f
  | .ok s =>
    match Image.ofSnapshot? m.jobName m.env.fonts s with
    | .error f => throw f
    | .ok img =>
      trace .info .engine fun _ =>
        "dumped format ID: " ++ toString img.codes.size ++ " control sequences"
      return img

/-- Replaces the current state by that of an image. -/
def undump (img : Image) : Eng Unit := do
  match (← get).load img with
  | .error f => throw f
  | .ok m =>
    set m
    trace .info .engine fun _ => "loaded format ID (" ++ img.job ++ ")"

end Eng

end TexEngine
