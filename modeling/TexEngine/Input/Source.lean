/-
  TexEngine.Input.Source

  The stack of input streams.  Tokens are taken from the innermost stream; a
  stream that has nothing more to give is removed.  The number of pushed-back
  tokens on the whole stack is kept beside the streams.
-/
import TexEngine.Input.Stream
import TexEngine.Token.List

namespace TexEngine

/-- The input, innermost stream first. -/
structure Source where
  baseDir : String := ""
  streams : List Stream := []
  pending : Nat := 0
  deriving Repr, Inhabited

/-- The name of a stream that was opened or closed. -/
structure StreamId where
  name : String
  isFile : Bool
  deriving DecidableEq, Repr, Inhabited

/-- The outcome of reading a token: the token, or none at the end of all input,
    the remaining input, and the streams that were closed on the way. -/
structure Reading where
  result : Except Fault (Option Token)
  source : Source
  closed : List StreamId := []

namespace Source

/-! ## Positions -/

/-- The descriptions of all streams with a reader, innermost first. -/
def frames (src : Source) : List Frame :=
  src.streams.filterMap Stream.frame?

/-- The position in the innermost stream with a reader. -/
def locator (src : Source) : Locator :=
  (src.streams.findSome? Stream.locator?).getD {}

/-- The number of streams. -/
def depth (src : Source) : Nat :=
  src.streams.length

/-- Adds the streams to an error that has none yet. -/
def annotate (src : Source) : Fault → Fault
  | .tex e => .tex (e.annotate src.frames)
  | f => f

/-! ## Reading -/

/-- The identification of a stream, if it has a reader. -/
def streamId? (s : Stream) : Option StreamId :=
  s.reader.map fun r => { name := r.name, isFile := r.isFile }

/-- Reads a token from the given streams, innermost first. -/
def nextFrom (lex : Lexicon) (src : Source) (closed : List StreamId) : List Stream → Reading
  | [] => { result := .ok none, source := { src with streams := [] }, closed := closed.reverse }
  | s :: rest =>
    match s.pushed with
    | t :: ts =>
      { result := .ok (some t),
        source :=
          { src with streams := { s with pushed := ts } :: rest, pending := src.pending - 1 },
        closed := closed.reverse }
    | [] =>
      match s.read lex with
      | (.token t, s) =>
        { result := .ok (some t), source := { src with streams := s :: rest },
          closed := closed.reverse }
      | (.fault f, s) =>
        let src := { src with streams := s :: rest }
        { result := .error (src.annotate f), source := src, closed := closed.reverse }
      -- The stream is closed, and the one around it is read on.
      | (.exhausted, _) => nextFrom lex src ((streamId? s).toList ++ closed) rest

/-- Reads the next token, without expanding it. -/
def next (lex : Lexicon) (src : Source) : Reading :=
  nextFrom lex src [] src.streams

/-! ## Adding input -/

/-- Puts tokens in front of the input. -/
def push (src : Source) (ts : TokenList) : Source :=
  match ts, src.streams with
  | [], _ => src
  | ts, [] => { src with streams := [{ pushed := ts }], pending := src.pending + ts.length }
  | ts, s :: rest =>
    { src with streams := { s with pushed := ts ++ s.pushed } :: rest,
               pending := src.pending + ts.length }

/-- Puts the lines of a reader in front of the input. -/
def pushReader (src : Source) (r : Reader) : Source :=
  { src with streams := { reader := some r } :: src.streams }

/-- Puts bytes in front of the input. -/
def pushBytes (src : Source) (bytes : List UInt8) (name : String) : Source :=
  src.pushReader (Reader.ofBytes bytes name)

/-- Puts a text in front of the input. -/
def pushText (src : Source) (text name : String) : Source :=
  src.pushReader (Reader.ofText text name)

/-- Puts a file in front of the input.  The directory of the first file becomes
    the base directory, if there was none. -/
def includeFile (src : Source) (files : FileTree) (fileName : String) :
    Except Fault (Source × Reader) := do
  let r ← Reader.openFile files src.baseDir fileName
  let baseDir :=
    if src.baseDir.isEmpty then Path.dir (Path.absolute files.cwd r.path) else src.baseDir
  return ({ src with baseDir }.pushReader r, r)

/-- A file that is opened stands in front of the streams that were there. -/
theorem exists_of_includeFile {src src' : Source} {files : FileTree} {fileName : String}
    {r : Reader} (h : src.includeFile files fileName = .ok (src', r)) :
    Reader.openFile files src.baseDir fileName = .ok r ∧
      ∃ baseDir, src' = { src with baseDir }.pushReader r := by
  unfold includeFile at h
  cases hopen : Reader.openFile files src.baseDir fileName with
  | error f =>
    rw [hopen] at h
    contradiction
  | ok r' =>
    rw [hopen] at h
    obtain ⟨rfl, rfl⟩ := Prod.mk.inj (Except.ok.inj h)
    exact ⟨rfl, _, rfl⟩

/-- The innermost file ends with its current line. -/
def endInput (src : Source) : Source :=
  { src with streams := mark src.streams }
where
  /-- Marks the first stream that reads a file. -/
  mark : List Stream → List Stream
    | [] => []
    | s :: rest => if s.isFile then { s with endInput := true } :: rest else s :: mark rest

/-- Nothing but the mark is changed. -/
theorem map_mark {α : Type} {f : Stream → α} (hf : ∀ s, f { s with endInput := true } = f s)
    (streams : List Stream) : (endInput.mark streams).map f = streams.map f := by
  induction streams with
  | nil => rfl
  | cons s rest ih =>
    unfold endInput.mark
    split
    · rw [List.map_cons, List.map_cons, hf]
    · rw [List.map_cons, List.map_cons, ih]

theorem forall_mem_mark {P : Stream → Prop} (hP : ∀ s, P s → P { s with endInput := true })
    {streams : List Stream} (h : ∀ s ∈ streams, P s) : ∀ s ∈ endInput.mark streams, P s := by
  induction streams with
  | nil => exact h
  | cons s rest ih =>
    rw [List.forall_mem_cons] at h
    unfold endInput.mark
    split
    · exact List.forall_mem_cons.mpr ⟨hP s h.1, h.2⟩
    · exact List.forall_mem_cons.mpr ⟨h.1, ih h.2⟩

/-- Discards all input. -/
def close (src : Source) : Source :=
  { src with streams := [], pending := 0 }

end Source

end TexEngine
