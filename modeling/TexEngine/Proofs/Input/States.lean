/-
  TexEngine.Proofs.Input.States

  The states of the input.  They are what the operations of `Source` lead to, beginning
  without streams: tokens are read and put back, texts and files are opened, the innermost
  file is told to end, and all input is discarded.

  In all of them the count of pushed-back tokens is exact, and what is no file can be read.
  Files may turn out to be unreadable; reading fails only on their account.
-/
import Mathlib.Algebra.GroupWithZero.Nat
import TexEngine.Proofs.Input.Reads

namespace TexEngine

/-- The lines of a stream can be read. -/
def Stream.Readable (s : Stream) : Prop :=
  ∀ r ∈ s.reader, r.failure? = none

namespace Source

/-- The states that the operations lead to. -/
inductive Reached : Source → Prop where
  | empty (baseDir : String) : Reached { baseDir }
  | next {src : Source} (h : Reached src) (lex : Lexicon) : Reached (src.next lex).source
  | push {src : Source} (h : Reached src) (ts : TokenList) : Reached (src.push ts)
  | pushBytes {src : Source} (h : Reached src) (bytes : List UInt8) (name : String) :
      Reached (src.pushBytes bytes name)
  | includeFile {src src' : Source} (h : Reached src) {files : FileTree} {fileName : String}
      {r : Reader} (hopen : src.includeFile files fileName = .ok (src', r)) : Reached src'
  | endInput {src : Source} (h : Reached src) : Reached src.endInput
  | close {src : Source} (h : Reached src) : Reached src.close

theorem Reached.pushText {src : Source} (h : Reached src) (text name : String) :
    Reached (src.pushText text name) :=
  h.pushBytes (Text.Utf8.encode text) name

/-- How many tokens were pushed back to streams. -/
def pushedTokens (streams : List Stream) : Nat :=
  (streams.map fun s => s.pushed.length).sum

@[simp] theorem pushedTokens_nil : pushedTokens [] = 0 := rfl

@[simp] theorem pushedTokens_cons (s : Stream) (streams : List Stream) :
    pushedTokens (s :: streams) = s.pushed.length + pushedTokens streams :=
  List.sum_cons

/-- The count of pushed-back tokens is exact, and what is no file can be read. -/
structure Sound (src : Source) : Prop where
  pending : src.pending = pushedTokens src.streams
  texts : ∀ s ∈ src.streams, s.isFile = false → s.Readable

end Source

/-! ## Readings -/

namespace Stream

variable {lex : Lexicon} {s s' : Stream} {result : StreamResult}

theorem isFile_of_later {r r' : Reader} {n : Nat} (hreader : s.reader = some r)
    (hnext : r.Later n r') (hreader' : s'.reader = some r') : s'.isFile = s.isFile := by
  simp only [isFile, hreader, hreader', Reader.isFile, hnext.path]

theorem readable_of_later {r r' : Reader} {n : Nat} {cursor : Cursor} (hreader : s.reader = some r)
    (hnext : r.Later n r') (h : s.Readable) : Readable { s with reader := some r', cursor } := by
  rintro _ ⟨⟩
  exact hnext.failure.trans (h r hreader)

/-- A stream that gives a lexeme keeps its pushed-back tokens and its kind, and can be read
    again if it could be read. -/
theorem Reads.keeps (h : Reads lex s result s') (hresult : result ≠ .exhausted) :
    s'.pushed = s.pushed ∧ s'.isFile = s.isFile ∧ (s.Readable → s'.Readable) := by
  cases h with
  | sameLine => exact ⟨rfl, rfl, id⟩
  | @laterLine x cur r r' skipped lines line hline hend hreader hlines hskipped hread hnext =>
    exact ⟨rfl, isFile_of_later hreader hnext rfl, readable_of_later hreader hnext⟩
  | exhausted => contradiction
  | @failed message cur r r' hline hend hreader hfailure hnext =>
    exact ⟨rfl, isFile_of_later hreader hnext rfl, readable_of_later hreader hnext⟩

/-- Only a stream that cannot be read fails. -/
theorem Reads.exists_resultOf (h : Reads lex s result s') (hs : s.Readable)
    (hresult : result ≠ .exhausted) : ∃ x, result = resultOf (some x) := by
  cases h with
  | sameLine => exact ⟨_, rfl⟩
  | laterLine => exact ⟨_, rfl⟩
  | exhausted => contradiction
  | failed hline hend hreader hfailure => nomatch (hs _ hreader).symm.trans hfailure

end Stream

namespace Source

variable {src : Source}

/-- Whatever holds of all streams that are read, and is kept by them, holds of all streams
    behind a reading. -/
theorem forall_nextFrom {P : Stream → Prop} (lex : Lexicon)
    (hpop : ∀ s t ts, P s → s.pushed = t :: ts → P { s with pushed := ts })
    (hread : ∀ s result s', P s → s.read lex = (result, s') → result ≠ .exhausted → P s')
    (src : Source) (closed : List StreamId) (streams : List Stream)
    (h : ∀ s ∈ streams, P s) : ∀ s ∈ (nextFrom lex src closed streams).source.streams, P s := by
  fun_induction nextFrom lex src closed streams with
  | case1 closed => exact fun _ hs => nomatch hs
  | case2 closed s rest t ts hpushed =>
    rw [List.forall_mem_cons] at h
    exact List.forall_mem_cons.mpr ⟨hpop s t ts h.1 hpushed, h.2⟩
  | case3 closed s rest hpushed t s' hs' =>
    rw [List.forall_mem_cons] at h
    exact List.forall_mem_cons.mpr ⟨hread s _ s' h.1 hs' nofun, h.2⟩
  | case4 closed s rest hpushed f s' hs' src' =>
    rw [List.forall_mem_cons] at h
    exact List.forall_mem_cons.mpr ⟨hread s _ s' h.1 hs' nofun, h.2⟩
  | case5 closed s rest hpushed s' hs' ih => exact ih (List.forall_mem_cons.mp h).2

/-- A pushed-back token that is read is counted off. -/
theorem pending_nextFrom (lex : Lexicon) (src : Source) (closed : List StreamId)
    (streams : List Stream) (h : src.pending = pushedTokens streams) :
    (nextFrom lex src closed streams).source.pending =
      pushedTokens (nextFrom lex src closed streams).source.streams := by
  fun_induction nextFrom lex src closed streams with
  | case1 closed => exact h
  | case2 closed s rest t ts hpushed =>
    rw [pushedTokens_cons, hpushed, List.length_cons] at h
    dsimp only
    rw [pushedTokens_cons, h]
    dsimp only
    omega
  | case3 closed s rest hpushed t s' hs' =>
    have hreads := Stream.reads_of_read hs'
    dsimp only
    rw [h, pushedTokens_cons, pushedTokens_cons, (hreads.keeps nofun).1]
  | case4 closed s rest hpushed f s' hs' src' =>
    have hreads := Stream.reads_of_read hs'
    show src.pending = pushedTokens (s' :: rest)
    rw [h, pushedTokens_cons, pushedTokens_cons, (hreads.keeps nofun).1]
  | case5 closed s rest hpushed s' hs' ih =>
    -- A stream is closed only when all of its pushed-back tokens are read.
    rw [pushedTokens_cons, hpushed, List.length_nil, Nat.zero_add] at h
    exact ih h

theorem Sound.next (h : src.Sound) (lex : Lexicon) : (src.next lex).source.Sound where
  pending := pending_nextFrom lex src [] src.streams h.pending
  texts := by
    refine forall_nextFrom lex (fun s t ts hs _ => hs) ?_ src [] src.streams h.texts
    intro s result s' hs hread hresult
    have hreads := Stream.reads_of_read hread
    obtain ⟨-, hfile, hreadable⟩ := hreads.keeps hresult
    exact fun htext => hreadable (hs (hfile ▸ htext))

/-! ## The other operations -/

theorem Sound.push (h : src.Sound) (ts : TokenList) : (src.push ts).Sound := by
  cases ts with
  | nil => exact h
  | cons t ts =>
    obtain ⟨baseDir, streams, pending⟩ := src
    cases streams with
    | nil =>
      refine ⟨?_, ?_⟩
      · show pending + _ = _
        rw [show pending = 0 from h.pending]
        simp [Source.push]
      · rintro s hs -
        rw [List.mem_singleton.mp hs]
        exact nofun
    | cons s rest =>
      refine ⟨?_, ?_⟩
      · show pending + _ = pushedTokens ({ s with pushed := t :: ts ++ s.pushed } :: rest)
        rw [show pending = pushedTokens (s :: rest) from h.pending]
        simp only [pushedTokens_cons, List.length_append]
        omega
      · have hall := List.forall_mem_cons.mp h.texts
        exact List.forall_mem_cons.mpr ⟨hall.1, hall.2⟩

theorem Sound.pushReader (h : src.Sound) {r : Reader}
    (hr : r.isFile = false → r.failure? = none) : (src.pushReader r).Sound where
  pending := by
    rw [Source.pushReader]
    dsimp only
    rw [pushedTokens_cons, h.pending]
    exact (Nat.zero_add _).symm
  texts := by
    refine List.forall_mem_cons.mpr ⟨?_, h.texts⟩
    rintro hfile _ ⟨⟩
    exact hr hfile

/-- The name of a file that is found is not empty. -/
theorem path_ne_of_find {files : FileTree} {baseDir fileName path : String}
    (h : Reader.find files baseDir fileName = .ok path) : path.isEmpty = false := by
  unfold Reader.find at h
  dsimp only at h
  split at h
  · rename_i entry hstat
    obtain rfl := Except.ok.inj h
    rw [Bool.eq_false_iff]
    intro hempty
    -- An empty name cannot be looked up.
    rw [String.isEmpty_iff.mp hempty] at hstat
    have hnone : files.stat "" = .error .notExist := rfl
    rw [hnone] at hstat
    contradiction
  · split at h
    · obtain rfl := Except.ok.inj h
      simp [Reader.defaultExtension]
    · contradiction

theorem isFile_of_openFile {files : FileTree} {baseDir fileName : String} {r : Reader}
    (h : Reader.openFile files baseDir fileName = .ok r) : r.isFile = true := by
  unfold Reader.openFile at h
  cases hfind : Reader.find files baseDir fileName with
  | error f =>
    rw [hfind] at h
    contradiction
  | ok path =>
    have hpath := path_ne_of_find hfind
    rw [hfind] at h
    simp only [bind, Except.bind] at h
    split at h
    · obtain rfl := Except.ok.inj h
      simp [Reader.isFile, hpath]
    · obtain rfl := Except.ok.inj h
      simp [Reader.isFile, hpath]
    · contradiction

theorem Sound.includeFile (h : src.Sound) {src' : Source} {files : FileTree} {fileName : String}
    {r : Reader} (hopen : src.includeFile files fileName = .ok (src', r)) : src'.Sound := by
  obtain ⟨hreader, baseDir, rfl⟩ := exists_of_includeFile hopen
  have hfile := isFile_of_openFile hreader
  -- The base directory plays no part.
  have hsame : Sound { src with baseDir } := ⟨h.pending, h.texts⟩
  refine hsame.pushReader fun htext => ?_
  rw [hfile] at htext
  contradiction

theorem Sound.endInput (h : src.Sound) : src.endInput.Sound where
  pending :=
    h.pending.trans (congrArg List.sum (map_mark (fun _ => rfl) src.streams)).symm
  texts := forall_mem_mark (fun _ hs => hs) h.texts

/-- The count is exact in every state, and only files can be unreadable. -/
theorem Reached.sound (h : src.Reached) : src.Sound := by
  induction h with
  | empty => exact ⟨rfl, fun _ hs => nomatch hs⟩
  | next _ lex ih => exact ih.next lex
  | push _ ts ih => exact ih.push ts
  | pushBytes _ bytes name ih => exact ih.pushReader fun _ => Reader.failure?_ofBytes bytes name
  | includeFile _ hopen ih => exact ih.includeFile hopen
  | endInput _ ih => exact ih.endInput
  | close => exact ⟨rfl, fun _ hs => nomatch hs⟩

end Source

end TexEngine
