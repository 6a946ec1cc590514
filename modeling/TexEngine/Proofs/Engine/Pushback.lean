/-
  TexEngine.Proofs.Engine.Pushback

  The count of pushed-back tokens, and the streams they are pushed back to.

  The operations of an engine on its input are those of `Source`, and what fails leaves a
  state of the input behind that was reached as well: a file that is not found changes
  nothing, and a line that cannot be read closes the streams above its own.  So whatever is
  done with the input, in any order, its states are those of `Source.Reached`.

  Tokens are pushed back to the innermost stream.  A stream is opened for them alone only if
  there is none, and all streams that come later stand above it.
-/
import Mathlib.Algebra.Order.BigOperators.Group.List
import Mathlib.Algebra.Order.Group.Nat
import TexEngine.Proofs.Engine.Discipline
import TexEngine.Proofs.Input.States

namespace TexEngine

/-! ## Streams without a reader -/

/-- What a reading leaves of a stream has a reader if the stream has one. -/
theorem Stream.Reads.isSome_reader {lex : Lexicon} {s s' : Stream} {result : StreamResult}
    (h : Reads lex s result s') (hresult : result ≠ .exhausted) :
    s'.reader.isSome = s.reader.isSome := by
  cases h with
  | sameLine => rfl
  | laterLine _ _ hreader | failed _ _ hreader =>
    rw [hreader]
    rfl
  | exhausted => contradiction

namespace Source

variable {src : Source} {s s' : Stream} {rest streams : List Stream}

/-- Only the outermost stream may be there for pushed-back tokens alone. -/
def Layered (streams : List Stream) : Prop :=
  ∀ s ∈ streams.dropLast, s.reader.isSome

theorem layered_cons :
    Layered (s :: rest) ↔ (rest ≠ [] → s.reader.isSome) ∧ Layered rest := by
  cases rest with
  | nil => simp [Layered]
  | cons s' rest => simp [Layered, List.dropLast_cons_cons]

/-- Another stream in place of the innermost one. -/
theorem Layered.replace (h : Layered (s :: rest)) (hreader : s'.reader.isSome = s.reader.isSome) :
    Layered (s' :: rest) := by
  rw [layered_cons] at h ⊢
  rwa [hreader]

theorem Layered.nextFrom (lex : Lexicon) (src : Source) (closed : List StreamId)
    (h : Layered streams) : Layered (nextFrom lex src closed streams).source.streams := by
  fun_induction Source.nextFrom lex src closed streams with
  | case1 closed => exact h
  | case2 closed s rest t ts hpushed => exact h.replace rfl
  | case3 closed s rest hpushed t s' hs' =>
    exact h.replace ((Stream.reads_of_read hs').isSome_reader (by simp))
  | case4 closed s rest hpushed f s' hs' src' =>
    exact h.replace ((Stream.reads_of_read hs').isSome_reader (by simp))
  | case5 closed s rest hpushed s' hs' ih =>
    -- The stream is closed, and those below it are layered as they were.
    exact ih (layered_cons.mp h).2

theorem Layered.push (h : Layered src.streams) (ts : TokenList) :
    Layered (src.push ts).streams := by
  obtain ⟨baseDir, streams, pending⟩ := src
  cases ts with
  | nil => exact h
  | cons t ts =>
    cases streams with
    | nil =>
      -- The stream that is opened for the tokens is the only one.
      exact layered_cons.mpr ⟨fun hne => absurd rfl hne, h⟩
    | cons s rest => exact h.replace rfl

theorem Layered.pushReader (h : Layered src.streams) (r : Reader) :
    Layered (src.pushReader r).streams :=
  layered_cons.mpr ⟨fun _ => rfl, h⟩

theorem Layered.mark (h : Layered streams) : Layered (endInput.mark streams) := by
  induction streams with
  | nil => exact h
  | cons s rest ih =>
    unfold endInput.mark
    split
    · exact h.replace rfl
    · rw [layered_cons] at h ⊢
      refine ⟨fun hne => h.1 ?_, ih h.2⟩
      rintro rfl
      exact hne rfl

/-- In every state, all streams but the outermost one read something. -/
theorem Reached.layered (h : src.Reached) : Layered src.streams := by
  induction h with
  | empty => exact fun _ hs => nomatch hs
  | @next src _ lex ih => exact ih.nextFrom lex src []
  | push _ ts ih => exact ih.push ts
  | pushBytes _ bytes name ih => exact ih.pushReader _
  | @includeFile src src' _ files fileName r hopen ih =>
    obtain ⟨-, baseDir, rfl⟩ := exists_of_includeFile hopen
    exact ih.pushReader r
  | endInput _ ih => exact ih.mark
  | close => exact fun _ hs => nomatch hs

theorem length_le_pushedTokens (h : s ∈ streams) : s.pushed.length ≤ pushedTokens streams :=
  List.le_sum_of_mem (List.mem_map_of_mem h)

end Source

/-! ## Operations on the input -/

/-- What can be done with the input of an engine. -/
inductive InputOperation where
  | pushText (text name : String)
  | includeFile (fileName : String)
  | push (ts : TokenList)
  | next
  | nextNonSpace (fuel : Nat)
  | endInput
  | close

namespace InputOperation

open Eng

/-- Performs the operation.  A token that is read is not looked at. -/
def perform : InputOperation → Eng Unit
  | pushText text name => Eng.pushText text name
  | includeFile fileName => Eng.includeFile fileName
  | push ts => Eng.push ts
  | next => discard rawToken
  | nextNonSpace fuel => discard (rawNonSpace fuel)
  | endInput => modify fun m => { m with input := m.input.endInput }
  | close => modify fun m => { m with input := m.input.close }

end InputOperation

/-- The discipline of what is done with the input: its states remain those that its operations
    lead to. -/
def Discipline.inputReached : Discipline where
  rel := fun m m' => m.input.Reached → m'.input.Reached
  refl := fun _ => id
  trans := fun h h' => h' ∘ h
  good := fun _ => True
  good_of_rel := fun _ _ => True.intro
  inv := fun _ => True

namespace InputOperation

open Eng Discipline

theorem rawToken_inputReached : Spec inputReached True rawToken fun _ => True := by
  refine .of_rel_after (fun _ => True.intro) fun m hm => ?_
  rw [after_rawToken]
  exact hm.next _

theorem rawNonSpace_inputReached (fuel : Nat) :
    Spec inputReached True (rawNonSpace fuel) fun _ => True := by
  refine .loop (fun _ => rawToken_inputReached.seq fun t? => ?_) fuel ()
  cases t? with
  | none => exact .done
  | some t => exact .done

theorem pushText_inputReached (text name : String) :
    Spec inputReached True (Eng.pushText text name) fun _ => True := by
  refine .of_rel_after (fun _ => True.intro) fun m hm => ?_
  obtain ⟨es, hpush⟩ := pushText_apply text name m
  rw [after_of_ok hpush]
  exact hm.pushText text name

theorem includeFile_inputReached (fileName : String) :
    Spec inputReached True (Eng.includeFile fileName) fun _ => True := by
  refine .of_rel_after (fun _ => True.intro) fun m hm => ?_
  obtain ⟨es, hinclude⟩ := includeFile_apply fileName m
  cases hopen : m.input.includeFile m.files fileName with
  | ok opened =>
    rw [hopen] at hinclude
    rw [after_of_ok hinclude]
    exact hm.includeFile hopen
  | error f =>
    rw [hopen] at hinclude
    rw [after_of_error hinclude]
    exact hm

theorem perform_inputReached (op : InputOperation) :
    Spec inputReached True op.perform fun _ => True := by
  cases op with
  | pushText text name => exact pushText_inputReached text name
  | includeFile fileName => exact includeFile_inputReached fileName
  | push ts => exact .modify (fun _ hm => hm.push ts) fun _ _ _ _ => True.intro
  | next => exact rawToken_inputReached.seq fun _ => .done
  | nextNonSpace fuel => exact (rawNonSpace_inputReached fuel).seq fun _ => .done
  | endInput => exact .modify (fun _ hm => hm.endInput) fun _ _ _ _ => True.intro
  | close => exact .modify (fun _ hm => hm.close) fun _ _ _ _ => True.intro

end InputOperation

namespace Machine

/-- The machines behind any sequence of operations on the input, beginning without streams,
    whether the operations succeed or fail.  Between two of them, everything but the input may
    change: categories, files, and all other parts of a machine. -/
inductive Operated : Machine → Prop where
  | start {m : Machine} (baseDir : String) (h : m.input = { baseDir }) : Operated m
  | perform {m : Machine} (h : Operated m) (op : InputOperation) :
      Operated (op.perform.after m)
  | elsewhere {m m' : Machine} (h : Operated m) (hinput : m'.input = m.input) : Operated m'

theorem Operated.reached {m : Machine} (h : m.Operated) : m.input.Reached := by
  induction h with
  | start baseDir hinput => exact hinput ▸ .empty baseDir
  | perform _ op ih => exact op.perform_inputReached.rel_after _ ih
  | elsewhere _ hinput ih => exact hinput ▸ ih

/-- The count of pushed-back tokens is exact behind all operations: it is the number of those
    that the streams still have.  So no stream has more of them than are counted, counting off
    is never cut off at zero, and without streams the count is zero.  Only the outermost stream
    may be without a reader. -/
theorem Operated.pending_exact {m : Machine} (h : m.Operated) :
    m.input.pending = (m.input.streams.map (·.pushed.length)).sum ∧
    (∀ s ∈ m.input.streams, s.pushed.length ≤ m.input.pending) ∧
    (m.input.streams = [] → m.input.pending = 0) ∧
    ∀ s ∈ m.input.streams.dropLast, s.reader.isSome := by
  have hpending := h.reached.sound.pending
  refine ⟨hpending, fun s hs => ?_, fun hempty => ?_, h.reached.layered⟩
  · rw [hpending]
    exact Source.length_le_pushedTokens hs
  · rw [hpending, hempty, Source.pushedTokens_nil]

/-- Tokens stand on their own below a text, one of the latter's was read, and two are pushed
    back to it; in between, a file was not found. -/
def overText : Machine :=
  [.push [.space, .space], .pushText "ab" "text", .next, .includeFile "missing",
    .push [.space, .space, .space], .next].foldl (fun m op => (InputOperation.perform op).after m)
    { env := {} }

/-- All four tokens are counted, and only the stream without a text has no reader. -/
theorem pending_exact_overText :
    overText.Operated ∧ overText.input.streams.map (·.pushed.length) = [2, 2] ∧
      overText.input.pending = 4 ∧
      overText.input.streams.map (·.reader.isSome) = [true, false] ∧
      ∀ s ∈ overText.input.streams.dropLast, s.reader.isSome := by
  have hoperated : overText.Operated :=
    .perform (.perform (.perform (.perform (.perform (.perform (.start "" rfl) _) _) _) _) _) _
  obtain ⟨hpending, -, -, hreaders⟩ := hoperated.pending_exact
  have hpushed : overText.input.streams.map (·.pushed.length) = [2, 2] := by decide +kernel
  refine ⟨hoperated, hpushed, ?_, by decide +kernel, hreaders⟩
  rw [hpending, hpushed]
  rfl

end Machine

end TexEngine
