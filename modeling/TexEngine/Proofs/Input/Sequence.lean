/-
  TexEngine.Proofs.Input.Sequence

  The input as one sequence.  All that successive readings will give is an infinite
  sequence of results, which ends in the end of the input over and over.  Tokens that
  are pushed back stand in front of this sequence, and so does what a text has to give;
  a reading takes off the first result.  How the results are spread over streams, when an
  exhausted stream is removed and where a stream is opened for tokens cannot be seen.

  One thing can: an error lists the positions in all open streams.  Those of the streams
  below a text follow those of the text.
-/
import Mathlib.Data.List.Forall2
import Mathlib.Data.Stream.Init
import TexEngine.Proofs.Engine.Reading
import TexEngine.Proofs.Input.LineLexer

namespace TexEngine

namespace Source

open LineLexer

/-! ## Results -/

/-- What a reading gives: a token, nothing at the end of the input, or an error. -/
abbrev Result := Except Fault (Option Token)

namespace Result

/-- The result as it is found with further streams below. -/
def below (frames : List Frame) : Result → Result
  | .error (.tex e) => .error (.tex { e with stack := e.stack ++ frames })
  | r => r

@[simp] theorem below_nil (r : Result) : below [] r = r := by
  unfold below
  split
  · rw [List.append_nil]
  · rfl

end Result

/-! ## All readings -/

/-- The results of all successive readings. -/
def readings (lex : Lexicon) (src : Source) : Stream' Result :=
  Stream'.corec (fun src => (src.next lex).result) (fun src => (src.next lex).source) src

variable {lex : Lexicon}

theorem readings_eq (lex : Lexicon) (src : Source) :
    readings lex src = Stream'.cons (src.next lex).result (readings lex (src.next lex).source) :=
  Stream'.corec_eq _ _ _

/-- Which streams were closed before, and what else the source has, does not matter for
    reading from given streams. -/
theorem nextFrom_of_streams (lex : Lexicon) (src src' : Source) (closed closed' : List StreamId)
    (streams : List Stream) :
    (nextFrom lex src closed streams).result = (nextFrom lex src' closed' streams).result ∧
      (nextFrom lex src closed streams).source.streams =
        (nextFrom lex src' closed' streams).source.streams := by
  induction streams generalizing closed closed' with
  | nil => exact ⟨rfl, rfl⟩
  | cons s rest ih =>
    rw [nextFrom, nextFrom]
    cases s.pushed with
    | cons t ts => exact ⟨rfl, rfl⟩
    | nil =>
      rcases s.read lex with ⟨r, s'⟩
      cases r with
      | token t => exact ⟨rfl, rfl⟩
      | fault f => cases f <;> exact ⟨rfl, rfl⟩
      | exhausted => exact ih _ _

/-- What will be read depends on nothing but the streams. -/
theorem readings_of_streams {src src' : Source} (h : src.streams = src'.streams) :
    readings lex src = readings lex src' := by
  apply Stream'.ext
  intro n
  induction n generalizing src src' with
  | zero =>
    rw [readings_eq, readings_eq lex src']
    have hnext := (nextFrom_of_streams lex src src' [] [] src.streams).1
    exact hnext.trans (by rw [h]; rfl)
  | succ n ih =>
    rw [readings_eq, readings_eq lex src']
    have hnext := (nextFrom_of_streams lex src src' [] [] src.streams).2
    exact ih (hnext.trans (by rw [h]; rfl))

/-- What will be read depends on what the next reading does. -/
theorem readings_congr {src src' : Source}
    (hresult : (src.next lex).result = (src'.next lex).result)
    (hstreams : (src.next lex).source.streams = (src'.next lex).source.streams) :
    readings lex src = readings lex src' := by
  rw [readings_eq, hresult, readings_of_streams hstreams, ← readings_eq]

/-- Without streams, all readings give the end of the input. -/
theorem readings_of_nil {src : Source} (h : src.streams = []) :
    readings lex src = Stream'.const (.ok none) := by
  have hnext : src.next lex = { result := .ok none, source := src } := by
    obtain ⟨baseDir, streams, pending⟩ := src
    obtain rfl : streams = [] := h
    rfl
  apply Stream'.ext
  intro n
  induction n with
  | zero =>
    rw [readings_eq, hnext]
    rfl
  | succ n ih =>
    rw [readings_eq, hnext]
    exact ih

/-! ## Tokens in front -/

theorem readings_feed (lex : Lexicon) (src : Source) (ts : TokenList) :
    readings lex (src.feed ts) = ts.map (fun t => .ok (some t)) ++ₛ readings lex src := by
  induction ts with
  | nil => exact readings_congr (by rw [next_feed_nil]) (by rw [next_feed_nil])
  | cons t ts ih =>
    rw [readings_eq, next_feed_cons, ih]
    rfl

/-- Tokens that are pushed back stand in front of what would have been read. -/
theorem readings_push (lex : Lexicon) (src : Source) (ts : TokenList) :
    readings lex (src.push ts) = ts.map (fun t => .ok (some t)) ++ₛ readings lex src := by
  by_cases hts : ts = []
  · subst hts
    rfl
  · rw [push_eq_feed src hts, readings_feed]

/-- Two pushes are one. -/
theorem push_push (src : Source) (ts us : TokenList) :
    (src.push ts).push us = src.push (us ++ ts) := by
  by_cases hts : ts = []
  · subst hts
    rw [List.append_nil]
    rfl
  · have happend : us ++ ts ≠ [] := by simp [hts]
    rw [push_eq_feed src hts, push_feed, push_eq_feed src happend]

/-! ## A text in front -/

/-- The source with one more stream. -/
def withStream (src : Source) (s : Stream) : Source :=
  { src with streams := s :: src.streams }

/-- A stream with nothing to give is passed over. -/
theorem readings_withStream_of_exhausted {src : Source} {s s' : Stream} (hpushed : s.pushed = [])
    (hread : s.read lex = (.exhausted, s')) :
    readings lex (src.withStream s) = readings lex src := by
  have hnext : (src.withStream s).next lex =
      nextFrom lex (src.withStream s) ((streamId? s).toList ++ []) src.streams := by
    show nextFrom lex (src.withStream s) [] (s :: src.streams) = _
    rw [nextFrom, hpushed]
    dsimp only
    rw [hread]
  obtain ⟨hresult, hstreams⟩ := nextFrom_of_streams lex (src.withStream s) src _ [] src.streams
  exact readings_congr (by rw [hnext]; exact hresult) (by rw [hnext]; exact hstreams)

/-- A stream with a token to give stands in front of what it leaves. -/
theorem readings_withStream_of_token {src : Source} {s s' : Stream} {t : Token}
    (hpushed : s.pushed = []) (hread : s.read lex = (.token t, s')) :
    readings lex (src.withStream s) =
      Stream'.cons (.ok (some t)) (readings lex (src.withStream s')) := by
  have hnext : (src.withStream s).next lex =
      { result := .ok (some t), source := src.withStream s' } := by
    show nextFrom lex (src.withStream s) [] (s :: src.streams) = _
    rw [nextFrom, hpushed]
    dsimp only
    rw [hread]
    rfl
  rw [readings_eq, hnext]

/-- A stream with an error to give names itself and the streams below. -/
theorem readings_withStream_of_fault {src : Source} {s s' : Stream} {e : TexError}
    (hpushed : s.pushed = []) (hread : s.read lex = (.fault (.tex e), s')) (he : e.stack = []) :
    readings lex (src.withStream s) =
      Stream'.cons (Result.below src.frames (.error (.tex { e with stack := s'.frame?.toList })))
        (readings lex (src.withStream s')) := by
  have hstack : e.annotate (src.withStream s').frames =
      { e with stack := s'.frame?.toList ++ src.frames } := by
    have hframes : (src.withStream s').frames = s'.frame?.toList ++ src.frames := by
      show (s' :: src.streams).filterMap Stream.frame? = _
      cases hs' : s'.frame? with
      | none => exact List.filterMap_cons_none hs'
      | some f => exact List.filterMap_cons_some hs'
    rw [hframes, TexError.annotate, he]
    rfl
  have hnext : (src.withStream s).next lex =
      { result := .error (.tex (e.annotate (src.withStream s').frames)),
        source := src.withStream s' } := by
    show nextFrom lex (src.withStream s) [] (s :: src.streams) = _
    rw [nextFrom, hpushed]
    dsimp only
    rw [hread]
    rfl
  rw [readings_eq, hnext, hstack]
  rfl

/-- A stream gives its lexemes in order, and behind them everything is as if it had not
    been there. -/
theorem exists_readings_withStream {s : Stream} {xs : List Lexeme} (h : s.Holds lex xs) :
    ∃ rs : List Result, List.Forall₂ (fun x => Gives (some x)) xs rs ∧
      ∀ src, readings lex (src.withStream s) =
        rs.map (Result.below src.frames) ++ₛ readings lex src := by
  induction xs generalizing s with
  | nil =>
    obtain ⟨s', hread, -⟩ := Stream.read_of_holds h
    exact ⟨[], .nil, fun src => readings_withStream_of_exhausted h.1 hread⟩
  | cons x xs ih =>
    obtain ⟨s', hread, hs'⟩ := Stream.read_of_holds h
    obtain ⟨rs, hgives, hrest⟩ := ih hs'
    cases x with
    | token t =>
      refine ⟨.ok (some t) :: rs, .cons rfl hgives, fun src => ?_⟩
      rw [readings_withStream_of_token h.1 hread, hrest]
      rfl
    | invalid c =>
      let e : TexError := { kind := .invalidCharacter, details := [c.text] }
      refine ⟨.error (.tex { e with stack := s'.frame?.toList }) :: rs, .cons ⟨_, rfl⟩ hgives,
        fun src => ?_⟩
      rw [readings_withStream_of_fault h.1 hread rfl, hrest]
      rfl

/-- The results of a source that holds only a text, one for each of its lexemes. -/
def textReadings (lex : Lexicon) (text name : String) : List Result :=
  (readings lex (({} : Source).pushText text name)).take
    ((Text.lines text).flatMap (lexLine lex)).length

/-- A text stands in front of what would have been read, with the results that it has
    alone.  Errors in it name the streams below as well. -/
theorem readings_pushText (lex : Lexicon) (src : Source) (text name : String) :
    List.Forall₂ (fun x => Gives (some x)) ((Text.lines text).flatMap (lexLine lex))
        (textReadings lex text name) ∧
      readings lex (src.pushText text name) =
        (textReadings lex text name).map (Result.below src.frames) ++ₛ readings lex src := by
  have hholds : Stream.Holds lex { reader := some (Reader.ofText text name) }
      ((Text.lines text).flatMap (lexLine lex)) := Stream.holds_ofText text name
  obtain ⟨rs, hgives, hreadings⟩ := exists_readings_withStream hholds
  -- A source without streams adds no positions.
  have hpositions : rs.map (Result.below []) = rs := by
    rw [List.map_congr_left fun r _ => Result.below_nil r, List.map_id']
  have halone : readings lex (({} : Source).pushText text name) = rs ++ₛ readings lex {} :=
    (hreadings {}).trans (congrArg (· ++ₛ _) hpositions)
  have hrs : textReadings lex text name = rs := by
    rw [textReadings, halone, hgives.length_eq,
      Stream'.take_append_of_le_length _ _ _ (Nat.le_refl _), List.take_length]
  rw [hrs]
  exact ⟨hgives, hreadings src⟩

/-- A source that holds only a text has nothing to give behind it. -/
theorem readings_text (lex : Lexicon) (baseDir text name : String) :
    readings lex (({ baseDir } : Source).pushText text name) =
      textReadings lex text name ++ₛ Stream'.const (.ok none) := by
  have hend : readings lex ({ baseDir } : Source) = Stream'.const (.ok none) := readings_of_nil rfl
  have hpositions : (textReadings lex text name).map (Result.below []) =
      textReadings lex text name := by
    rw [List.map_congr_left fun r _ => Result.below_nil r, List.map_id']
  have hreadings := (readings_pushText lex { baseDir } text name).2
  rw [hend] at hreadings
  exact hreadings.trans (congrArg (· ++ₛ _) hpositions)

/-- Lexemes give tokens and errors, not the end of the input. -/
theorem ok_none_not_mem_of_gives {xs : List Lexeme} {rs : List Result}
    (h : List.Forall₂ (fun x => Gives (some x)) xs rs) : .ok none ∉ rs := by
  induction h with
  | nil => exact List.not_mem_nil
  | @cons x r xs rs hr hrs ih =>
    have hne : .ok none ≠ r := by
      rintro rfl
      cases x with
      | token t => cases hr
      | invalid c =>
        obtain ⟨stack, hstack⟩ := hr
        cases hstack
    exact List.not_mem_cons_of_ne_of_not_mem hne ih

/-! ## Interleavings -/

/-- What can be done with a source. -/
inductive InputOp where
  | push (ts : TokenList)
  | pushText (text name : String)
  | read

namespace InputOp

/-- The source behind an operation. -/
def source (lex : Lexicon) (src : Source) : InputOp → Source
  | push ts => src.push ts
  | pushText text name => src.pushText text name
  | read => (src.next lex).source

/-- What remains of a sequence of results behind an operation: what is pushed is put in
    front, and a reading takes off the first result.  `frames` are the positions in the
    streams that are open. -/
def sequence (lex : Lexicon) (frames : List Frame) (rs : Stream' Result) : InputOp → Stream' Result
  | push ts => ts.map (fun t => .ok (some t)) ++ₛ rs
  | pushText text name => (textReadings lex text name).map (Result.below frames) ++ₛ rs
  | read => rs.tail

/-- The results of the readings among a list of operations on a source. -/
def results (lex : Lexicon) : Source → List InputOp → List Result
  | _, [] => []
  | src, .read :: ops => (src.next lex).result :: results lex (source lex src .read) ops
  | src, op :: ops => results lex (source lex src op) ops

/-- The results of the readings among a list of operations on a sequence of results.  The
    source is asked for nothing but the positions in its streams. -/
def sequenceResults (lex : Lexicon) : Source → Stream' Result → List InputOp → List Result
  | _, _, [] => []
  | src, rs, .read :: ops =>
    rs.head :: sequenceResults lex (source lex src .read) (sequence lex src.frames rs .read) ops
  | src, rs, op :: ops =>
    sequenceResults lex (source lex src op) (sequence lex src.frames rs op) ops

/-- Each operation does to a source what it does to the sequence. -/
theorem readings_source (lex : Lexicon) (src : Source) (op : InputOp) :
    readings lex (source lex src op) = sequence lex src.frames (readings lex src) op := by
  cases op with
  | push ts => exact readings_push lex src ts
  | pushText text name => exact (readings_pushText lex src text name).2
  | read =>
    rw [readings_eq lex src]
    rfl

/-- In every interleaving of pushes and readings, the results are those of the
    sequence. -/
theorem results_eq_sequenceResults (lex : Lexicon) (src : Source) (ops : List InputOp) :
    results lex src ops = sequenceResults lex src (readings lex src) ops := by
  induction ops generalizing src with
  | nil => rfl
  | cons op ops ih =>
    have hrest := ih (source lex src op)
    rw [readings_source] at hrest
    cases op with
    | push ts => exact hrest
    | pushText text name => exact hrest
    | read => exact congrArg ((src.next lex).result :: ·) hrest

end InputOp

/-! ## One sequence -/

/-- The input behaves as one sequence of results.  Tokens that are pushed back come
    first, in order, and then exactly what would have been read.  A text comes first with
    the results of a source that holds only the text, up to the end of the input; in its
    errors, the positions in the streams below follow those in the text.  A second push
    is a push of both lists.  The same holds for every interleaving of pushes and
    readings. -/
theorem reads_as_one_sequence (lex : Lexicon) (src : Source) :
    (∀ ts : TokenList, readings lex (src.push ts) =
      ts.map (fun t => .ok (some t)) ++ₛ readings lex src) ∧
    (∀ text name : String, ∃ rs : List Result, .ok none ∉ rs ∧
      (∀ baseDir, readings lex (({ baseDir } : Source).pushText text name) =
        rs ++ₛ Stream'.const (.ok none)) ∧
      readings lex (src.pushText text name) =
        rs.map (Result.below src.frames) ++ₛ readings lex src) ∧
    (∀ ts us : TokenList, (src.push ts).push us = src.push (us ++ ts)) ∧
    (∀ ops : List InputOp,
      InputOp.results lex src ops = InputOp.sequenceResults lex src (readings lex src) ops) := by
  refine ⟨readings_push lex src, ?_, push_push src, InputOp.results_eq_sequenceResults lex src⟩
  intro text name
  exact ⟨textReadings lex text name,
    ok_none_not_mem_of_gives (readings_pushText lex src text name).1,
    fun baseDir => readings_text lex baseDir text name, (readings_pushText lex src text name).2⟩

/-- An invalid character in a text that was pushed in front of another one: the error is
    not the one that a source holding only the text gives. -/
theorem error_of_text_in_front :
    let lex : Lexicon :=
      { catcode := Catcode.default .plain false, endLineChar := fun _ => none }
    let outer := ({} : Source).pushText "b" "outer"
    let alone := ({} : Source).pushText "\x7f" "inner"
    ((outer.pushText "\x7f" "inner").next lex).result ≠ (alone.next lex).result := by
  intro lex outer alone
  have hline : lexLine lex ['\x7f'] = [.invalid 127] := by
    show LineLexer.lex lex.catcode .newLine [127] = _
    rw [lex_of_unhat_cons (unhat_of_hat?_none rfl)]
    show .invalid 127 :: LineLexer.lex lex.catcode .newLine [] = _
    rw [lex_nil]
  have hlexemes : (Text.lines "\x7f").flatMap (lexLine lex) = [.invalid 127] := by
    show [['\x7f']].flatMap (lexLine lex) = _
    rw [List.flatMap_singleton, hline]
  obtain ⟨hgives, hreadings⟩ := readings_pushText lex outer "\x7f" "inner"
  rw [hlexemes] at hgives
  obtain ⟨r, rs, ⟨stack, rfl⟩, -, hrs⟩ := List.forall₂_cons_left_iff.mp hgives
  have hfirst := congrArg Stream'.head (readings_text lex "" "\x7f" "inner")
  have hsecond := congrArg Stream'.head hreadings
  rw [readings_eq, hrs] at hfirst hsecond
  rw [show (alone.next lex).result = _ from hfirst,
    show ((outer.pushText "\x7f" "inner").next lex).result = _ from hsecond]
  -- The one stack is that of the other error and one more position.
  intro heq
  have hstack : stack ++ outer.frames = stack :=
    congrArg TexError.stack (Fault.tex.inj (Except.error.inj heq))
  have hframes : outer.frames = [] := List.append_right_eq_self.mp hstack
  cases hframes

end Source

end TexEngine
