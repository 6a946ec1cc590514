/-
  TexEngine.Proofs.Input.EndInput

  The end of the innermost file.  A file that is told to end gives what is left of its current
  line, and the lines that are not loaded yet are cut off.  All else comes as it would have
  come: what the streams above the file have to give, the tokens that were pushed back to the
  file, and everything below.

  One reading is compared with and without the mark.  As long as the current line has
  something to give, the mark makes no difference, not even to the positions in errors; behind
  it, a stream with the mark is passed over.
-/
import TexEngine.Proofs.Input.Sequence
import TexEngine.Proofs.Input.States

namespace TexEngine

namespace Source

open LineLexer

variable {lex : Lexicon} {src src' : Source} {s : Stream}

/-! ## Results -/

namespace Result

@[simp] theorem below_below (fs gs : List Frame) (r : Result) :
    below gs (below fs r) = below (fs ++ gs) r := by
  cases r with
  | ok t? => rfl
  | error f =>
    cases f with
    | tex e =>
      show (Except.error (.tex { e with stack := e.stack ++ fs ++ gs }) : Result) =
        .error (.tex { e with stack := e.stack ++ (fs ++ gs) })
      rw [List.append_assoc]
    | _ => rfl

theorem below_eq_ok_none_iff {fs : List Frame} {r : Result} :
    below fs r = .ok none ↔ r = .ok none := by
  unfold below
  split
  · simp
  · rfl

theorem ok_none_not_mem_map_below {fs : List Frame} {rs : List Result} (h : .ok none ∉ rs) :
    .ok none ∉ rs.map (below fs) := by
  rw [List.mem_map]
  rintro ⟨r, hr, hbelow⟩
  exact h (below_eq_ok_none_iff.mp hbelow ▸ hr)

theorem map_below_ok (fs : List Frame) (ts : TokenList) :
    (ts.map fun t => (.ok (some t) : Result)).map (below fs) = ts.map fun t => .ok (some t) := by
  rw [List.map_map]
  rfl

end Result

/-! ## One stream -/

/-- Pushed-back tokens come first. -/
theorem readings_withStream_pushed (lex : Lexicon) (src : Source) (s : Stream) :
    readings lex (src.withStream s) =
      s.pushed.map (fun t => .ok (some t)) ++ₛ
        readings lex (src.withStream { s with pushed := [] }) := by
  rw [← readings_feed]
  refine readings_of_streams ?_
  simp [withStream, feed]

/-- As long as the line has a lexeme to give, the mark is not looked at. -/
theorem read_marked {x : Lexeme} {cur : Cursor}
    (hcursor : s.cursor.next? lex.catcode = (some x, cur)) (ends : Bool) :
    Stream.read lex { s with endInput := ends } =
      (Stream.resultOf (some x), { s with cursor := cur, endInput := ends }) := by
  unfold Stream.read
  rw [hcursor]

/-- The rest of the current line comes next, whether the stream ends with it or not. -/
theorem exists_readings_line (lex : Lexicon) (hpushed : s.pushed = []) :
    ∃ (ls : List Result) (cur : Cursor),
      List.Forall₂ (fun x => Gives (some x))
        (LineLexer.lex lex.catcode s.cursor.state s.cursor.rest) ls ∧
      (cur.next? lex.catcode).1 = none ∧
      ∀ (ends : Bool) (src : Source),
        readings lex (src.withStream { s with endInput := ends }) =
          ls.map (Result.below src.frames) ++ₛ
            readings lex (src.withStream { s with cursor := cur, endInput := ends }) := by
  -- On the lexemes of the line: a reading takes the first of them, whatever the mark is.
  induction hxs : LineLexer.lex lex.catcode s.cursor.state s.cursor.rest generalizing s with
  | nil =>
    have hnext := lex_next? lex.catcode s.cursor
    rw [hxs] at hnext
    refine ⟨[], s.cursor, .nil, ?_, fun _ _ => rfl⟩
    revert hnext
    cases s.cursor.next? lex.catcode with
    | mk x? cur =>
      cases x? with
      | none => exact fun _ => rfl
      | some x => exact fun hnext => nomatch hnext
  | cons x xs ih =>
    have hnext := lex_next? lex.catcode s.cursor
    rw [hxs] at hnext
    cases hcursor : s.cursor.next? lex.catcode with
    | mk x? cur =>
      rw [hcursor] at hnext
      cases x? with
      | none => exact nomatch hnext.1
      | some x' =>
        obtain ⟨rfl, hrest⟩ := List.cons.inj hnext
        obtain ⟨ls, cur', hgives, hend, hls⟩ :=
          ih (s := { s with cursor := cur }) hpushed hrest.symm
        have hread := read_marked hcursor
        cases x with
        | token t =>
          refine ⟨.ok (some t) :: ls, cur', .cons rfl hgives, hend, fun ends src => ?_⟩
          rw [readings_withStream_of_token (s := { s with endInput := ends }) hpushed (hread ends),
            hls]
          rfl
        | invalid c =>
          let e : TexError := { kind := .invalidCharacter, details := [c.text] }
          let frame? := Stream.frame? { s with cursor := cur }
          refine ⟨.error (.tex { e with stack := frame?.toList }) :: ls, cur',
            .cons ⟨_, rfl⟩ hgives, hend, fun ends src => ?_⟩
          rw [readings_withStream_of_fault (s := { s with endInput := ends }) hpushed (hread ends)
            rfl, hls]
          rfl

/-- Behind its line, a stream is passed over if it ends there. -/
theorem readings_withStream_of_end (src : Source) (hpushed : s.pushed = [])
    (hline : (s.cursor.next? lex.catcode).1 = none) (hend : s.endInput ∨ s.reader = none) :
    readings lex (src.withStream s) = readings lex src := by
  have hread : ∃ s', s.read lex = (.exhausted, s') := by
    unfold Stream.read
    revert hline
    cases s.cursor.next? lex.catcode with
    | mk x? cur =>
      rintro rfl
      dsimp only
      split
      · exact ⟨_, rfl⟩
      · rename_i r hreader
        have hend : s.endInput = true := by simpa [hreader] using hend
        rw [if_pos hend]
        exact ⟨_, rfl⟩
  obtain ⟨s', hread⟩ := hread
  exact readings_withStream_of_exhausted hpushed hread

/-- Otherwise the lines that follow give their lexemes. -/
theorem exists_readings_lines {r : Reader} (hpushed : s.pushed = [])
    (hline : (s.cursor.next? lex.catcode).1 = none) (hend : s.endInput = false)
    (hreader : s.reader = some r) (hfailure : r.failure? = none) :
    ∃ us : List Result,
      List.Forall₂ (fun x => Gives (some x)) (r.lines.flatMap (lexLine lex)) us ∧
      ∀ src, readings lex (src.withStream s) =
        us.map (Result.below src.frames) ++ₛ readings lex src := by
  have hrest : LineLexer.lex lex.catcode s.cursor.state s.cursor.rest = [] := by
    have hnext := lex_next? lex.catcode s.cursor
    revert hline hnext
    cases s.cursor.next? lex.catcode with
    | mk x? cur =>
      rintro rfl hnext
      exact hnext.1
  have hholds : s.Holds lex (r.lines.flatMap (lexLine lex)) := by
    refine ⟨hpushed, hend, r, hreader, hfailure, ?_⟩
    rw [hrest, List.nil_append]
  exact exists_readings_withStream hholds

/-- A stream that can be read has certain results to give, and behind them everything is as
    if it had not been there. -/
theorem exists_readings_stream (lex : Lexicon) (h : s.Readable) :
    ∃ rs : List Result, .ok none ∉ rs ∧
      ∀ src, readings lex (src.withStream s) =
        rs.map (Result.below src.frames) ++ₛ readings lex src := by
  obtain ⟨ls, cur, hgives, hline, hls⟩ :=
    exists_readings_line lex (s := { s with pushed := [] }) rfl
  have hls := hls s.endInput
  -- What remains behind the line depends on whether the stream ends there.
  obtain ⟨us, hus, hlines⟩ : ∃ us : List Result, .ok none ∉ us ∧
      ∀ src, readings lex (src.withStream { s with cursor := cur, pushed := [] }) =
        us.map (Result.below src.frames) ++ₛ readings lex src := by
    rcases Bool.eq_false_or_eq_true s.endInput with hend | hend
    · exact ⟨[], List.not_mem_nil, fun src => readings_withStream_of_end src rfl hline (.inl hend)⟩
    · rcases Option.eq_none_or_eq_some s.reader with hreader | ⟨r, hreader⟩
      · exact ⟨[], List.not_mem_nil,
          fun src => readings_withStream_of_end src rfl hline (.inr hreader)⟩
      · obtain ⟨us, hgives, hus⟩ := exists_readings_lines
          (s := { s with cursor := cur, pushed := [] }) rfl hline hend hreader (h r hreader)
        exact ⟨us, ok_none_not_mem_of_gives hgives, hus⟩
  refine ⟨s.pushed.map (fun t => .ok (some t)) ++ ls ++ us, ?_, fun src => ?_⟩
  · simp [ok_none_not_mem_of_gives hgives, hus]
  · rw [readings_withStream_pushed]
    have hrest := hls src
    rw [hlines] at hrest
    rw [show src.withStream { s with pushed := [] } =
      src.withStream { s with pushed := [], endInput := s.endInput } from rfl, hrest]
    simp only [List.map_append, Result.map_below_ok, Stream'.append_append_stream]

/-! ## Several streams -/

/-- The streams on top of others, if they can be read, have certain results to give, and
    behind them everything is as if they had not been there. -/
theorem exists_readings_above (lex : Lexicon) {above : List Stream}
    (h : ∀ s ∈ above, s.Readable) :
    ∃ rs : List Result, .ok none ∉ rs ∧
      ∀ src : Source, readings lex { src with streams := above ++ src.streams } =
        rs.map (Result.below src.frames) ++ₛ readings lex src := by
  induction above with
  | nil => exact ⟨[], List.not_mem_nil, fun _ => rfl⟩
  | cons s above ih =>
    rw [List.forall_mem_cons] at h
    obtain ⟨rs, hrs, hstream⟩ := exists_readings_stream lex h.1
    obtain ⟨as, has, habove⟩ := ih h.2
    refine ⟨rs.map (Result.below (above.filterMap Stream.frame?)) ++ as, ?_, fun src => ?_⟩
    · rw [List.mem_append, not_or]
      exact ⟨Result.ok_none_not_mem_map_below hrs, has⟩
    · have hframes : frames { src with streams := above ++ src.streams } =
          above.filterMap Stream.frame? ++ src.frames := List.filterMap_append
      have hfirst := hstream { src with streams := above ++ src.streams }
      rw [habove, hframes] at hfirst
      refine hfirst.trans ?_
      rw [List.map_append, List.map_map, Stream'.append_append_stream]
      congr 2
      funext r
      exact (Result.below_below _ _ r).symm

/-! ## The mark -/

theorem mark_eq_self {streams : List Stream} (h : ∀ s ∈ streams, s.isFile = false) :
    endInput.mark streams = streams := by
  induction streams with
  | nil => rfl
  | cons s rest ih =>
    rw [List.forall_mem_cons] at h
    rw [endInput.mark, h.1, if_neg Bool.false_ne_true, ih h.2]

/-- The mark is set at the first stream that reads a file. -/
theorem mark_append {above below : List Stream} {file : Stream}
    (habove : ∀ s ∈ above, s.isFile = false) (hfile : file.isFile = true) :
    endInput.mark (above ++ file :: below) = above ++ { file with endInput := true } :: below := by
  induction above with
  | nil => rw [List.nil_append, endInput.mark, if_pos hfile, List.nil_append]
  | cons s above ih =>
    rw [List.forall_mem_cons] at habove
    rw [List.cons_append, endInput.mark, habove.1, if_neg Bool.false_ne_true, ih habove.2,
      List.cons_append]

/-- The lines that a stream would go on with, if it can be read and does not end with its
    current line. -/
theorem exists_readings_unread (lex : Lexicon) {cur : Cursor}
    (hline : (cur.next? lex.catcode).1 = none) (hreader : s.reader.isSome) :
    ∃ us : List Result, s.endInput = false → s.Readable →
      List.Forall₂ (fun x => Gives (some x)) (s.unreadLines.flatMap (lexLine lex)) us ∧
      ∀ src, readings lex (src.withStream { s with cursor := cur, pushed := [] }) =
        us.map (Result.below src.frames) ++ₛ readings lex src := by
  by_cases hs : s.endInput = false ∧ s.Readable
  · obtain ⟨r, hreader⟩ := Option.isSome_iff_exists.mp hreader
    obtain ⟨us, hgives, hus⟩ := exists_readings_lines
      (s := { s with cursor := cur, pushed := [] }) rfl hline hs.1 hreader (hs.2 r hreader)
    refine ⟨us, fun _ _ => ⟨?_, hus⟩⟩
    rwa [Stream.unreadLines_of_reader hreader]
  · exact ⟨[], fun hend hreadable => absurd ⟨hend, hreadable⟩ hs⟩

/-- Telling the input to end changes nothing if no file is open.  Otherwise it cuts off the
    lines of the innermost file that are not loaded yet, and nothing else.  `as` are the
    results that the streams above the file have to give, `ls` those of the rest of its line
    and `us` those of the lines that are cut off; what stands below comes behind them as it
    would have come.  What is put in front of the input afterwards, at any time, is given as
    well. -/
theorem Reached.endInput_cuts_off (h : src.Reached) (lex : Lexicon) :
    ((∀ s ∈ src.streams, s.isFile = false) → src.endInput = src) ∧
    (∀ above file below, src.streams = above ++ file :: below →
      (∀ s ∈ above, s.isFile = false) → file.isFile = true →
      ∃ as ls us : List Result,
        let rest : Source := { src with streams := below }
        let first := as.map (Result.below (rest.withStream file).frames) ++
          file.pushed.map (fun t => .ok (some t)) ++ ls.map (Result.below rest.frames)
        .ok none ∉ as ∧
        readings lex { src with streams := above } = as ++ₛ Stream'.const (.ok none) ∧
        List.Forall₂ (fun x => Gives (some x))
          (LineLexer.lex lex.catcode file.cursor.state file.cursor.rest) ls ∧
        readings lex src.endInput = first ++ₛ readings lex rest ∧
        (file.endInput = false → file.Readable →
          List.Forall₂ (fun x => Gives (some x)) (file.unreadLines.flatMap (lexLine lex)) us ∧
          readings lex src =
            (first ++ us.map (Result.below rest.frames)) ++ₛ readings lex rest) ∧
        (file.endInput = true → src.endInput = src)) ∧
    ∀ ops, InputOp.results lex src.endInput ops =
      InputOp.sequenceResults lex src.endInput (readings lex src.endInput) ops := by
  refine ⟨fun hnone => ?_, ?_, InputOp.results_eq_sequenceResults lex src.endInput⟩
  · rw [Source.endInput, mark_eq_self hnone]
  intro above file below hstreams habove hfile
  have htexts : ∀ s ∈ above, s.Readable := by
    intro s hs
    exact h.sound.texts s (by rw [hstreams]; exact List.mem_append_left _ hs) (habove s hs)
  have hreader : file.reader.isSome := by
    unfold Stream.isFile at hfile
    cases hreader : file.reader with
    | none => simp [hreader] at hfile
    | some r => rfl
  obtain ⟨as, has, hsrc⟩ := exists_readings_above lex htexts
  obtain ⟨ls, cur, hgives, hline, hls⟩ :=
    exists_readings_line lex (s := { file with pushed := [] }) rfl
  obtain ⟨us, hus⟩ := exists_readings_unread lex hline hreader
  have hwith : ∀ ends : Bool, readings lex
      { src with streams := above ++ { file with endInput := ends } :: below } =
      (as.map (Result.below (withStream { src with streams := below } file).frames) ++
        file.pushed.map (fun t => .ok (some t)) ++
        ls.map (Result.below (frames { src with streams := below }))) ++ₛ
      readings lex (withStream { src with streams := below }
        { file with cursor := cur, pushed := [], endInput := ends }) := by
    intro ends
    -- The mark does not show in the positions.
    have hfirst := hsrc (withStream { src with streams := below } { file with endInput := ends })
    refine hfirst.trans ?_
    rw [readings_withStream_pushed, Stream'.append_append_stream, Stream'.append_append_stream]
    exact congrArg _ (congrArg _ (hls ends { src with streams := below }))
  refine ⟨as, ls, us, has, ?_, hgives, ?_, fun hend hreadable => ?_, fun hend => ?_⟩
  · have halone := hsrc { src with streams := [] }
    have hnil : readings lex { src with streams := [] } = Stream'.const (.ok none) :=
      readings_of_nil rfl
    rw [hnil, show frames { src with streams := [] } = [] from rfl,
      List.map_congr_left fun r _ => Result.below_nil r, List.map_id'] at halone
    rwa [List.append_nil] at halone
  · have hmarked : src.endInput =
        { src with streams := above ++ { file with endInput := true } :: below } := by
      rw [Source.endInput, hstreams, mark_append habove hfile]
    rw [hmarked, hwith, readings_withStream_of_end _ rfl hline (.inl rfl)]
  · obtain ⟨hgives, hlines⟩ := hus hend hreadable
    refine ⟨hgives, ?_⟩
    have hsame : src.streams = above ++ { file with endInput := false } :: below := by
      rw [hstreams, ← hend]
    have hlines := hlines { src with streams := below }
    rw [hend] at hlines
    rw [Stream'.append_append_stream, ← hlines, ← hwith]
    exact readings_of_streams hsame
  · have hsame : src.streams = above ++ { file with endInput := true } :: below := by
      rw [hstreams, ← hend]
    rw [Source.endInput, hstreams, mark_append habove hfile, ← hsame]

/-- A file with two lines, none of them loaded, and a token that was pushed back to it; one
    text stands above it, and another one below. -/
theorem Reached.endInput_cuts_off_lines :
    let lex : Lexicon :=
      { catcode := Catcode.default .plain false, endLineChar := fun _ => some 13 }
    let reader : Reader :=
      { Reader.ofBytes [120, 10, 121, 10] "a.tex" with path := "/a.tex" }
    let file : Stream := { reader := some reader, pushed := [.space] }
    let rest : Source := ({ baseDir := "/" } : Source).pushText "c" "outer"
    let src : Source := ({ rest.withStream file with pending := 1 }).pushText "b" "inner"
    src.Reached ∧ ∃ as us : List Result,
      List.Forall₂ (fun x => Gives (some x)) ([['x'], ['y']].flatMap (lexLine lex)) us ∧
      readings lex src.endInput = (as ++ [.ok (some .space)]) ++ₛ readings lex rest ∧
      readings lex src =
        (as ++ [.ok (some .space)] ++ us.map (Result.below rest.frames)) ++ₛ readings lex rest := by
  have hopen : (({ baseDir := "/" } : Source).pushText "c" "outer").includeFile
      { entries := Std.TreeMap.ofList
          [("/a.tex", FileEntry.file { content := "x\ny\n", size := 4, modified := 0 })] }
      "/a.tex" =
      .ok ((({ baseDir := "/" } : Source).pushText "c" "outer").withStream
          { reader := some { Reader.ofBytes [120, 10, 121, 10] "a.tex" with path := "/a.tex" } },
        { Reader.ofBytes [120, 10, 121, 10] "a.tex" with path := "/a.tex" }) := by rfl
  intro lex reader file rest src
  have hreached : src.Reached :=
    ((((Reached.empty "/").pushText "c" "outer").includeFile hopen).push [.space]).pushText
      "b" "inner"
  have hunread : file.unreadLines = [['x'], ['y']] := by rfl
  have habove : ∀ s ∈ [({ reader := some (Reader.ofText "b" "inner") } : Stream)],
      s.isFile = false := by
    intro s hs
    rw [List.mem_singleton.mp hs]
    rfl
  obtain ⟨as, ls, us, -, -, hls, hend, hlines, -⟩ :=
    (hreached.endInput_cuts_off lex).2.1 _ file rest.streams rfl habove rfl
  -- No line is loaded.
  have hnone : LineLexer.lex lex.catcode file.cursor.state file.cursor.rest = [] := lex_nil _
  rw [hnone, List.forall₂_nil_left_iff] at hls
  subst hls
  obtain ⟨hus, hsrc⟩ := hlines rfl (by rintro _ ⟨⟩; rfl)
  rw [hunread] at hus
  refine ⟨hreached, as.map (Result.below (rest.withStream file).frames), us, hus, ?_, ?_⟩
  · have hstreams : readings lex { src with streams := rest.streams } = readings lex rest :=
      readings_of_streams rfl
    rw [hend, List.map_nil, List.append_nil]
    exact congrArg _ hstreams
  · have hstreams : readings lex { src with streams := rest.streams } = readings lex rest :=
      readings_of_streams rfl
    rw [hsrc, List.map_nil, List.append_nil]
    exact congrArg _ hstreams

end Source

end TexEngine
