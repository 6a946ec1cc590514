/-
  TexEngine.Proofs.Input.Reads

  What one reading of a stream can do.  The rest of the current line gives a lexeme; or it
  gives none, and the first of the following lines that gives one does; or no line does, and
  the stream is exhausted; or the lines cannot be read at all.  Nothing else about the stream
  changes: the tokens that were pushed back and the mark for the end of the input stay.

  Each of these is a constructor of `Stream.Reads`, and `Stream.reads` says that there are
  no others.
-/
import TexEngine.Proofs.Input.LineLexer

namespace TexEngine

/-- A line as the lexer finds it: blanks at its end are dropped, and the character at the
    end of lines is appended. -/
def Lexicon.lineStart (lex : Lexicon) (line : List Char) : Cursor :=
  Cursor.ofLine (lex.endLineChar ()) line

namespace Stream

/-- The lines that are not loaded yet. -/
def unreadLines (s : Stream) : List (List Char) :=
  (s.reader.map Reader.lines).getD []

theorem unreadLines_of_reader {s : Stream} {r : Reader} (hreader : s.reader = some r) :
    s.unreadLines = r.lines := by
  rw [unreadLines, hreader]
  rfl

/-- One reading of a stream: its result, and the stream behind it. -/
inductive Reads (lex : Lexicon) (s : Stream) : StreamResult → Stream → Prop where
  | sameLine {x : Lexeme} {cursor : Cursor}
      (hread : s.cursor.next? lex.catcode = (some x, cursor)) :
      Reads lex s (resultOf (some x)) { s with cursor }
  | laterLine {x : Lexeme} {cursor : Cursor} {r r' : Reader} {skipped lines : List (List Char)}
      {line : List Char} (hline : (s.cursor.next? lex.catcode).1 = none)
      (hend : s.endInput = false) (hreader : s.reader = some r)
      (hlines : r.lines = skipped ++ line :: lines)
      (hskipped : ∀ l ∈ skipped, ((lex.lineStart l).next? lex.catcode).1 = none)
      (hread : (lex.lineStart line).next? lex.catcode = (some x, cursor))
      (hnext : r.Later (skipped.length + 1) r') (hrest : r'.lines = lines) :
      Reads lex s (resultOf (some x)) { s with reader := some r', cursor }
  | exhausted {cursor : Cursor} {reader : Option Reader}
      (hline : (s.cursor.next? lex.catcode).1 = none)
      (hlines : s.endInput = false →
        ∀ l ∈ s.unreadLines, ((lex.lineStart l).next? lex.catcode).1 = none)
      (hrest : cursor.rest = []) : Reads lex s .exhausted { s with reader, cursor }
  | failed {message : String} {cursor : Cursor} {r r' : Reader}
      (hline : (s.cursor.next? lex.catcode).1 = none) (hend : s.endInput = false)
      (hreader : s.reader = some r) (hfailure : r.failure? = some message)
      (hnext : r.Later 0 r') (hlines : r'.lines = []) (hrest : cursor.rest = []) :
      Reads lex s (.fault (.failure message)) { s with reader := some r', cursor }

variable {lex : Lexicon}

/-- The fault of a lexeme is about a character that is not allowed. -/
theorem exists_invalid_of_resultOf {x : Lexeme} {f : Fault} (h : .fault f = resultOf (some x)) :
    ∃ c : CharCode, f = .tex { kind := .invalidCharacter, details := [c.text] } := by
  cases x with
  | token t => contradiction
  | invalid c => exact ⟨c, StreamResult.fault.inj h⟩

/-! ## The current line -/

/-- A cursor that finds nothing is at the end of its line. -/
theorem rest_of_next?_none {cat : CharCode → Catcode} {cur : Cursor}
    (h : (cur.next? cat).1 = none) : (cur.next? cat).2.rest = [] := by
  have hnext := LineLexer.lex_next? cat cur
  revert hnext h
  cases cur.next? cat with
  | mk x? cursor =>
    rintro h hnext
    obtain rfl : x? = none := h
    exact hnext.2

/-! ## The lines that follow -/

theorem readLines_of_failure (lex : Lexicon) {r : Reader} {message : String}
    (h : r.failure? = some message) (cur : Cursor) :
    ∃ next, readLines lex r cur = (.fault (.failure message), next, cur) ∧ next.lines = [] ∧
      r.Later 0 next := by
  obtain ⟨next, hread, hrest, hnext⟩ := Reader.readLine_of_failure h
  refine ⟨next, ?_, hrest, hnext⟩
  rw [readLines.eq_def]
  grind

/-- The lines that follow are tried one after the other. -/
theorem readLines_cases (lex : Lexicon) {r : Reader} {ls : List (List Char)}
    (hfailure : r.failure? = none) (hls : r.lines = ls) {cur : Cursor} (hcur : cur.rest = []) :
    (∃ skipped line lines x r' cursor, ls = skipped ++ line :: lines ∧
      readLines lex r cur = (resultOf (some x), r', cursor) ∧
      r.Later (skipped.length + 1) r' ∧ r'.lines = lines ∧
      (∀ l ∈ skipped, ((lex.lineStart l).next? lex.catcode).1 = none) ∧
      (lex.lineStart line).next? lex.catcode = (some x, cursor)) ∨
    ∃ r' cursor, readLines lex r cur = (.exhausted, r', cursor) ∧ cursor.rest = [] ∧
      ∀ l ∈ ls, ((lex.lineStart l).next? lex.catcode).1 = none := by
  induction ls generalizing r cur with
  | nil =>
    obtain ⟨next, hread, -, -⟩ := readLines_of_nil lex hfailure hls cur
    exact .inr ⟨next, cur, hread, hcur, by simp⟩
  | cons l ls ih =>
    obtain ⟨next, hrest, hnext, hstep⟩ := readLines_of_cons lex hls cur
    cases hread : (lex.lineStart l).next? lex.catcode with
    | mk x? cursor =>
      have hfound : (Cursor.ofLine (lex.endLineChar ()) l).next? lex.catcode = (x?, cursor) := hread
      rw [hfound] at hstep
      cases x? with
      | some x => exact .inl ⟨[], l, ls, x, next, cursor, rfl, hstep, hnext, hrest, by simp, hread⟩
      | none =>
        have hnone : ((lex.lineStart l).next? lex.catcode).1 = none := congrArg Prod.fst hread
        have hend : cursor.rest = [] := by
          have hend := rest_of_next?_none hnone
          rwa [hread] at hend
        have hstep : readLines lex r cur = readLines lex next cursor := hstep
        rw [hstep]
        -- The line is one more that is skipped.
        rcases ih (hnext.failure.trans hfailure) hrest hend with
          ⟨skipped, line, lines, x, r', cursor', rfl, hresult, hlater, hlines, hskipped, hfound⟩ |
          ⟨r', cursor', hresult, hend', hskipped⟩
        · refine .inl ⟨l :: skipped, line, lines, x, r', cursor', rfl, hresult, ?_, hlines,
            List.forall_mem_cons.mpr ⟨hnone, hskipped⟩, hfound⟩
          rw [List.length_cons, Nat.add_comm skipped.length, Nat.add_assoc]
          exact hnext.trans hlater
        · exact .inr ⟨r', cursor', hresult, hend', List.forall_mem_cons.mpr ⟨hnone, hskipped⟩⟩

/-! ## The stream -/

/-- What a reading does is one of the possibilities. -/
theorem reads (lex : Lexicon) (s : Stream) : Reads lex s (s.read lex).1 (s.read lex).2 := by
  unfold read
  -- A token of the line that is loaded comes first; only behind it is the reader asked.
  cases hcursor : s.cursor.next? lex.catcode with
  | mk x? cursor =>
    cases x? with
    | some x => exact .sameLine hcursor
    | none =>
      have hline : (s.cursor.next? lex.catcode).1 = none := congrArg Prod.fst hcursor
      have hrest : cursor.rest = [] := by
        have hend := rest_of_next?_none hline
        rwa [hcursor] at hend
      dsimp only
      split
      · rename_i hreader
        refine .exhausted hline (fun _ l hl => ?_) hrest
        rw [unreadLines, hreader] at hl
        contradiction
      · rename_i r hreader
        split
        · -- With the mark, the lines that follow are not looked at.
          rename_i hend
          refine .exhausted hline (fun hfalse => ?_) hrest
          rw [hend] at hfalse
          contradiction
        · rename_i hend
          have hend : s.endInput = false := by simpa using hend
          cases hfailure : r.failure? with
          | some message =>
            obtain ⟨r', hresult, hlines, hnext⟩ := readLines_of_failure lex hfailure cursor
            rw [hresult]
            exact .failed hline hend hreader hfailure hnext hlines hrest
          | none =>
            rcases readLines_cases lex hfailure rfl hrest with
              ⟨skipped, line, lines, x, r', cursor', hlines, hresult, hnext, hleft, hskipped,
                hread⟩ |
              ⟨r', cursor', hresult, hrest', hskipped⟩
            · rw [hresult]
              exact .laterLine hline hend hreader hlines hskipped hread hnext hleft
            · rw [hresult]
              refine .exhausted hline (fun _ l hl => hskipped l ?_) hrest'
              rwa [unreadLines_of_reader hreader] at hl

theorem reads_of_read {s s' : Stream} {result : StreamResult} (h : s.read lex = (result, s')) :
    Reads lex s result s' := by
  have hreads := reads lex s
  rwa [h] at hreads

end Stream

end TexEngine
