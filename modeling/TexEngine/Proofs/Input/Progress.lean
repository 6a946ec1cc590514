/-
  TexEngine.Proofs.Input.Progress

  Reading makes progress.  Every lexeme uses up something of the input: a token that was
  pushed back, or at least one code of a line.  Replacing ^^ notation makes no line longer,
  and a line that is loaded has at most one code more than it had characters, for the
  character at its end.  So the readings come to the end of the input, and a bound for their
  number is known beforehand.

  This does not depend on the categories, which may be others at every reading.
-/
import TexEngine.Env.CodeTable
import TexEngine.Proofs.Input.States

namespace TexEngine

/-! ## Lines -/

namespace Cursor

variable {cat : CharCode → Catcode}

theorem length_controlSequence_le (cat : CharCode → Catcode) (cur : Cursor) :
    (cur.controlSequence cat).2.rest.length ≤ cur.rest.length := by
  rw [(controlSequence_spec cat cur).2.2]
  exact LineLexer.length_name_le cat cur.rest

/-- The code at the position is one of those that were not read. -/
theorem length_lt_of_reduce {cur : Cursor}
    (hnext : (cur.reduce cat).pos < (cur.reduce cat).line.length) :
    (cur.reduce cat).advance.rest.length < cur.rest.length :=
  LineLexer.length_lt_of_unhat (unhat_rest hnext)

/-- A lexeme uses up at least one code. -/
theorem length_lt_of_next? {cur cur' : Cursor} {x : Lexeme}
    (h : cur.next? cat = (some x, cur')) : cur'.rest.length < cur.rest.length := by
  fun_induction next? cat cur with
  | case1 cur hlt next hnext c after hcat t cur'' hname =>
    have hafter := length_controlSequence_le cat after
    rw [hname] at hafter
    obtain ⟨-, rfl⟩ := Prod.mk.inj h
    exact hafter.trans_lt (length_lt_of_reduce hnext)
  | case2 cur hlt next hnext c after | case3 cur hlt next hnext c after =>
    obtain ⟨-, rfl⟩ := Prod.mk.inj h
    rw [LineLexer.rest_finish]
    exact (Nat.zero_le _).trans_lt (length_lt_of_reduce hnext)
  | case6 cur hlt next hnext c after hcat hstate ih | case7 cur hlt next hnext c after hcat ih =>
    exact (ih h).trans (length_lt_of_reduce hnext)
  | case5 cur hlt next hnext | case9 cur hlt next hnext | case10 cur hlt next hnext =>
    obtain ⟨-, rfl⟩ := Prod.mk.inj h
    exact length_lt_of_reduce hnext
  | case4 | case8 | case11 => simp at h

end Cursor

/-- A line that is loaded has at most one code more than it had characters. -/
theorem Lexicon.length_lineStart_le (lex : Lexicon) (line : List Char) :
    (lex.lineStart line).rest.length ≤ line.length + 1 := by
  have hkept : (line.reverse.dropWhile (· == ' ')).length ≤ line.length := by
    simpa using (List.dropWhile_sublist (· == ' ') (l := line.reverse)).length_le
  have hend : (lex.endLineChar ()).toList.length ≤ 1 := by
    cases lex.endLineChar () <;> simp
  simp only [lineStart, Cursor.ofLine, Cursor.rest, List.drop_zero, List.length_append,
    List.length_map, List.length_reverse]
  omega

/-! ## Streams -/

namespace Stream

variable {lex : Lexicon} {s s' : Stream} {result : StreamResult}

/-- A bound for what a stream has to give, apart from the tokens that were pushed back: the
    codes of the current line, and all characters of the lines that follow, with one more for
    each line. -/
def left (s : Stream) : Nat :=
  s.cursor.rest.length + (s.unreadLines.map fun line => line.length + 1).sum

/-- A lexeme takes something away from what is left. -/
theorem Reads.progress (h : Reads lex s result s') :
    (∃ x, result = resultOf (some x) ∧ s'.left < s.left) ∨ result = .exhausted ∨
      ∃ message, result = .fault (.failure message) := by
  cases h with
  | @sameLine x cur hread =>
    exact .inl ⟨x, rfl, Nat.add_lt_add_right (Cursor.length_lt_of_next? hread) _⟩
  | @laterLine x cur r r' skipped lines line hline hend hreader hlines hskipped hread hnext hrest =>
    -- The line pays for its lexeme, and for the character at its end.
    refine .inl ⟨x, rfl, ?_⟩
    have hfound := Cursor.length_lt_of_next? hread
    have hloaded := lex.length_lineStart_le line
    unfold left
    rw [unreadLines_of_reader hreader, unreadLines_of_reader (r := r') rfl, hlines, hrest]
    simp only [List.map_append, List.map_cons, List.sum_append, List.sum_cons]
    omega
  | exhausted => exact .inr (.inl rfl)
  | failed => exact .inr (.inr ⟨_, rfl⟩)

end Stream

/-! ## Sources -/

namespace Source

/-- The result is a token or the error for an invalid character. -/
def IsLexeme : Except Fault (Option Token) → Prop
  | .ok t? => t?.isSome
  | .error f => f.hasKind .invalidCharacter

variable {lex : Lexicon} {src : Source}

/-- A bound for what the input has to give. -/
def left (src : Source) : Nat :=
  src.pending + (src.streams.map Stream.left).sum

theorem nextFrom_progress (lex : Lexicon) (src : Source) (closed : List StreamId)
    (streams : List Stream) (h : src.pending = pushedTokens streams) :
    ((nextFrom lex src closed streams).result = .ok none ∧
        (nextFrom lex src closed streams).source.streams = []) ∨
      (∃ message, (nextFrom lex src closed streams).result = .error (.failure message)) ∨
      IsLexeme (nextFrom lex src closed streams).result ∧
        (nextFrom lex src closed streams).source.left <
          src.pending + (streams.map Stream.left).sum := by
  fun_induction nextFrom lex src closed streams with
  | case1 closed => exact .inl ⟨rfl, rfl⟩
  | case2 closed s rest t ts hpushed =>
    rw [pushedTokens_cons, hpushed, List.length_cons] at h
    refine .inr (.inr ⟨rfl, ?_⟩)
    -- The count is not zero, since the token is counted.
    show src.pending - 1 + (s.left + (rest.map Stream.left).sum) < _
    rw [List.map_cons, List.sum_cons]
    omega
  | case3 closed s rest hpushed t s' hs' =>
    have hreads := Stream.reads_of_read hs'
    rcases hreads.progress with ⟨x, -, hlt⟩ | hended | ⟨message, hfailed⟩
    · refine .inr (.inr ⟨rfl, ?_⟩)
      show src.pending + (s'.left + (rest.map Stream.left).sum) < _
      rw [List.map_cons, List.sum_cons]
      omega
    · contradiction
    · contradiction
  | case4 closed s rest hpushed f s' hs' src' =>
    have hreads := Stream.reads_of_read hs'
    rcases hreads.progress with ⟨x, hx, hlt⟩ | hended | ⟨message, hfailed⟩
    · refine .inr (.inr ⟨?_, ?_⟩)
      · obtain ⟨c, rfl⟩ := Stream.exists_invalid_of_resultOf hx
        rfl
      · show src.pending + (s'.left + (rest.map Stream.left).sum) < _
        rw [List.map_cons, List.sum_cons]
        omega
    · contradiction
    · obtain rfl := StreamResult.fault.inj hfailed
      exact .inr (.inl ⟨message, rfl⟩)
  | case5 closed s rest hpushed s' hs' ih =>
    rw [pushedTokens_cons, hpushed, List.length_nil, Nat.zero_add] at h
    rcases ih h with hend | hfailed | ⟨hlexeme, hlt⟩
    · exact .inl hend
    · exact .inr (.inl hfailed)
    · refine .inr (.inr ⟨hlexeme, ?_⟩)
      rw [List.map_cons, List.sum_cons]
      omega

/-- A reading gives the end of the input, it fails, or it gives a lexeme and leaves less. -/
theorem Sound.next_progress (h : src.Sound) (lex : Lexicon) :
    ((src.next lex).result = .ok none ∧ (src.next lex).source.streams = []) ∨
      (∃ message, (src.next lex).result = .error (.failure message)) ∨
      IsLexeme (src.next lex).result ∧ (src.next lex).source.left < src.left :=
  nextFrom_progress lex src [] src.streams h.pending

/-! ## All readings -/

/-- The result of the reading with the given number, where each reading has categories of its
    own. -/
def reading (src : Source) (lexs : Nat → Lexicon) : Nat → Except Fault (Option Token)
  | 0 => (src.next (lexs 0)).result
  | n + 1 => reading (src.next (lexs 0)).source (fun i => lexs (i + 1)) n

variable {lexs : Nat → Lexicon}

/-- Behind the end of the input, every reading gives the end of the input. -/
theorem reading_of_nil (h : src.streams = []) (n : Nat) : src.reading lexs n = .ok none := by
  have hnext : ∀ lex, src.next lex = { result := .ok none, source := src } := by
    obtain ⟨baseDir, streams, pending⟩ := src
    obtain rfl : streams = [] := h
    exact fun lex => rfl
  induction n generalizing lexs with
  | zero => rw [reading, hnext]
  | succ n ih => rw [reading, hnext, ih]

theorem Sound.exists_end (h : src.Sound)
    (hfiles : ∀ n message, src.reading lexs n ≠ .error (.failure message)) :
    ∃ n ≤ src.left, (∀ i < n, IsLexeme (src.reading lexs i)) ∧
      ∀ i ≥ n, src.reading lexs i = .ok none := by
  induction hleft : src.left using Nat.strong_induction_on generalizing src lexs with
  | _ k ih =>
    subst hleft
    rcases h.next_progress (lexs 0) with ⟨hend, hstreams⟩ | ⟨message, hfailed⟩ | ⟨hlexeme, hlt⟩
    · refine ⟨0, Nat.zero_le _, fun i hi => absurd hi (Nat.not_lt_zero i), fun i _ => ?_⟩
      cases i with
      | zero => exact hend
      | succ i => exact reading_of_nil hstreams i
    · exact absurd hfailed (hfiles 0 message)
    · -- The remaining readings are those of an input with less to give.
      obtain ⟨n, hn, hbefore, hbehind⟩ :=
        ih _ hlt (h.next (lexs 0)) (fun n message => hfiles (n + 1) message) rfl
      refine ⟨n + 1, by omega, fun i hi => ?_, fun i hi => ?_⟩
      · cases i with
        | zero => exact hlexeme
        | succ i => exact hbefore i (Nat.lt_of_succ_lt_succ hi)
      · obtain ⟨i, rfl⟩ := Nat.exists_eq_add_of_le' (Nat.le_trans (Nat.le_add_left 1 n) hi)
        exact hbehind i (Nat.le_of_succ_le_succ hi)

/-- Only files can fail to be read. -/
theorem nextFrom_ne_failure (lex : Lexicon) (src : Source) (closed : List StreamId)
    (streams : List Stream) (h : ∀ s ∈ streams, s.Readable) (message : String) :
    (nextFrom lex src closed streams).result ≠ .error (.failure message) := by
  fun_induction nextFrom lex src closed streams with
  | case1 | case2 | case3 => simp
  | case4 closed s rest hpushed f s' hs' src' =>
    have hreads := Stream.reads_of_read hs'
    obtain ⟨x, hx⟩ := hreads.exists_resultOf (List.forall_mem_cons.mp h).1 (by simp)
    obtain ⟨c, rfl⟩ := Stream.exists_invalid_of_resultOf hx
    simp [annotate]
  | case5 closed s rest hpushed s' hs' ih => exact ih (List.forall_mem_cons.mp h).2

theorem reading_ne_failure (h : ∀ s ∈ src.streams, s.Readable) (n : Nat) (message : String) :
    src.reading lexs n ≠ .error (.failure message) := by
  induction n generalizing src lexs with
  | zero => exact nextFrom_ne_failure (lexs 0) src [] src.streams h message
  | succ n ih =>
    refine ih (forall_nextFrom (lexs 0) (fun s t ts hs _ => hs) ?_ src [] src.streams h)
    intro s result s' hs hread hresult
    have hreads := Stream.reads_of_read hread
    exact (hreads.keeps hresult).2.2 hs

theorem left_eq (src : Source) :
    src.left = src.pending + (src.streams.map fun s => s.cursor.rest.length).sum +
      ((src.streams.flatMap Stream.unreadLines).map fun line => line.length + 1).sum := by
  rw [left, Nat.add_assoc]
  congr 1
  induction src.streams with
  | nil => rfl
  | cons s rest ih =>
    rw [List.map_cons, List.sum_cons, ih, List.map_cons, List.sum_cons, List.flatMap_cons,
      List.map_append, List.sum_append, Stream.left]
    omega

/-- Readings come to the end of the input, whatever the categories are at each of them, if no
    file fails to be read.  Before the end there are only tokens and invalid characters, and
    behind it there is nothing.  Their number is bounded: one for each token that was pushed
    back, each code that is left in the current lines, each character of the lines that are
    not loaded yet, and each of these lines. -/
theorem Reached.readings_end (h : src.Reached)
    (hfiles : ∀ n message, src.reading lexs n ≠ .error (.failure message)) :
    ∃ n ≤ src.pending + (src.streams.map fun s => s.cursor.rest.length).sum +
        ((src.streams.flatMap Stream.unreadLines).map fun line => line.length + 1).sum,
      (∀ i < n, IsLexeme (src.reading lexs i)) ∧ ∀ i ≥ n, src.reading lexs i = .ok none := by
  rw [← left_eq]
  exact h.sound.exists_end hfiles

/-- One token that was pushed back, and two lines with three and four characters; the
    categories and the character at the end of lines alternate. -/
theorem Reached.readings_end_lines :
    let src := (({} : Source).pushText "a b\n^^5c" "text").push [.space]
    let lexs : Nat → Lexicon := fun i =>
      { catcode := Catcode.default (if i % 2 = 0 then .plain else .initex) false,
        endLineChar := fun _ => if i % 2 = 0 then some 13 else none }
    src.Reached ∧ (∀ n message, src.reading lexs n ≠ .error (.failure message)) ∧
      ∃ n ≤ 10, (∀ i < n, IsLexeme (src.reading lexs i)) ∧
        ∀ i ≥ n, src.reading lexs i = .ok none := by
  intro src lexs
  have hreached : src.Reached := ((Reached.empty "").pushText _ _).push _
  have hfiles : ∀ n message, src.reading lexs n ≠ .error (.failure message) := by
    refine reading_ne_failure fun s hs => ?_
    rw [List.mem_singleton.mp hs]
    rintro _ ⟨⟩
    exact Reader.failure?_ofBytes _ _
  exact ⟨hreached, hfiles, hreached.readings_end hfiles⟩

end Source

end TexEngine
