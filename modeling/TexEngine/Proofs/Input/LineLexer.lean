/-
  TexEngine.Proofs.Input.LineLexer

  A text is read line by line, and each line by a function of its characters
  alone.  `lexLine` is this function: it takes a finished list of characters and
  gives all lexemes of the line at once.  It knows neither positions nor streams,
  and nothing that it has read is changed.

  A cursor, which moves along a line and rewrites it, is seen through what stands
  behind its position: every step of the cursor is a step of the list (`rest_reduce`,
  `rest_skipLetters`, `lex_next?`), while what stands in front of the position
  stays as it was (`take_reduce`).

  The main theorem says that successive readings from a source that holds only a
  text give the lexemes of its lines, in order, and then the end of the input.
  What carries it is `Holds`, the lexemes that a stream has still to give: one
  reading takes off the first of them.
-/
import TexEngine.Input.Source
import TexEngine.Proofs.Input.ReadLine
import Mathlib.Data.List.DropRight

namespace TexEngine

/-! ## Lexing a line -/

namespace LineLexer

/-- One replacement of ^^ notation at the head of a list. -/
def hat? (cat : CharCode → Catcode) : List CharCode → Option (List CharCode)
  | c :: c' :: x :: rest =>
    if cat c = .superscript ∧ c' = c then
      match rest with
      | y :: rest' =>
        if Hat.isHex x ∧ Hat.isHex y then some ((16 * Hat.hexValue x + Hat.hexValue y) :: rest')
        else if x < 128 then some (Hat.flip x :: rest)
        else none
      | [] => if x < 128 then some [Hat.flip x] else none
    else none
  | _ => none

/-- A replacement makes a list shorter. -/
theorem length_lt_of_hat? {cat : CharCode → Catcode} {cs cs' : List CharCode}
    (h : hat? cat cs = some cs') : cs'.length < cs.length := by
  unfold hat? at h
  grind

/-- The list with ^^ notation at its head replaced as often as possible. -/
def unhat (cat : CharCode → Catcode) (cs : List CharCode) : List CharCode :=
  match _h : hat? cat cs with
  | some cs' => unhat cat cs'
  | none => cs
termination_by cs.length
decreasing_by exact length_lt_of_hat? _h

theorem length_unhat_le (cat : CharCode → Catcode) (cs : List CharCode) :
    (unhat cat cs).length ≤ cs.length := by
  fun_induction unhat cat cs with
  | case1 cs cs' h ih => exact ih.trans (length_lt_of_hat? h).le
  | case2 cs h => exact Nat.le_refl _

theorem length_lt_of_unhat {cat : CharCode → Catcode} {cs rest : List CharCode} {c : CharCode}
    (h : unhat cat cs = c :: rest) : rest.length < cs.length := by
  have hle := length_unhat_le cat cs
  rw [h, List.length_cons] at hle
  exact hle

/-- The letters at the head of a list, and what follows them. -/
def word (cat : CharCode → Catcode) (cs : List CharCode) : List CharCode × List CharCode :=
  match _h : unhat cat cs with
  | [] => ([], [])
  | c :: rest => if cat c = .letter then (word cat rest).map (c :: ·) id else ([], c :: rest)
termination_by cs.length
decreasing_by exact length_lt_of_unhat _h

theorem length_word_le (cat : CharCode → Catcode) (cs : List CharCode) :
    (word cat cs).2.length ≤ cs.length := by
  fun_induction word cat cs with
  | case1 cs h => exact Nat.zero_le _
  | case2 cs c rest h hletter ih => exact ih.trans (length_lt_of_unhat h).le
  | case3 cs c rest h hletter => exact h ▸ length_unhat_le cat cs

/-- The name of a control sequence, behind its escape character: a word, or one
    character that is no letter, or nothing at the end of the line.  Blanks are
    skipped behind a word, behind a blank and at the end of the line. -/
def name (cat : CharCode → Catcode) (cs : List CharCode) :
    List CharCode × LineState × List CharCode :=
  match unhat cat cs with
  | [] => ([], .skipBlanks, [])
  | c :: rest =>
    if cat c = .letter then (c :: (word cat rest).1, .skipBlanks, (word cat rest).2)
    else ([c], if cat c = .space then .skipBlanks else .midLine, rest)

theorem length_name_le (cat : CharCode → Catcode) (cs : List CharCode) :
    (name cat cs).2.2.length ≤ cs.length := by
  unfold name
  split
  · exact Nat.zero_le _
  · rename_i c rest h
    have hrest := length_lt_of_unhat h
    split
    · exact (length_word_le cat rest).trans hrest.le
    · exact hrest.le

/-- All lexemes of the rest of a line. -/
def lex (cat : CharCode → Catcode) (state : LineState) (cs : List CharCode) : List Lexeme :=
  match _h : unhat cat cs with
  | [] => []
  | c :: rest =>
    match cat c with
    | .escape =>
      .token (.cs (CharCode.listText (name cat rest).1)) ::
        lex cat (name cat rest).2.1 (name cat rest).2.2
    | .endOfLine =>
      match state with
      | .newLine => [.token (.cs "par")]
      | .midLine => [.token .space]
      | .skipBlanks => []
    | .space =>
      if state = .midLine then .token .space :: lex cat .skipBlanks rest else lex cat state rest
    | .ignored => lex cat state rest
    | .comment => []
    | .invalid => .invalid c :: lex cat state rest
    | k => .token (.char c k) :: lex cat .midLine rest
termination_by cs.length
decreasing_by
  all_goals have hrest := length_lt_of_unhat _h
  · exact (length_name_le cat rest).trans_lt hrest
  all_goals exact hrest

/-- All lexemes of a line: blanks at its end do not count, and the end-of-line
    character, if there is one, stands behind the others. -/
def lexLine (lexicon : Lexicon) (line : List Char) : List Lexeme :=
  lex lexicon.catcode .newLine
    ((line.rdropWhile (· = ' ')).map CharCode.ofChar ++ (lexicon.endLineChar ()).toList)

/-! ## A line that is rewritten -/

variable {cat : CharCode → Catcode}

/-- One replacement, by whether two hexadecimal digits follow. -/
theorem hat?_cons (c c' x : CharCode) (rest : List CharCode) :
    hat? cat (c :: c' :: x :: rest) =
      if cat c = .superscript ∧ c' = c then
        match Hat.hexPair? x rest.head? with
        | some v => some (v :: rest.tail)
        | none => if x < 128 then some (Hat.flip x :: rest) else none
      else none := by
  cases rest with
  | nil => rfl
  | cons y rest =>
    simp only [hat?, Hat.hexPair?, List.head?_cons, List.tail_cons, Option.bind_some]
    grind

theorem unhat_of_hat? {cs cs' : List CharCode} (h : hat? cat cs = some cs') :
    unhat cat cs = unhat cat cs' := by
  rw [unhat.eq_def]
  grind

theorem unhat_of_hat?_none {cs : List CharCode} (h : hat? cat cs = none) : unhat cat cs = cs := by
  rw [unhat.eq_def]
  grind

/-- Nothing is left to be replaced. -/
theorem hat?_unhat (cat : CharCode → Catcode) (cs : List CharCode) :
    hat? cat (unhat cat cs) = none := by
  fun_induction unhat cat cs with
  | case1 cs cs' h ih => exact ih
  | case2 cs h => exact h

theorem unhat_unhat (cat : CharCode → Catcode) (cs : List CharCode) :
    unhat cat (unhat cat cs) = unhat cat cs :=
  unhat_of_hat?_none (hat?_unhat cat cs)

theorem unhat_nil (cat : CharCode → Catcode) : unhat cat [] = [] :=
  unhat_of_hat?_none rfl

theorem word_of_unhat (cat : CharCode → Catcode) (cs : List CharCode) :
    word cat (unhat cat cs) = word cat cs := by
  rw [word.eq_def, unhat_unhat, ← word.eq_def]

end LineLexer

namespace Cursor

open LineLexer

variable {cat : CharCode → Catcode} {cur : Cursor}

theorem rest_of_lt (h : cur.pos < cur.line.length) :
    cur.rest = cur.line[cur.pos] :: cur.advance.rest :=
  List.drop_eq_getElem_cons h

@[simp] theorem rest_nil (state : LineState) : rest { line := [], state } = [] := rfl

theorem rest_of_le (h : cur.line.length ≤ cur.pos) : cur.rest = [] :=
  List.drop_eq_nil_of_le h

/-- What is moved to the position is what stands there afterwards. -/
theorem rest_replace (cur : Cursor) (n : Nat) (c : CharCode)
    (h : cur.pos + n ≤ cur.line.length) (hn : 0 < n) :
    (cur.replace n c).rest = c :: cur.rest.drop n := by
  have htake : (cur.line.take cur.pos).length = cur.pos := List.length_take_of_le (by omega)
  have hset : cur.pos + n - 1 < (cur.line.set (cur.pos + n - 1) c).length := by
    rw [List.length_set]
    omega
  rw [rest, rest, replace, List.drop_drop]
  dsimp only
  rw [List.take_set_of_le (by omega), List.drop_left' htake, List.drop_eq_getElem_cons hset,
    List.getElem_set_self, List.drop_set_of_lt (by omega),
    show cur.pos + n - 1 + 1 = cur.pos + n by omega]

/-- What stands in front of the position is not touched. -/
theorem take_replace (cur : Cursor) (n : Nat) (c : CharCode) (h : cur.pos ≤ cur.line.length)
    (hn : 0 < n) :
    (cur.replace n c).line.take cur.pos = cur.line.take cur.pos := by
  have htake : (cur.line.take cur.pos).length = cur.pos := List.length_take_of_le h
  rw [replace]
  dsimp only
  rw [List.take_set_of_le (by omega), List.take_left' htake]

theorem rest_of_three (hfirst : cur.pos < cur.line.length)
    (hsecond : cur.pos + 1 < cur.line.length) (h : cur.pos + 2 < cur.line.length) :
    cur.rest = cur.line[cur.pos] :: cur.line[cur.pos + 1] :: cur.line[cur.pos + 2] ::
      cur.line.drop (cur.pos + 3) := by
  rw [rest, List.drop_eq_getElem_cons hfirst, List.drop_eq_getElem_cons hsecond,
    List.drop_eq_getElem_cons h]

/-- Rewriting the line is rewriting what is not read yet. -/
theorem rest_reduce (cat : CharCode → Catcode) (cur : Cursor) :
    (cur.reduce cat).rest = unhat cat cur.rest := by
  fun_induction reduce cat cur with
  | case1 cur h hfirst hsecond c hc =>
    refine (unhat_of_hat?_none ?_).symm
    rw [rest_of_three hfirst hsecond h, hat?_cons, if_neg]
    grind
  | case2 cur h hfirst hsecond c hc x v hv ih =>
    have hfour : cur.pos + 4 ≤ cur.line.length := Nat.lt_of_not_le fun hshort => by
      rw [List.getElem?_eq_none hshort] at hv
      contradiction
    rw [ih, rest_replace cur 4 v hfour (by decide)]
    refine (unhat_of_hat? ?_).symm
    rw [rest_of_three hfirst hsecond h, hat?_cons, if_pos (by grind), List.head?_drop, hv]
    simp
  | case3 cur h hfirst hsecond c hc x hv hx ih =>
    rw [ih, rest_replace cur 3 _ (by omega) (by decide)]
    refine (unhat_of_hat? ?_).symm
    rw [rest_of_three hfirst hsecond h, hat?_cons, if_pos (by grind), List.head?_drop, hv]
    exact if_pos hx
  | case4 cur h hfirst hsecond c hc x hv hx =>
    refine (unhat_of_hat?_none ?_).symm
    rw [rest_of_three hfirst hsecond h, hat?_cons, if_pos (by grind), List.head?_drop, hv]
    exact if_neg hx
  | case5 cur h =>
    refine (unhat_of_hat?_none ?_).symm
    have hshort : cur.rest.length ≤ 2 := by
      rw [rest, List.length_drop]
      omega
    unfold hat?
    grind

theorem take_reduce (cat : CharCode → Catcode) (cur : Cursor) :
    (cur.reduce cat).line.take cur.pos = cur.line.take cur.pos := by
  fun_induction reduce cat cur with
  | case1 | case4 | case5 => rfl
  | case2 cur h hfirst hsecond c hc x v hv ih =>
    exact ih.trans (take_replace cur 4 v hfirst.le (by decide))
  | case3 cur h hfirst hsecond c hc x hv hx ih =>
    exact ih.trans (take_replace cur 3 _ hfirst.le (by decide))

theorem state_advance_reduce (cat : CharCode → Catcode) (cur : Cursor) :
    (cur.reduce cat).advance.state = cur.state :=
  state_reduce cat cur

/-- The code at the position, once it is rewritten, and what stands behind it. -/
theorem unhat_rest (hnext : (cur.reduce cat).pos < (cur.reduce cat).line.length) :
    unhat cat cur.rest =
      (cur.reduce cat).line[(cur.reduce cat).pos] :: (cur.reduce cat).advance.rest := by
  rw [← rest_reduce, rest_of_lt hnext]

/-! ## Names -/

theorem take_advance (h : cur.pos < cur.line.length) :
    cur.advance.line.take cur.advance.pos = cur.line.take cur.pos ++ [cur.line[cur.pos]] :=
  List.take_succ_eq_append_getElem h

/-- Moving behind letters is taking letters off what is not read yet, and they stand in front
    of the new position. -/
theorem skipLetters_spec (cat : CharCode → Catcode) (cur : Cursor) :
    (cur.skipLetters cat).rest = (word cat cur.rest).2 ∧
      (cur.skipLetters cat).pos = cur.pos + (word cat cur.rest).1.length ∧
      (cur.skipLetters cat).line.take (cur.skipLetters cat).pos =
        cur.line.take cur.pos ++ (word cat cur.rest).1 := by
  fun_induction skipLetters cat cur with
  | case1 cur h next hnext hletter ih =>
    have hword : word cat cur.rest =
        (next.line[next.pos] :: (word cat next.advance.rest).1,
          (word cat next.advance.rest).2) := by
      rw [word.eq_def, unhat_rest hnext]
      exact if_pos hletter
    have hpos : next.pos = cur.pos := pos_reduce cat cur
    have htaken : next.line.take next.pos = cur.line.take cur.pos := by
      rw [hpos]
      exact take_reduce cat cur
    obtain ⟨hrest, hmoved, htake⟩ := ih
    rw [hword]
    refine ⟨hrest, ?_, ?_⟩
    · rw [hmoved, List.length_cons, ← hpos]
      show next.pos + 1 + _ = _
      omega
    · rw [htake, take_advance hnext, htaken, List.append_assoc, List.singleton_append]
  | case2 cur h next hnext hletter =>
    have hword : word cat cur.rest = ([], next.line[next.pos] :: next.advance.rest) := by
      rw [word.eq_def, unhat_rest hnext]
      exact if_neg hletter
    rw [hword]
    refine ⟨rest_of_lt hnext, pos_reduce cat cur, ?_⟩
    rw [List.append_nil, pos_reduce]
    exact take_reduce cat cur
  | case3 cur h =>
    have hrest := rest_of_le (Nat.le_of_not_lt h)
    have hword : word cat cur.rest = ([], []) := by
      rw [word.eq_def, hrest, unhat_nil]
    rw [hword]
    exact ⟨hrest, rfl, (List.append_nil _).symm⟩

/-- Behind an escape character, a cursor reads a name. -/
theorem controlSequence_spec (cat : CharCode → Catcode) (cur : Cursor) :
    (cur.controlSequence cat).1 = .cs (CharCode.listText (name cat cur.rest).1) ∧
      (cur.controlSequence cat).2.state = (name cat cur.rest).2.1 ∧
      (cur.controlSequence cat).2.rest = (name cat cur.rest).2.2 := by
  unfold controlSequence name
  split
  · rename_i h
    have hnext : (cur.reduce cat).pos < (cur.reduce cat).line.length := pos_lt_length_reduce cat h
    have hunhat := unhat_rest hnext
    rw [hunhat]
    dsimp only
    split
    · rename_i hletter
      -- The first letter is read once more, with the others.
      have hword : word cat (cur.reduce cat).rest =
          ((cur.reduce cat).line[(cur.reduce cat).pos] ::
              (word cat (cur.reduce cat).advance.rest).1,
            (word cat (cur.reduce cat).advance.rest).2) := by
        rw [rest_reduce, word_of_unhat, word.eq_def, hunhat]
        exact if_pos hletter
      obtain ⟨hrest, -, htake⟩ := skipLetters_spec cat (cur.reduce cat)
      rw [hword] at hrest htake
      refine ⟨?_, rfl, hrest⟩
      have hlength : ((cur.reduce cat).line.take (cur.reduce cat).pos).length =
          (cur.reduce cat).pos := List.length_take_of_le (Nat.le_of_lt hnext)
      rw [List.extract_eq_take_drop, ← List.drop_take, htake, List.drop_left' hlength]
    · exact ⟨rfl, rfl, rfl⟩
  · rename_i h
    have hrest := rest_of_le (Nat.le_of_not_lt h)
    rw [hrest, unhat_nil]
    exact ⟨rfl, rfl, hrest⟩

end Cursor

namespace LineLexer

/-! ## One reading of a line -/

variable {cat : CharCode → Catcode} {state : LineState} {cs rest : List CharCode} {c : CharCode}

theorem lex_of_unhat_nil (h : unhat cat cs = []) : lex cat state cs = [] := by
  rw [lex.eq_def]
  split
  · rfl
  · rename_i h'
    rw [h] at h'
    contradiction

theorem lex_of_unhat_cons (h : unhat cat cs = c :: rest) :
    lex cat state cs =
      match cat c with
      | .escape =>
        .token (.cs (CharCode.listText (name cat rest).1)) ::
          lex cat (name cat rest).2.1 (name cat rest).2.2
      | .endOfLine =>
        match state with
        | .newLine => [.token (.cs "par")]
        | .midLine => [.token .space]
        | .skipBlanks => []
      | .space =>
        if state = .midLine then .token .space :: lex cat .skipBlanks rest else lex cat state rest
      | .ignored => lex cat state rest
      | .comment => []
      | .invalid => .invalid c :: lex cat state rest
      | k => .token (.char c k) :: lex cat .midLine rest := by
  conv_lhs => rw [lex.eq_def]
  cases hc : cat c <;> grind

/-- At the end of a line there is nothing to read. -/
theorem lex_nil (state : LineState) : lex cat state [] = [] :=
  lex_of_unhat_nil (unhat_nil cat)

theorem rest_finish (cur : Cursor) : cur.finish.rest = [] :=
  List.drop_length

/-- What one reading of a cursor does to the lexemes of the rest of its line: it takes
    off the first one, and it finds none only where the line has no more. -/
theorem lex_next? (cat : CharCode → Catcode) (cur : Cursor) :
    match cur.next? cat with
    | (some x, cur') => lex cat cur.state cur.rest = x :: lex cat cur'.state cur'.rest
    | (none, cur') => lex cat cur.state cur.rest = [] ∧ cur'.rest = [] := by
  -- In each case the code is the first one of the rest of the line.
  fun_induction Cursor.next? cat cur with
  | case1 cur h next hnext c after hc t cur' hname =>
    obtain ⟨ht, hstate, hrest⟩ := after.controlSequence_spec cat
    rw [hname] at ht hstate hrest
    dsimp only at ht hstate hrest
    show lex cat cur.state cur.rest = _ :: lex cat cur'.state cur'.rest
    rw [ht, hstate, hrest, lex_of_unhat_cons (Cursor.unhat_rest hnext), hc]
  | case2 cur h next hnext c after hc hstate =>
    show lex cat cur.state cur.rest = _ :: lex cat after.state after.finish.rest
    rw [lex_of_unhat_cons (Cursor.unhat_rest hnext), hc, hstate, rest_finish, lex_nil]
  | case3 cur h next hnext c after hc hstate =>
    show lex cat cur.state cur.rest = _ :: lex cat after.state after.finish.rest
    rw [lex_of_unhat_cons (Cursor.unhat_rest hnext), hc, hstate, rest_finish, lex_nil]
  | case4 cur h next hnext c after hc hstate =>
    refine ⟨?_, rest_finish after⟩
    rw [lex_of_unhat_cons (Cursor.unhat_rest hnext), hc, hstate]
  | case5 cur h next hnext c after hc hstate =>
    show lex cat cur.state cur.rest = _
    rw [lex_of_unhat_cons (Cursor.unhat_rest hnext), hc]
    exact if_pos hstate
  | case6 cur h next hnext c after hc hstate ih =>
    -- A blank that gives no token changes nothing, and reading goes on behind it.
    have hlex : lex cat cur.state cur.rest = lex cat after.state after.rest := by
      rw [lex_of_unhat_cons (Cursor.unhat_rest hnext), hc, Cursor.state_advance_reduce]
      exact if_neg hstate
    rwa [hlex]
  | case7 cur h next hnext c after hc ih =>
    have hlex : lex cat cur.state cur.rest = lex cat after.state after.rest := by
      rw [lex_of_unhat_cons (Cursor.unhat_rest hnext), hc, Cursor.state_advance_reduce]
    rwa [hlex]
  | case8 cur h next hnext c after hc =>
    refine ⟨?_, rest_finish after⟩
    rw [lex_of_unhat_cons (Cursor.unhat_rest hnext), hc]
  | case9 cur h next hnext c after hc =>
    show lex cat cur.state cur.rest = _ :: lex cat after.state after.rest
    rw [lex_of_unhat_cons (Cursor.unhat_rest hnext), hc, Cursor.state_advance_reduce]
  | case10 cur h next hnext c after =>
    show lex cat cur.state cur.rest = _
    rw [lex_of_unhat_cons (Cursor.unhat_rest hnext)]
    split <;> first | contradiction | rfl
  | case11 cur h =>
    have hrest := Cursor.rest_of_le (Nat.le_of_not_lt h)
    refine ⟨?_, hrest⟩
    rw [hrest, lex_nil]

end LineLexer

/-! ## One reading of a stream -/

namespace Stream

open LineLexer

variable {lexicon : Lexicon} {s : Stream} {x : Lexeme} {xs : List Lexeme}

/-- The stream reads a text, and `xs` are the lexemes that it has still to give: those of
    the rest of its line, and those of the lines that follow. -/
def Holds (lexicon : Lexicon) (s : Stream) (xs : List Lexeme) : Prop :=
  s.pushed = [] ∧ s.endInput = false ∧
    ∃ r, s.reader = some r ∧ r.failure? = none ∧
      xs = lex lexicon.catcode s.cursor.state s.cursor.rest ++ r.lines.flatMap (lexLine lexicon)

theorem readLines_of_nil (lexicon : Lexicon) {r : Reader} (hfailure : r.failure? = none)
    (hlines : r.lines = []) (cur : Cursor) :
    ∃ next, readLines lexicon r cur = (.exhausted, next, cur) ∧ next.lines = [] ∧
      r.Later 0 next := by
  obtain ⟨next, hread, hrest, hnext⟩ := Reader.readLine_of_lines_nil hfailure hlines
  refine ⟨next, ?_, hrest, hnext⟩
  rw [readLines.eq_def]
  grind

theorem readLines_of_cons (lexicon : Lexicon) {r : Reader} {line : List Char}
    {lines : List (List Char)} (hlines : r.lines = line :: lines) (cur : Cursor) :
    ∃ next, next.lines = lines ∧ r.Later 1 next ∧
      readLines lexicon r cur =
        match (Cursor.ofLine (lexicon.endLineChar ()) line).next? lexicon.catcode with
        | (some x, cur) => (resultOf (some x), next, cur)
        | (none, cur) => readLines lexicon next cur := by
  obtain ⟨bytes, next, hread, rfl, hrest, hnext⟩ := Reader.readLine_of_lines_cons hlines
  refine ⟨next, hrest, hnext, ?_⟩
  conv_lhs => rw [readLines.eq_def]
  grind

/-- Where the rest of a line gives nothing, the lines that follow give the next lexeme. -/
theorem readLines_of_lines (lexicon : Lexicon) {r : Reader} {lines : List (List Char)}
    (hfailure : r.failure? = none) (hlines : r.lines = lines) {cur : Cursor}
    (hcur : cur.rest = []) :
    ∃ r' cur',
      readLines lexicon r cur = (resultOf (lines.flatMap (lexLine lexicon)).head?, r', cur') ∧
      r'.failure? = none ∧
      (lines.flatMap (lexLine lexicon)).tail =
        lex lexicon.catcode cur'.state cur'.rest ++ r'.lines.flatMap (lexLine lexicon) := by
  induction lines generalizing r cur with
  | nil =>
    obtain ⟨next, hread, hrest, hnext⟩ := readLines_of_nil lexicon hfailure hlines cur
    refine ⟨next, cur, hread, hnext.failure.trans hfailure, ?_⟩
    rw [hcur, lex_nil, hrest]
    rfl
  | cons line lines ih =>
    obtain ⟨next, hrest, hnext, hread⟩ := readLines_of_cons lexicon hlines cur
    have hfailure' := hnext.failure.trans hfailure
    rw [hread, List.flatMap_cons]
    -- A cursor at the beginning of a line has the whole line to give.
    have hlex := lex_next? lexicon.catcode (Cursor.ofLine (lexicon.endLineChar ()) line)
    change match (Cursor.ofLine (lexicon.endLineChar ()) line).next? lexicon.catcode with
      | (some x, cur') => lexLine lexicon line = x :: lex lexicon.catcode cur'.state cur'.rest
      | (none, cur') => lexLine lexicon line = [] ∧ cur'.rest = [] at hlex
    revert hlex
    cases (Cursor.ofLine (lexicon.endLineChar ()) line).next? lexicon.catcode with
    | mk x? cur' =>
      cases x? with
      | some x =>
        intro hlex
        rw [hlex]
        exact ⟨next, cur', rfl, hfailure', by rw [hrest]; rfl⟩
      | none =>
        rintro ⟨hline, hend⟩
        rw [hline, List.nil_append]
        exact ih hfailure' hrest hend

/-- One reading takes off the first of the lexemes that a stream has to give; a stream
    that has none is exhausted. -/
theorem read_of_holds (h : s.Holds lexicon xs) :
    ∃ s', s.read lexicon = (resultOf xs.head?, s') ∧ s'.Holds lexicon xs.tail := by
  obtain ⟨hpushed, hend, r, hreader, hfailure, rfl⟩ := h
  have hnext := lex_next? lexicon.catcode s.cursor
  unfold read
  revert hnext
  cases s.cursor.next? lexicon.catcode with
  | mk x? cur =>
    cases x? with
    | some x =>
      intro hnext
      rw [hnext]
      exact ⟨_, rfl, hpushed, hend, r, hreader, hfailure, rfl⟩
    | none =>
      rintro ⟨hlex, hrest⟩
      obtain ⟨r', cur', hread, hfailure', htail⟩ :=
        readLines_of_lines lexicon hfailure rfl hrest
      rw [hlex, List.nil_append]
      simp only [hreader, hend, Bool.false_eq_true, if_false, hread]
      exact ⟨_, rfl, hpushed, rfl, r', rfl, hfailure', htail⟩

theorem holds_ofBytes (lexicon : Lexicon) (bytes : List UInt8) (name : String) :
    Stream.Holds lexicon { reader := some (Reader.ofBytes bytes name) }
      ((Text.lines (Text.Utf8.decode bytes)).flatMap (lexLine lexicon)) := by
  refine ⟨rfl, rfl, _, rfl, Reader.failure?_ofBytes bytes name, ?_⟩
  rw [Reader.lines_ofBytes]
  show _ = lex lexicon.catcode .newLine [] ++ _
  rw [lex_nil]
  rfl

theorem holds_ofText (text name : String) :
    Stream.Holds lexicon { reader := some (Reader.ofText text name) }
      ((Text.lines text).flatMap (lexLine lexicon)) := by
  have hholds := holds_ofBytes lexicon (Text.Utf8.encode text) name
  rwa [← Reader.lines_ofBytes _ name, ← Reader.ofText, Reader.lines_ofText] at hholds

end Stream

/-! ## All readings -/

namespace Source

open LineLexer

/-- The results of `n` readings, one after the other. -/
def results (lexicon : Lexicon) : Nat → Source → List (Except Fault (Option Token))
  | 0, _ => []
  | n + 1, src => (src.next lexicon).result :: results lexicon n (src.next lexicon).source

/-- A reading gives a lexeme: its token, or the error that its character is invalid,
    which also tells where the input stands.  The end of the input gives none. -/
def Gives : Option Lexeme → Except Fault (Option Token) → Prop
  | some (.token t), r => r = .ok (some t)
  | some (.invalid c), r =>
    ∃ stack, r = .error (.tex { kind := .invalidCharacter, details := [c.text], stack })
  | none, r => r = .ok none

variable {lexicon : Lexicon}

/-- Behind the end of the input, every reading gives the end of the input. -/
theorem results_of_nil (n : Nat) {src : Source} (h : src.streams = []) :
    List.Forall₂ Gives (List.replicate n none) (src.results lexicon n) := by
  induction n generalizing src with
  | zero => exact .nil
  | succ n ih =>
    rw [results, next, h]
    exact .cons rfl (ih rfl)

/-- The source has one stream, which has the given lexemes still to give. -/
def Holds (lexicon : Lexicon) (src : Source) (xs : List Lexeme) : Prop :=
  ∃ s, src.streams = [s] ∧ s.Holds lexicon xs

theorem next_of_holds_nil {src : Source} (h : src.Holds lexicon []) :
    (src.next lexicon).result = .ok none ∧ (src.next lexicon).source.streams = [] := by
  obtain ⟨s, hsrc, hs⟩ := h
  obtain ⟨s', hread, -⟩ := Stream.read_of_holds hs
  unfold next
  rw [hsrc, nextFrom, hs.1]
  dsimp only
  rw [hread]
  exact ⟨rfl, rfl⟩

theorem next_of_holds_cons {src : Source} {x : Lexeme} {xs : List Lexeme}
    (h : src.Holds lexicon (x :: xs)) :
    Gives (some x) (src.next lexicon).result ∧ (src.next lexicon).source.Holds lexicon xs := by
  obtain ⟨s, hsrc, hs⟩ := h
  obtain ⟨s', hread, hs'⟩ := Stream.read_of_holds hs
  unfold next
  rw [hsrc, nextFrom, hs.1]
  dsimp only
  rw [hread]
  cases x with
  | token t => exact ⟨rfl, s', rfl, hs'⟩
  | invalid c => exact ⟨⟨_, rfl⟩, s', rfl, hs'⟩

theorem results_of_holds {n k : Nat} (hk : n ≤ k) {src : Source} {xs : List Lexeme}
    (h : src.Holds lexicon xs) :
    List.Forall₂ Gives ((xs.map some ++ List.replicate k none).take n)
      (src.results lexicon n) := by
  induction n generalizing src xs with
  | zero => exact .nil
  | succ n ih =>
    obtain ⟨k, rfl⟩ := Nat.exists_eq_add_one_of_ne_zero (by omega : k ≠ 0)
    rw [results]
    cases xs with
    | nil =>
      obtain ⟨hresult, hstreams⟩ := next_of_holds_nil h
      rw [List.map_nil, List.nil_append, List.take_replicate, Nat.min_eq_left hk]
      exact .cons hresult (results_of_nil n hstreams)
    | cons x xs =>
      obtain ⟨hresult, hrest⟩ := next_of_holds_cons h
      exact .cons hresult (ih (by omega) hrest)

/-- The results of successive readings from a source that holds only some bytes are the
    lexemes of the lines that they give, in order, and behind them always the end of the
    input. -/
theorem results_eq_flatMap_lexLine (lexicon : Lexicon) (baseDir : String) (bytes : List UInt8)
    (name : String) (n : Nat) :
    List.Forall₂ Gives
      ((((Text.lines (Text.Utf8.decode bytes)).flatMap (lexLine lexicon)).map some ++
        List.replicate n none).take n)
      ((({ baseDir } : Source).pushBytes bytes name).results lexicon n) :=
  results_of_holds (Nat.le_refl n) ⟨_, rfl, Stream.holds_ofBytes _ bytes name⟩

end Source

end TexEngine
