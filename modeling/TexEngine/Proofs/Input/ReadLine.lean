/-
  TexEngine.Proofs.Input.ReadLine

  The lines that bytes were written from are read from them again, one with each call, and they
  are numbered from 1.  Then every further call finds the end of the bytes.

  The last section says what is left to be read as a list of lines of characters.  A call takes
  the first of them, whatever the bytes are.
-/
import Mathlib.Data.List.TakeWhile
import Mathlib.Logic.Function.Iterate
import TexEngine.Input.Reader
import TexEngine.Proofs.Text.Lines

namespace TexEngine.Reader

/-! ## Lines of bytes -/

/-- What stands behind a line. -/
inductive Terminator where
  | newline
  | returnNewline
  deriving DecidableEq, Repr

/-- The bytes of a terminator. -/
def Terminator.bytes : Terminator → List UInt8
  | newline => [10]
  | returnNewline => [13, 10]

/-- Lines with their terminators, one after the other. -/
def written (ls : List (List UInt8 × Terminator)) : List UInt8 :=
  ls.flatMap fun (line, t) => line ++ t.bytes

/-- The bytes are those of one line: there is no newline among them, and the last one is no
    carriage return. -/
structure IsLine (line : List UInt8) : Prop where
  unbroken : 10 ∉ line
  no_return : line.getLast? ≠ some 13

instance (line : List UInt8) : Decidable (IsLine line) :=
  decidable_of_iff (10 ∉ line ∧ line.getLast? ≠ some 13) ⟨fun h => ⟨h.1, h.2⟩, fun h => ⟨h.1, h.2⟩⟩

variable {r : Reader} {line rest : List UInt8} {b : UInt8}

theorem trimEnd_concat (b : UInt8) (line : List UInt8) : trimEnd b (line ++ [b]) = line := by
  rw [trimEnd, if_pos List.getLast?_concat, List.dropLast_concat]

theorem trimEnd_of_ne (h : line.getLast? ≠ some b) : trimEnd b line = line :=
  if_neg h

theorem trimEnd_of_not_mem (h : b ∉ line) : trimEnd b line = line :=
  trimEnd_of_ne fun hlast => h (List.mem_of_getLast? hlast)

/-! ## One call -/

/-- The reader behind a call. -/
def readOn (r : Reader) : Reader :=
  r.readLine.2

theorem readThrough_append (h : b ∉ line) (rest : List UInt8) :
    ReaderBody.readThrough b (.data (line ++ b :: rest)) = (line ++ [b], none, .data rest) := by
  have hall : ∀ x ∈ line, (x != b) = true := fun x hx => bne_iff_ne.mpr (ne_of_mem_of_not_mem hx h)
  rw [ReaderBody.readThrough, List.dropWhile_append_of_pos hall, List.takeWhile_append_of_pos hall,
    List.dropWhile_cons_of_neg (by simp), List.takeWhile_cons_of_neg (by simp), List.append_nil]

theorem readThrough_of_not_mem (h : b ∉ line) :
    ReaderBody.readThrough b (.data line) = (line, some .finished, .data []) := by
  have hall : ∀ x ∈ line, (x != b) = true := fun x hx => bne_iff_ne.mpr (ne_of_mem_of_not_mem hx h)
  rw [ReaderBody.readThrough, List.dropWhile_eq_nil_iff.mpr hall]

/-- What stands in front of a newline is a line, without its carriage return. -/
theorem readLine_newline (hended : r.ended = none) (hbody : r.body = .data (line ++ 10 :: rest))
    (hline : 10 ∉ line) :
    r.readLine = (.ok (trimEnd 13 line), { r with line := r.line + 1, body := .data rest }) := by
  rw [readLine, hended, hbody, readThrough_append hline]
  dsimp only
  rw [trimEnd_concat]

/-- Bytes without a newline are the last line. -/
theorem readLine_last (hended : r.ended = none) (hbody : r.body = .data line)
    (hline : 10 ∉ line) (hne : line ≠ []) :
    r.readLine = (.ok (trimEnd 13 line), { r with line := r.line + 1, body := .data [] }) := by
  rw [readLine, hended, hbody, readThrough_of_not_mem hline]
  dsimp only
  rw [if_neg (by simpa using hne), trimEnd_of_not_mem hline]

/-- Without bytes there is no line, and it is noted that there will be none. -/
theorem readLine_nil (hended : r.ended = none) (hbody : r.body = .data []) :
    r.readLine = (.error .finished, { r with ended := some .finished }) := by
  rw [readLine, hended, hbody, readThrough_of_not_mem List.not_mem_nil]
  dsimp only
  rw [if_pos (.inr rfl), ← hbody]

theorem readLine_of_ended {e : ReadEnd} (h : r.ended = some e) : r.readLine = (.error e, r) := by
  rw [readLine, h]

theorem readLine_terminated (hended : r.ended = none) (t : Terminator)
    (hbody : r.body = .data (line ++ t.bytes ++ rest)) (hline : IsLine line) :
    r.readLine = (.ok line, { r with line := r.line + 1, body := .data rest }) := by
  cases t with
  | newline =>
    have hbody : r.body = .data (line ++ 10 :: rest) := by simpa [Terminator.bytes] using hbody
    rw [readLine_newline hended hbody hline.unbroken, trimEnd_of_ne hline.no_return]
  | returnNewline =>
    -- The carriage return stands in front of the newline, and it is the only one that is dropped.
    have hbody : r.body = .data ((line ++ [13]) ++ 10 :: rest) := by
      simpa [Terminator.bytes] using hbody
    have hnewline : 10 ∉ line ++ [13] := by simpa using hline.unbroken
    rw [readLine_newline hended hbody hnewline, trimEnd_concat]

/-! ## All calls -/

/-- The reader has come to the end. -/
def AtEnd (r : Reader) : Prop :=
  r.ended = some .finished ∨ r.ended = none ∧ r.body = .data []

theorem AtEnd.readLine (h : AtEnd r) :
    r.readLine.1 = .error .finished ∧ r.readOn.line = r.line ∧ AtEnd r.readOn := by
  unfold readOn
  obtain hended | ⟨hended, hbody⟩ := h
  · rw [readLine_of_ended hended]
    exact ⟨rfl, rfl, .inl hended⟩
  · rw [readLine_nil hended hbody]
    exact ⟨rfl, rfl, .inl rfl⟩

/-- At the end nothing changes any more. -/
theorem AtEnd.iterate (h : AtEnd r) (k : Nat) :
    (readOn^[k] r).readLine.1 = .error .finished ∧ (readOn^[k] r).line = r.line := by
  induction k generalizing r with
  | zero => exact ⟨h.readLine.1, rfl⟩
  | succ k ih =>
    obtain ⟨-, hline, hend⟩ := h.readLine
    obtain ⟨hread, hsame⟩ := ih hend
    exact ⟨hread, hsame.trans hline⟩

/-- The calls give these lines, numbered from the line that was read last, and then they find
    the end. -/
def Gives (r : Reader) (lines : List (List UInt8)) : Prop :=
  (∀ k l, lines[k]? = some l →
    (readOn^[k] r).readLine = (.ok l, readOn^[k + 1] r) ∧
      (readOn^[k + 1] r).line = r.line + k + 1) ∧
  ∀ k, lines.length ≤ k →
    (readOn^[k] r).readLine.1 = .error .finished ∧ (readOn^[k] r).line = r.line + lines.length

theorem AtEnd.gives (h : AtEnd r) : Gives r [] :=
  ⟨fun k l hl => by simp at hl, fun k _ => h.iterate k⟩

/-- A line that is read comes before those that the reader behind it gives. -/
theorem Gives.cons {next : Reader} {lines : List (List UInt8)}
    (hread : r.readLine = (.ok line, next)) (hnumber : next.line = r.line + 1)
    (h : Gives next lines) : Gives r (line :: lines) := by
  have hon : r.readOn = next := congrArg Prod.snd hread
  refine ⟨fun k l hl => ?_, fun k hk => ?_⟩
  · cases k with
    | zero =>
      obtain rfl : line = l := Option.some.inj hl
      rw [Function.iterate_zero_apply, Function.iterate_one, hon]
      exact ⟨hread, hnumber⟩
    | succ k =>
      obtain ⟨hthere, hline⟩ := h.1 k l hl
      rw [Function.iterate_succ_apply, Function.iterate_succ_apply readOn (k + 1), hon]
      exact ⟨hthere, by omega⟩
  · obtain ⟨k, rfl⟩ := Nat.exists_eq_add_one_of_ne_zero (n := k) (by rintro rfl; simp at hk)
    obtain ⟨hend, hline⟩ := h.2 k (Nat.le_of_succ_le_succ hk)
    rw [Function.iterate_succ_apply, hon, List.length_cons]
    exact ⟨hend, by omega⟩

theorem gives_of_written {ls : List (List UInt8 × Terminator)} {last : Option (List UInt8)}
    (hlines : ∀ l ∈ ls.map Prod.fst ++ last.toList, IsLine l) (hlast : last ≠ some [])
    (hended : r.ended = none) (hbody : r.body = .data (written ls ++ last.getD [])) :
    Gives r (ls.map Prod.fst ++ last.toList) := by
  induction ls generalizing r with
  | nil =>
    cases last with
    | none => exact AtEnd.gives (.inr ⟨hended, hbody⟩)
    | some l =>
      have hl : IsLine l := hlines l (by simp)
      have hbody : r.body = .data l := hbody
      have hread := readLine_last hended hbody hl.unbroken fun hnil => hlast (congrArg some hnil)
      rw [trimEnd_of_ne hl.no_return] at hread
      exact .cons hread rfl (AtEnd.gives (.inr ⟨hended, rfl⟩))
  | cons p ls ih =>
    obtain ⟨l, t⟩ := p
    rw [List.map_cons, List.cons_append, List.forall_mem_cons] at hlines
    have hbody : r.body = .data (l ++ t.bytes ++ (written ls ++ last.getD [])) := by
      simpa [written] using hbody
    exact .cons (readLine_terminated hended t hbody hlines.1) rfl (ih hlines.2 hended rfl)

/-- Lines are written one after the other, each with either terminator, where the last one may
    have none if it is not empty.  Reading the bytes gives the same lines, and behind line `k`
    the number of the line is `k`.  All later calls find the end and do not change the number. -/
theorem readLine_recovers (name : String) {ls : List (List UInt8 × Terminator)}
    {last : Option (List UInt8)} (hlines : ∀ l ∈ ls.map Prod.fst ++ last.toList, IsLine l)
    (hlast : last ≠ some []) :
    let lines := ls.map Prod.fst ++ last.toList
    let r := ofBytes (written ls ++ last.getD []) name
    (∀ k l, lines[k]? = some l →
      (readOn^[k] r).readLine = (.ok l, readOn^[k + 1] r) ∧ (readOn^[k + 1] r).line = k + 1) ∧
    ∀ k, lines.length ≤ k →
      (readOn^[k] r).readLine.1 = .error .finished ∧ (readOn^[k] r).line = lines.length := by
  intro lines r
  obtain ⟨hread, hend⟩ := gives_of_written (r := r) hlines hlast rfl rfl
  have hstart : r.line = 0 := rfl
  refine ⟨fun k l hl => ?_, fun k hk => ?_⟩
  · obtain ⟨hthere, hline⟩ := hread k l hl
    exact ⟨hthere, by omega⟩
  · obtain ⟨hthere, hline⟩ := hend k hk
    exact ⟨hthere, hline.trans (by rw [hstart, Nat.zero_add])⟩

/-- A carriage return within a line, an empty line, and a last line that is no UTF-8 and has no
    terminator. -/
theorem readLine_recovers_mixed :
    let r := ofBytes [97, 13, 98, 13, 10, 10, 255] "text"
    (∀ l ∈ [[97, 13, 98], [], [255]], IsLine l) ∧
    r.readLine = (.ok [97, 13, 98], readOn r) ∧
    (readOn r).readLine = (.ok [], readOn^[2] r) ∧
    (readOn^[2] r).readLine = (.ok [255], readOn^[3] r) ∧
    (readOn^[3] r).line = 3 ∧
    ∀ k, 3 ≤ k →
      (readOn^[k] r).readLine.1 = .error .finished ∧ (readOn^[k] r).line = 3 := by
  have hlines : ∀ l ∈ [[97, 13, 98], [], [255]], IsLine l := by decide
  obtain ⟨hread, hend⟩ := @readLine_recovers "text"
    [([97, 13, 98], .returnNewline), ([], .newline)] (some [255]) hlines (by decide)
  exact ⟨hlines, (hread 0 _ rfl).1, (hread 1 _ rfl).1, (hread 2 _ rfl).1, (hread 2 _ rfl).2, hend⟩

/-! ## Lines of characters -/

/-- The lines that are left to be read, as text. -/
def lines (r : Reader) : List (List Char) :=
  match r.ended, r.body with
  | none, .data unread => Text.linesFrom [] (Text.Utf8.decodeFrom 0 unread)
  | _, _ => []

/-- Why reading fails, if it does. -/
def failure? (r : Reader) : Option String :=
  match r.ended, r.body with
  | some (.failed message), _ => some message
  | none, .unreadable message => some message
  | _, _ => none

/-- The reader is the same one, `n` lines later. -/
structure Later (r : Reader) (n : Nat) (next : Reader) : Prop where
  name : next.name = r.name
  path : next.path = r.path
  line : next.line = r.line + n
  failure : next.failure? = r.failure?

theorem Later.refl (r : Reader) : Later r 0 r :=
  ⟨rfl, rfl, rfl, rfl⟩

theorem Later.trans {r' r'' : Reader} {n k : Nat} (h : Later r n r') (h' : Later r' k r'') :
    Later r (n + k) r'' where
  name := h'.name.trans h.name
  path := h'.path.trans h.path
  line := by rw [h'.line, h.line, Nat.add_assoc]
  failure := h'.failure.trans h.failure

theorem lines_of_data (hended : r.ended = none) (hbody : r.body = .data line) :
    r.lines = Text.linesFrom [] (Text.Utf8.decodeFrom 0 line) := by
  rw [lines, hended, hbody]

theorem failure?_of_data (hended : r.ended = none) (hbody : r.body = .data line) :
    r.failure? = none := by
  rw [failure?, hended, hbody]

/-- One call: a line, which is the first of those that are left, or none, where no lines are
    left. -/
inductive Call (r : Reader) : Except ReadEnd (List UInt8) × Reader → Prop where
  | line {bytes : List UInt8} {next : Reader} (hfailure : r.failure? = none)
      (hlines : r.lines = Text.Utf8.decodeFrom 0 bytes :: next.lines) (hnext : Later r 1 next) :
      Call r (.ok bytes, next)
  | finished {next : Reader} (hfailure : r.failure? = none) (hlines : r.lines = [])
      (hrest : next.lines = []) (hnext : Later r 0 next) : Call r (.error .finished, next)
  | failed {message : String} {next : Reader} (hfailure : r.failure? = some message)
      (hlines : r.lines = []) (hrest : next.lines = []) (hnext : Later r 0 next) :
      Call r (.error (.failed message), next)

theorem call_of_ended {e : ReadEnd} (h : r.ended = some e) : Call r r.readLine := by
  have hlines : r.lines = [] := by rw [lines, h]
  rw [readLine_of_ended h]
  cases e with
  | finished => exact .finished (by rw [failure?, h]) hlines hlines (.refl r)
  | failed message => exact .failed (by rw [failure?, h]) hlines hlines (.refl r)

theorem call_of_line {bytes : List UInt8} (hended : r.ended = none) (hfailure : r.failure? = none)
    (hlines : r.lines = Text.Utf8.decodeFrom 0 bytes ::
      Text.linesFrom [] (Text.Utf8.decodeFrom 0 rest)) :
    Call r (.ok bytes, { r with line := r.line + 1, body := .data rest }) := by
  generalize hnext : ({ r with line := r.line + 1, body := .data rest } : Reader) = next
  have hended' : next.ended = none := hnext ▸ hended
  have hbody : next.body = .data rest := hnext ▸ rfl
  refine .line hfailure (by rw [hlines, lines_of_data hended' hbody]) ?_
  refine ⟨hnext ▸ rfl, hnext ▸ rfl, hnext ▸ rfl, ?_⟩
  rw [hfailure, failure?_of_data hended' hbody]

theorem call_of_data (hended : r.ended = none) (hbody : r.body = .data line) :
    Call r r.readLine := by
  have hfailure := failure?_of_data hended hbody
  have hlines := lines_of_data hended hbody
  by_cases hnewline : 10 ∈ line
  · obtain ⟨first, rest, rfl, hfirst⟩ := List.eq_append_cons_of_mem hnewline
    rw [readLine_newline hended hbody hfirst]
    exact call_of_line hended hfailure
      (hlines.trans (Text.linesFrom_decodeFrom_newline hfirst rest))
  · by_cases hne : line = []
    · subst hne
      rw [readLine_nil hended hbody]
      exact .finished hfailure hlines rfl ⟨rfl, rfl, rfl, hfailure.symm⟩
    · rw [readLine_last hended hbody hnewline hne]
      exact call_of_line hended hfailure (hlines.trans (Text.linesFrom_decodeFrom hnewline hne))

/-- What a call does is one of the possibilities. -/
theorem call (r : Reader) : Call r r.readLine := by
  cases hended : r.ended with
  | some e => exact call_of_ended hended
  | none =>
    cases hbody : r.body with
    | data unread => exact call_of_data hended hbody
    | unreadable message =>
      have hlines : r.lines = [] := by rw [lines, hended, hbody]
      have hfailure : r.failure? = some message := by rw [failure?, hended, hbody]
      have hread : r.readLine =
          (.error (.failed message), { r with ended := some (.failed message) }) := by
        rw [readLine, hended, hbody]
        dsimp only [ReaderBody.readThrough]
        rw [if_pos (.inl (by simp)), ← hbody]
      rw [hread]
      exact .failed hfailure hlines rfl ⟨rfl, rfl, rfl, hfailure.symm⟩

theorem lines_of_readLine_ok {next : Reader} (h : r.readLine = (.ok line, next)) :
    r.lines = Text.Utf8.decodeFrom 0 line :: next.lines := by
  have hcall := r.call
  rw [h] at hcall
  cases hcall with
  | line _ hlines => exact hlines

theorem lines_of_readLine_error {e : ReadEnd} {next : Reader} (h : r.readLine = (.error e, next)) :
    r.lines = [] ∧ next.lines = [] := by
  have hcall := r.call
  rw [h] at hcall
  cases hcall with
  | finished _ hlines hrest | failed _ hlines hrest => exact ⟨hlines, hrest⟩

theorem readLine_of_lines_cons {l : List Char} {ls : List (List Char)} (h : r.lines = l :: ls) :
    ∃ bytes next, r.readLine = (.ok bytes, next) ∧ Text.Utf8.decodeFrom 0 bytes = l ∧
      next.lines = ls ∧ Later r 1 next := by
  have hcall := r.call
  generalize r.readLine = read at hcall ⊢
  cases hcall with
  | @line bytes next hfailure hlines hnext =>
    obtain ⟨rfl, rfl⟩ := List.cons.inj (h.symm.trans hlines)
    exact ⟨bytes, next, rfl, rfl, rfl, hnext⟩
  | finished _ hlines | failed _ hlines => nomatch h.symm.trans hlines

theorem readLine_of_lines_nil (hfailure : r.failure? = none) (hlines : r.lines = []) :
    ∃ next, r.readLine = (.error .finished, next) ∧ next.lines = [] ∧ Later r 0 next := by
  have hcall := r.call
  generalize r.readLine = read at hcall ⊢
  cases hcall with
  | line _ hcons => nomatch hlines.symm.trans hcons
  | @finished next _ _ hrest hnext => exact ⟨next, rfl, hrest, hnext⟩
  | failed hfails => nomatch hfailure.symm.trans hfails

theorem readLine_of_failure {message : String} (h : r.failure? = some message) :
    ∃ next, r.readLine = (.error (.failed message), next) ∧ next.lines = [] ∧ Later r 0 next := by
  have hcall := r.call
  generalize r.readLine = read at hcall ⊢
  cases hcall with
  | line hnone | finished hnone => nomatch hnone.symm.trans h
  | @failed message' next hfails _ hrest hnext =>
    obtain rfl := Option.some.inj (h.symm.trans hfails)
    exact ⟨next, rfl, hrest, hnext⟩

theorem lines_of_failure {message : String} (h : r.failure? = some message) : r.lines = [] := by
  have hcall := r.call
  generalize r.readLine = read at hcall
  cases hcall with
  | line hnone | finished hnone => nomatch hnone.symm.trans h
  | failed _ hlines => exact hlines

/-- A reader of a text has the lines of the text. -/
theorem lines_ofBytes (bytes : List UInt8) (name : String) :
    (ofBytes bytes name).lines = Text.lines (Text.Utf8.decode bytes) := by
  rw [Text.lines, Text.Utf8.decode, String.toList_ofList]
  rfl

theorem lines_ofText (text name : String) : (ofText text name).lines = Text.lines text := by
  rw [ofText, lines_ofBytes, Text.Utf8.decode, Text.Utf8.encode, Text.Utf8.decodeFrom_utf8Encode,
    String.ofList_toList]

theorem failure?_ofBytes (bytes : List UInt8) (name : String) :
    (ofBytes bytes name).failure? = none := rfl

end TexEngine.Reader
