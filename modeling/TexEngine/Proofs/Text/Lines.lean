/-
  TexEngine.Proofs.Text.Lines

  The lines of a text, and lines of bytes that are written one after the other.  Terminators
  are bytes below 0x80, so the text of a line has a terminator in it, or a carriage return at
  its end, only if its bytes have; it does not matter whether a text is decoded before or
  after it is divided into lines.  This is also true of lines that are no UTF-8.
-/
import TexEngine.Proofs.Text.Decoding

namespace TexEngine.Text

open Utf8

/-! ## Lines of characters -/

/-- Removes one carriage return from the end of a reversed line. -/
def dropReturn : List Char → List Char
  | '\r' :: cs => cs
  | cs => cs

/-- The lines of `cs`, with `line` the (reversed) beginning of the first one. -/
def linesFrom (line : List Char) : List Char → List (List Char)
  | [] => if line.isEmpty then [] else [(dropReturn line).reverse]
  | c :: cs =>
    if c == '\n' then (dropReturn line).reverse :: linesFrom [] cs
    else linesFrom (c :: line) cs

/-- The lines of a text, without their terminators. -/
def lines (s : String) : List (List Char) :=
  linesFrom [] s.toList

theorem linesFrom_append_of_not_mem {cs : List Char} (h : '\n' ∉ cs) (line ds : List Char) :
    linesFrom line (cs ++ ds) = linesFrom (cs.reverse ++ line) ds := by
  induction cs generalizing line with
  | nil => rfl
  | cons c cs ih =>
    rw [List.mem_cons, not_or] at h
    have hstep : linesFrom line (c :: (cs ++ ds)) = linesFrom (c :: line) (cs ++ ds) :=
      if_neg fun hc => h.1 (eq_of_beq hc).symm
    rw [List.cons_append, hstep, ih h.2, List.reverse_cons, List.append_assoc]
    rfl

theorem linesFrom_eq_of_not_mem {cs : List Char} (h : '\n' ∉ cs) :
    linesFrom [] cs = linesFrom cs.reverse [] := by
  have hlines := linesFrom_append_of_not_mem h [] []
  rwa [List.append_nil, List.append_nil] at hlines

theorem linesFrom_newline (line cs : List Char) :
    linesFrom line ('\n' :: cs) = (dropReturn line).reverse :: linesFrom [] cs := rfl

theorem dropReturn_of_ne {c : Char} (h : c ≠ '\r') (cs : List Char) :
    dropReturn (c :: cs) = c :: cs := by
  unfold dropReturn
  grind

theorem dropReturn_reverse {cs : List Char} (h : cs.getLast? ≠ some '\r') :
    dropReturn cs.reverse = cs.reverse := by
  rw [← List.head?_reverse] at h
  cases hcs : cs.reverse with
  | nil => rfl
  | cons c rest =>
    rw [hcs] at h
    exact dropReturn_of_ne (fun hc => h (congrArg some hc)) rest

/-! ## Decoding before and after -/

variable {line : List UInt8}

theorem newline_not_mem_decodeFrom (h : 10 ∉ line) : '\n' ∉ decodeFrom 0 line := by
  intro hmem
  obtain ⟨us, vs, hsplit⟩ := List.append_of_mem hmem
  obtain ⟨xs, c, ys, rfl, hc, -⟩ := exists_of_decodeFrom_eq (by decide) hsplit
  obtain rfl : c = 10 := UInt8.toNat_inj.mp hc
  exact h (by simp)

theorem getLast?_decodeFrom_ne (h : line.getLast? ≠ some 13) :
    (decodeFrom 0 line).getLast? ≠ some '\r' := by
  intro hlast
  obtain ⟨us, hsplit⟩ := List.getLast?_eq_some_iff.mp hlast
  obtain ⟨xs, c, ys, rfl, hc, hys⟩ := exists_of_decodeFrom_eq (by decide) hsplit
  obtain rfl : c = 13 := UInt8.toNat_inj.mp hc
  obtain rfl : ys = [] := decodeFrom_zero_eq_nil_iff.mp hys
  exact h (by simp)

/-- A carriage return that is dropped from the bytes is dropped from the text. -/
theorem dropReturn_decodeFrom (line : List UInt8) :
    (dropReturn (decodeFrom 0 line).reverse).reverse =
      decodeFrom 0 (if line.getLast? = some 13 then line.dropLast else line) := by
  split
  · rename_i hlast
    obtain ⟨bytes, rfl⟩ := List.getLast?_eq_some_iff.mp hlast
    have hreturn : decodeFrom 0 (bytes ++ [13]) = decodeFrom 0 bytes ++ ['\r'] :=
      decodeFrom_append (c := 13) (by decide) (Nat.zero_le _) []
    rw [hreturn, List.reverse_append, List.dropLast_concat]
    exact List.reverse_reverse _
  · rename_i hlast
    rw [dropReturn_reverse (getLast?_decodeFrom_ne hlast), List.reverse_reverse]

/-- The first line of a text ends where the first newline byte is. -/
theorem linesFrom_decodeFrom_newline (h : 10 ∉ line) (rest : List UInt8) :
    linesFrom [] (decodeFrom 0 (line ++ 10 :: rest)) =
      decodeFrom 0 (if line.getLast? = some 13 then line.dropLast else line) ::
        linesFrom [] (decodeFrom 0 rest) := by
  have hnewline : decodeFrom 0 (line ++ 10 :: rest) =
      decodeFrom 0 line ++ '\n' :: decodeFrom 0 rest :=
    decodeFrom_append (c := 10) (by decide) (Nat.zero_le _) rest
  rw [hnewline, linesFrom_append_of_not_mem (newline_not_mem_decodeFrom h), List.append_nil,
    linesFrom_newline, dropReturn_decodeFrom]

/-- Without a newline byte there is one line, unless there are no bytes at all. -/
theorem linesFrom_decodeFrom (h : 10 ∉ line) (hne : line ≠ []) :
    linesFrom [] (decodeFrom 0 line) =
      [decodeFrom 0 (if line.getLast? = some 13 then line.dropLast else line)] := by
  have htext : (decodeFrom 0 line).reverse.isEmpty = false := by
    rw [List.isEmpty_reverse, List.isEmpty_eq_false_iff]
    exact fun hnil => hne (decodeFrom_zero_eq_nil_iff.mp hnil)
  rw [linesFrom_eq_of_not_mem (newline_not_mem_decodeFrom h), linesFrom, htext,
    if_neg Bool.false_ne_true, dropReturn_decodeFrom]

end TexEngine.Text
