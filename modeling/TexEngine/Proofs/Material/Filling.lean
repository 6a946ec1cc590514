/-
  TexEngine.Proofs.Material.Filling

  What filling makes of a text.  The lines of a paragraph have its words, in order; no line is
  wider than asked for unless it is a single word, and no line ends where the next word would
  still have fitted.  The text itself is put together from these lines: every line is ended,
  and an empty line stands between two paragraphs.  So the filled text has the words of the
  text, and nothing but white space is changed.
-/
import Mathlib.Data.List.Chain
import Mathlib.Data.List.Forall2
import TexEngine.Material.Fill
import TexEngine.Proofs.Text.Words

namespace TexEngine.Fill

open Text

variable {width : Int} {line ws : List String} {used : Nat} {s : String}

/-! ## The lines of a paragraph -/

/-- The words of a line with single spaces between them. -/
def lineText (line : List String) : String :=
  String.intercalate " " line

/-- The lines of a paragraph, each with its line end. -/
def blockText (lines : List (List String)) : String :=
  String.join (lines.map fun line => lineText line ++ "\n")

/-- The lines are filled: as many words as fit into the width are on every line, and one line
    has all words if there is no width to fit them into. -/
structure Filled (width : Int) (lines : List (List String)) : Prop where
  nonempty : ∀ line ∈ lines, line ≠ []
  fits : 0 < width → ∀ line ∈ lines, 1 < line.length → ((lineText line).length : Int) ≤ width
  greedy : lines.IsChain fun line next =>
    ∀ w ∈ next.head?, width < ((lineText line).length + 1 + w.length : Nat)
  unbroken : width ≤ 0 → lines.length = 1

theorem lineText_singleton (w : String) : lineText [w] = w :=
  String.intercalate_singleton

theorem length_lineText_append (hne : line ≠ []) (w : String) :
    (lineText (line ++ [w])).length = (lineText line).length + 1 + w.length := by
  rw [lineText, String.intercalate_append_of_ne_nil hne (by simp), String.intercalate_singleton,
    String.length_append, String.length_append]
  rfl

theorem flatten_linesFrom (width : Int) (line : List String) (used : Nat) (ws : List String) :
    (linesFrom width line used ws).flatten = line.reverse ++ ws := by
  fun_induction linesFrom width line used ws with
  | case1 line used => simp
  | case2 line used w ws n hfit ih => simpa using ih
  | case3 line used w ws n hfit ih => simpa using ih

/-- The words of the line that is being filled stay at its beginning. -/
theorem exists_linesFrom_eq (width : Int) (line : List String) (used : Nat) (ws : List String) :
    ∃ more rest, linesFrom width line used ws = (line.reverse ++ more) :: rest := by
  fun_induction linesFrom width line used ws with
  | case1 line used => exact ⟨[], [], by simp⟩
  | case2 line used w ws n hfit ih =>
    obtain ⟨more, rest, heq⟩ := ih
    exact ⟨w :: more, rest, by simpa using heq⟩
  | case3 line used w ws n hfit ih => exact ⟨[], linesFrom width [w] n ws, by simp⟩

/-- The lines are filled if the line that is being filled has a word, is as long as counted
    and is not too wide. -/
theorem filled_linesFrom (hne : line ≠ []) (hused : (lineText line.reverse).length = used)
    (hfits : 0 < width → 1 < line.length → (used : Int) ≤ width) :
    Filled width (linesFrom width line used ws) := by
  fun_induction linesFrom width line used ws with
  | case1 line used =>
    exact ⟨by simpa using hne, by simpa [hused] using hfits, List.isChain_singleton _, by simp⟩
  | case2 line used w ws n hfit ih =>
    -- `w` is added to the line, which stays within the width if there is one
    have hlength := length_lineText_append (List.reverse_ne_nil_iff.mpr hne) w
    refine ih (List.cons_ne_nil _ _) (by rw [List.reverse_cons, hlength, hused]) ?_
    intro hwidth _
    exact hfit.resolve_left (by omega)
  | case3 line used w ws n hfit ih =>
    -- `w` does not fit, so that this line is closed and `w` starts the next one
    obtain ⟨hpositive, hwide⟩ := not_or.mp hfit
    have hrest := ih (List.cons_ne_nil _ _) (by rw [List.reverse_singleton, lineText_singleton])
      (by simp)
    obtain ⟨more, rest, heq⟩ := exists_linesFrom_eq width [w] n ws
    refine ⟨?_, ?_, ?_, by omega⟩
    · exact List.forall_mem_cons.mpr ⟨by simpa using hne, hrest.nonempty⟩
    · intro hwidth
      refine List.forall_mem_cons.mpr ⟨?_, hrest.fits hwidth⟩
      simpa [hused] using hfits hwidth
    · refine List.isChain_cons.mpr ⟨?_, hrest.greedy⟩
      rw [heq, hused]
      simpa using hwide

theorem flatten_lines (width : Int) (ws : List String) : (lines width ws).flatten = ws := by
  cases ws with
  | nil => rfl
  | cons w ws => exact flatten_linesFrom width [w] w.length ws

theorem filled_lines (hne : ws ≠ []) : Filled width (lines width ws) := by
  obtain ⟨w, ws, rfl⟩ := List.exists_cons_of_ne_nil hne
  refine filled_linesFrom (List.cons_ne_nil _ _) ?_ (by simp)
  rw [List.reverse_singleton, lineText_singleton]

/-! ## The parts of a text -/

/-- The text is divided at every pair of line ends. -/
structure Divided (s : String) (parts : List String) : Prop where
  joined : String.intercalate "\n\n" parts = s
  unbroken : ∀ part ∈ parts, ¬['\n', '\n'] <:+: part.toList
  leftmost : ∀ part ∈ parts.dropLast, part.toList.getLast? ≠ some '\n'

theorem splitFrom_ne_nil (part cs : List Char) : splitFrom part cs ≠ [] := by
  fun_induction splitFrom part cs <;> simp [*]

theorem intercalate_splitFrom (part cs : List Char) :
    (String.intercalate "\n\n" (splitFrom part cs)).toList = part.reverse ++ cs := by
  fun_induction splitFrom part cs with
  | case1 part cs ih =>
    rw [String.intercalate_cons_of_ne_nil (splitFrom_ne_nil _ _)]
    simp [ih]
  | case2 part c cs hpair ih => rw [ih]; simp
  | case3 part => simp

/-- No part has a pair of line ends if the part that is being read has none, and its last
    character makes no pair with the first one of the rest. -/
theorem unbroken_splitFrom {part cs : List Char} (hpart : ¬['\n', '\n'] <:+: part)
    (hnext : part.head? = some '\n' → cs.head? ≠ some '\n') :
    ∀ p ∈ splitFrom part cs, ¬['\n', '\n'] <:+: p.toList := by
  have hlast : ¬['\n', '\n'] <:+: (String.ofList part.reverse).toList := by
    rwa [String.toList_ofList, ← List.reverse_infix, List.reverse_reverse]
  fun_induction splitFrom part cs with
  | case1 part cs ih =>
    refine List.forall_mem_cons.mpr ⟨hlast, ih (by simp) (by simp) (by simp)⟩
  | case2 part c cs hpair ih =>
    have hpart' : ¬['\n', '\n'] <:+: c :: part := by
      rw [List.infix_cons_iff, not_or]
      refine ⟨fun hprefix => ?_, hpart⟩
      -- A pair at this place would have been found one character earlier.
      obtain ⟨rest, heq⟩ := hprefix
      simp only [List.cons_append, List.nil_append, List.cons.injEq] at heq
      exact hnext (by rw [← heq.2]; rfl) (by rw [← heq.1]; rfl)
    refine ih hpart' ?_ (by rwa [String.toList_ofList, ← List.reverse_infix, List.reverse_reverse])
    intro hc hcs
    obtain ⟨rest, rfl⟩ := List.head?_eq_some_iff.mp hcs
    exact hpair rest (by simpa using hc) rfl
  | case3 part => simpa using hlast

/-- A pair of line ends is found where it begins. -/
theorem leftmost_splitFrom {part cs : List Char}
    (hnext : part.head? = some '\n' → cs.head? ≠ some '\n') :
    ∀ p ∈ (splitFrom part cs).dropLast, p.toList.getLast? ≠ some '\n' := by
  fun_induction splitFrom part cs with
  | case1 part cs ih =>
    rw [List.dropLast_cons_of_ne_nil (splitFrom_ne_nil _ _)]
    refine List.forall_mem_cons.mpr ⟨?_, ih (by simp)⟩
    simpa using mt hnext (by simp)
  | case2 part c cs hpair ih =>
    refine ih ?_
    intro hc hcs
    obtain ⟨rest, rfl⟩ := List.head?_eq_some_iff.mp hcs
    exact hpair rest (by simpa using hc) rfl
  | case3 part => simp

theorem divided_parts (s : String) : Divided s (parts s) where
  joined := String.toList_inj.mp (intercalate_splitFrom [] s.toList)
  unbroken := unbroken_splitFrom (by simp) (by simp)
  leftmost := leftmost_splitFrom (by simp)

/-! ## The filled text -/

theorem isGap_space : IsGap " " := by
  simp [IsGap, isBlank]

theorem isGap_lineEnd : IsGap "\n" := by
  simp [IsGap, isBlank]

theorem isGap_paragraphEnd : IsGap "\n\n" := by
  simp [IsGap, isBlank]

theorem words_blockText {lines : List (List String)} (h : ∀ w ∈ lines.flatten, IsWord w) :
    words (blockText lines) = lines.flatten := by
  induction lines with
  | nil => rfl
  | cons line lines ih =>
    rw [List.flatten_cons, List.forall_mem_append] at h
    rw [blockText, List.map_cons, String.join_cons, words_append_gap isGap_lineEnd (by simp),
      ← blockText, lineText, words_intercalate_of_isWord isGap_space (by simp) h.1, ih h.2,
      List.flatten_cons]

/-- The words of a text are the words of its parts. -/
theorem flatten_paragraphs (s : String) : (paragraphs s).flatten = words s := by
  rw [paragraphs, List.flatten_filter_not_isEmpty]
  conv_rhs => rw [← (divided_parts s).joined, words_intercalate isGap_paragraphEnd (by simp)]
  rw [List.flatMap_def]

/-- Pieces with a line end in front of every block but the first make the blocks with line
    ends between them. -/
theorem join_blocks (b : List String) (bs : List (List String)) :
    String.join (b ++ (bs.map ("\n" :: ·)).flatten) =
      String.intercalate "\n" ((b :: bs).map String.join) := by
  induction bs generalizing b with
  | nil => simp
  | cons b' bs ih =>
    have hrest := ih b'
    simp only [List.map_cons, List.flatten_cons, String.join_append,
      String.join_cons, String.intercalate_cons_cons] at hrest ⊢
    rw [← hrest]
    simp [String.append_assoc]

/-- The filled text consists of its paragraphs, with an empty line between any two. -/
theorem text_eq (width : Int) (s : String) :
    text width s =
      String.intercalate "\n" ((paragraphs s).map fun ws => blockText (lines width ws)) := by
  have hblocks : (paragraphs s).map (fun ws => blockText (lines width ws)) =
      ((paragraphs s).map (block width)).map String.join := by
    rw [List.map_map]
    rfl
  rw [hblocks, text, pieces]
  cases (paragraphs s).map (block width) with
  | nil => rfl
  | cons b bs => exact join_blocks b bs

theorem words_text (width : Int) (s : String) : words (text width s) = words s := by
  have hwords : ∀ ws ∈ paragraphs s, words (blockText (lines width ws)) = ws := by
    intro ws hws
    have hisWord : ∀ w ∈ ws, IsWord w := fun w hw =>
      isWord_of_mem_words ((flatten_paragraphs s) ▸ List.mem_flatten_of_mem hws hw)
    rw [words_blockText (by rwa [flatten_lines]), flatten_lines]
  rw [text_eq, words_intercalate isGap_lineEnd (by simp), List.flatMap_map,
    List.flatMap_congr hwords, List.flatMap_id', flatten_paragraphs]

end TexEngine.Fill

namespace TexEngine.Recorder

open Fill

/-- Filling keeps the words of a text and puts them on lines; words are the longest stretches
    of characters that are no white space.  The text is divided at its pairs of line ends; every
    part with a word becomes a block of filled lines, and an empty line stands between two
    blocks. -/
theorem filled_paragraphs (r : Recorder) (width : Int) :
    (∀ s ws, Text.ConsistsOf s.toList ws ↔ ws = Text.words s) ∧
    Text.words (r.filled width) = Text.words r.text ∧
    ∃ parts blocks, Divided r.text parts ∧
      r.filled width = String.intercalate "\n" (blocks.map blockText) ∧
      List.Forall₂ (fun part block => block.flatten = Text.words part ∧ Filled width block)
        (parts.filter fun part => !(Text.words part).isEmpty) blocks := by
  refine ⟨fun _ _ => Text.consistsOf_iff, words_text width r.text, parts r.text,
    (paragraphs r.text).map (lines width), divided_parts r.text, ?_, ?_⟩
  · rw [filled, text_eq, List.map_map]
    rfl
  · rw [paragraphs, List.filter_map, List.map_map, List.forall₂_map_right_iff]
    refine List.forall₂_same.mpr fun part hpart => ?_
    refine ⟨flatten_lines width _, filled_lines ?_⟩
    simpa using (List.mem_filter.mp hpart).2

end TexEngine.Recorder
