/-
  TexEngine.Proofs.Text.Words

  The words of a text.  A word is a text without white space that is not empty.  White space
  between two texts keeps their words apart, so the words of a text that is put together from
  words and white space are the words that it was put together from.
-/
import Mathlib.Data.List.Basic
import TexEngine.Text.Blank

namespace TexEngine.Text

variable {word cs ds : List Char} {b w s t : String}

/-! ## Words -/

/-- The text is a single word. -/
structure IsWord (w : String) : Prop where
  nonempty : w ≠ ""
  unbroken : ∀ c ∈ w.toList, isBlank c = false

/-- The text is white space. -/
def IsGap (b : String) : Prop :=
  ∀ c ∈ b.toList, isBlank c = true

/-- The word that is being read, if there is one. -/
def lastWord (word : List Char) : List String :=
  if word.isEmpty then [] else [String.ofList word.reverse]

theorem wordsFrom_nil (word : List Char) : wordsFrom word [] = lastWord word := rfl

theorem wordsFrom_cons_of_blank {c : Char} (hc : isBlank c = true) (word cs : List Char) :
    wordsFrom word (c :: cs) = lastWord word ++ wordsFrom [] cs := by
  rw [wordsFrom.eq_2, if_pos hc, lastWord]
  split <;> rfl

theorem wordsFrom_cons_of_not_blank {c : Char} (hc : isBlank c = false) (word cs : List Char) :
    wordsFrom word (c :: cs) = wordsFrom (c :: word) cs := by
  rw [wordsFrom.eq_2, hc, if_neg Bool.false_ne_true]

theorem wordsFrom_unbroken (h : ∀ c ∈ cs, isBlank c = false) (word : List Char) :
    wordsFrom word cs = lastWord (cs.reverse ++ word) := by
  induction cs generalizing word with
  | nil => rfl
  | cons c cs ih =>
    obtain ⟨hc, hcs⟩ := List.forall_mem_cons.mp h
    rw [wordsFrom_cons_of_not_blank hc, ih hcs]
    simp only [List.reverse_cons, List.append_assoc, List.singleton_append]

theorem IsWord.words_eq (h : IsWord w) : words w = [w] := by
  have hne : w.toList ≠ [] := fun hnil => h.nonempty (by simpa using hnil)
  rw [words, wordsFrom_unbroken h.unbroken, lastWord]
  simp [hne]

theorem isWord_of_mem_lastWord (hword : ∀ c ∈ word, isBlank c = false)
    (h : w ∈ lastWord word) : IsWord w := by
  rw [lastWord] at h
  split at h
  · simp at h
  · rw [List.mem_singleton.mp h]
    exact ⟨by simpa using ‹¬word.isEmpty›, by simpa using hword⟩

theorem isWord_of_mem_wordsFrom (hword : ∀ c ∈ word, isBlank c = false)
    (h : w ∈ wordsFrom word cs) : IsWord w := by
  induction cs generalizing word with
  | nil => exact isWord_of_mem_lastWord hword h
  | cons c cs ih =>
    cases hc : isBlank c with
    | true =>
      rw [wordsFrom_cons_of_blank hc, List.mem_append] at h
      exact h.elim (isWord_of_mem_lastWord hword) (ih (by simp))
    | false =>
      rw [wordsFrom_cons_of_not_blank hc] at h
      exact ih (List.forall_mem_cons.mpr ⟨hc, hword⟩) h

theorem isWord_of_mem_words (h : w ∈ words s) : IsWord w :=
  isWord_of_mem_wordsFrom (by simp) h

/-! ## White space between texts -/

/-- A blank ends a word, and the next one is read afresh. -/
theorem wordsFrom_append_blank {c : Char} (hc : isBlank c = true) (word cs ds : List Char) :
    wordsFrom word (cs ++ c :: ds) = wordsFrom word cs ++ wordsFrom [] ds := by
  induction cs generalizing word with
  | nil => rw [List.nil_append, wordsFrom_cons_of_blank hc, wordsFrom_nil]
  | cons e cs ih =>
    cases he : isBlank e with
    | true => simp only [List.cons_append, wordsFrom_cons_of_blank he, ih, List.append_assoc]
    | false => simp only [List.cons_append, wordsFrom_cons_of_not_blank he, ih]

theorem wordsFrom_gap (h : ∀ c ∈ cs, isBlank c = true) (ds : List Char) :
    wordsFrom [] (cs ++ ds) = wordsFrom [] ds := by
  induction cs with
  | nil => rfl
  | cons c cs ih =>
    obtain ⟨hc, hcs⟩ := List.forall_mem_cons.mp h
    rw [List.cons_append, wordsFrom_cons_of_blank hc, ih hcs]
    rfl

/-- White space between two texts keeps their words apart. -/
theorem words_append_gap (h : IsGap b) (hne : b ≠ "") (s t : String) :
    words (s ++ b ++ t) = words s ++ words t := by
  obtain ⟨c, cs, hcs⟩ := List.exists_cons_of_ne_nil (l := b.toList) (by simpa using hne)
  rw [IsGap, hcs, List.forall_mem_cons] at h
  obtain ⟨hc, hrest⟩ := h
  simp only [words, String.toList_append, hcs, List.append_assoc, List.cons_append]
  rw [wordsFrom_append_blank hc, wordsFrom_gap hrest]

/-- The words of texts with white space between them are the words of the texts. -/
theorem words_intercalate (h : IsGap b) (hne : b ≠ "") (texts : List String) :
    words (String.intercalate b texts) = texts.flatMap words := by
  match texts with
  | [] => rfl
  | [s] => simp
  | s :: t :: texts =>
    have hrest := words_intercalate h hne (t :: texts)
    rw [String.intercalate_cons_cons, words_append_gap h hne, hrest]
    rfl

/-- Words with white space between them are the words of the text. -/
theorem words_intercalate_of_isWord (h : IsGap b) (hne : b ≠ "") {ws : List String}
    (hws : ∀ w ∈ ws, IsWord w) : words (String.intercalate b ws) = ws := by
  rw [words_intercalate h hne, List.flatMap_congr fun w hw => (hws w hw).words_eq,
    List.flatMap_singleton']

/-! ## Texts as words and white space -/

/-- The characters are these words, with white space between them and maybe around them.  Where
    a word ends, a blank follows or nothing at all, so that no word is a part of a longer one. -/
inductive ConsistsOf : List Char → List String → Prop where
  | gap {cs : List Char} (h : ∀ c ∈ cs, isBlank c = true) : ConsistsOf cs []
  | word {cs ds : List Char} {w : String} {ws : List String}
      (hgap : ∀ c ∈ cs, isBlank c = true) (hword : IsWord w)
      (hends : ∀ c ∈ ds.head?, isBlank c = true) (h : ConsistsOf ds ws) :
      ConsistsOf (cs ++ (w.toList ++ ds)) (w :: ws)

theorem ConsistsOf.eq_words {ws : List String} (h : ConsistsOf cs ws) : ws = wordsFrom [] cs := by
  induction h with
  | gap hgap =>
    have hnone := wordsFrom_gap hgap []
    rw [List.append_nil] at hnone
    exact hnone.symm
  | @word cs ds w ws hgap hword hends h ih =>
    have hone : wordsFrom [] w.toList = [w] := hword.words_eq
    rw [wordsFrom_gap hgap, ih]
    cases ds with
    | nil =>
      rw [List.append_nil, hone]
      rfl
    | cons c ds =>
      have hc : isBlank c = true := hends c rfl
      rw [wordsFrom_append_blank hc, hone, wordsFrom_cons_of_blank hc]
      rfl

/-- White space in front changes nothing. -/
theorem ConsistsOf.cons_blank {c : Char} (hc : isBlank c = true) {ws : List String}
    (h : ConsistsOf cs ws) : ConsistsOf (c :: cs) ws := by
  cases h with
  | gap hgap => exact .gap (List.forall_mem_cons.mpr ⟨hc, hgap⟩)
  | word hgap hword hends h => exact .word (List.forall_mem_cons.mpr ⟨hc, hgap⟩) hword hends h

/-- What is in front of characters that begin with a blank is one word, or nothing. -/
theorem ConsistsOf.lastWord_append {ws : List String} (hword : ∀ c ∈ word, isBlank c = false)
    (hends : ∀ c ∈ cs.head?, isBlank c = true) (h : ConsistsOf cs ws) :
    ConsistsOf (word.reverse ++ cs) (lastWord word ++ ws) := by
  cases word with
  | nil => exact h
  | cons e word =>
    have hlast : IsWord (String.ofList (e :: word).reverse) :=
      isWord_of_mem_lastWord hword List.mem_cons_self
    have hnothing : ∀ c ∈ ([] : List Char), isBlank c = true := List.forall_mem_nil _
    have hone := ConsistsOf.word hnothing hlast hends h
    rwa [String.toList_ofList] at hone

/-- The word that is being read stands in front of the characters. -/
theorem consistsOf_wordsFrom (hword : ∀ c ∈ word, isBlank c = false) :
    ConsistsOf (word.reverse ++ cs) (wordsFrom word cs) := by
  induction cs generalizing word with
  | nil =>
    have hnone : ConsistsOf [] [] := .gap (List.forall_mem_nil _)
    have hlast := hnone.lastWord_append hword (by simp)
    rwa [List.append_nil (lastWord word)] at hlast
  | cons c cs ih =>
    cases hc : isBlank c with
    | true =>
      rw [wordsFrom_cons_of_blank hc]
      have hrest := (ih (List.forall_mem_nil _)).cons_blank hc
      exact hrest.lastWord_append hword (by simpa using hc)
    | false =>
      rw [wordsFrom_cons_of_not_blank hc]
      have hread := ih (List.forall_mem_cons.mpr ⟨hc, hword⟩)
      rwa [List.reverse_cons, List.append_assoc] at hread

/-- Words are the maximal stretches of characters that are no blanks. -/
theorem consistsOf_iff {ws : List String} : ConsistsOf s.toList ws ↔ ws = words s := by
  constructor
  · exact ConsistsOf.eq_words
  · rintro rfl
    exact consistsOf_wordsFrom (List.forall_mem_nil _)

end TexEngine.Text
