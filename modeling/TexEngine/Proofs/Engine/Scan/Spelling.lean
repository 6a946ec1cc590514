/-
  TexEngine.Proofs.Engine.Scan.Spelling

  Keywords in any spelling.  A keyword may be written in capital and small letters, with
  characters of any category that is not active, and with spaces in front; it is found
  wherever its tokens come from.  Where other characters come next, the ones that were
  looked at are put back, with the spaces.
-/
import TexEngine.Proofs.Engine.Scan.Keyword
import TexEngine.Proofs.Engine.Upcoming

namespace TexEngine

open Eng

/-- The token is the given small letter, as a keyword takes it. -/
def isLetterOf (k : CharCode) (t : Token) : Bool :=
  t.isChar && !t.isActive && Text.toSmall t.code == k

/-- The tokens spell the word. -/
inductive Spells : List CharCode → TokenList → Prop where
  | nil : Spells [] []
  | cons {k : CharCode} {t : Token} {ks : List CharCode} {ts : TokenList}
      (ht : isLetterOf k t = true) (hspace : t.hasCat .space = false) (rest : Spells ks ts) :
      Spells (k :: ks) (t :: ts)

/-- The first letters of two words that differ. -/
def differ : List CharCode → List CharCode → Bool
  | k :: ks, l :: ls => k != l || differ ks ls
  | _, _ => false

theorem not_isCommand_of_isLetterOf {k : CharCode} {t : Token} (h : isLetterOf k t = true) :
    t.isCommand = false := by
  simp only [isLetterOf, Bool.and_eq_true, Bool.not_eq_true'] at h
  cases t with
  | char c k => exact h.1.2
  | _ => simp [Token.isChar] at h

theorem isLetterOf_eq_false {k l : CharCode} {t : Token} (h : isLetterOf l t = true) (hne : k ≠ l) :
    isLetterOf k t = false := by
  simp only [isLetterOf, Bool.and_eq_true, Bool.not_eq_true', beq_iff_eq] at h
  rw [isLetterOf, h.2, beq_eq_false_iff_ne.mpr (Ne.symm hne), Bool.and_false]

theorem Spells.ne_nil {k : CharCode} {ks : List CharCode} {ts : TokenList}
    (h : Spells (k :: ks) ts) : ts ≠ [] := by
  cases h with
  | cons => exact List.cons_ne_nil _ _

namespace Expander

variable {x : Expander} {e : Machine} {ks ls : List CharCode} {ts us vs : TokenList} {b : Bool}

/-! ## Optional spaces -/

/-- A space that is next is skipped. -/
theorem scans_skipOptionalSpace_space (hx : 0 < x.fuel) (ts : TokenList) :
    Scans e x.skipOptionalSpace (.space :: ts) () ts :=
  (scans_next? hx (unexpandable_of_not_isCommand _ rfl) ts).bind (.pure () ts)

/-- Where nothing of the kind is next, looking for a space changes nothing. -/
theorem scans_skipOptionalSpace_stops (hx : 0 < x.fuel) (he : e.Stops) :
    Scans e x.skipOptionalSpace [] () [] := by
  intro m hm
  unfold skipOptionalSpace
  cases he with
  | none h =>
    exact ⟨_, by rw [bind_of_ok (x.next?_of_none hx (hm.token?_eq.trans h))]; rfl,
      hm.of_token?_none h⟩
  | @some t e' h hunexp hspace =>
    have henv : e'.env = e.env := Machine.env_of_token? h
    refine ⟨e'.feed [t], ?_, hm.of_token?_some h⟩
    rw [bind_of_ok (x.next?_of_unexpandable hx (hm.token?_eq.trans h) (by rwa [henv]))]
    simp only [hspace]
    exact push_apply e' (by simp)

/-! ## Letters -/

/-- The letters of a keyword are read one by one. -/
theorem scans_keywordStep_of_spells (hx : 0 < x.fuel) (h : Spells ks ts) (rest : TokenList)
    (n : Nat) (started : Bool) (seen : TokenList) :
    Scans e (iterate x.keywordStep (n + 1 + ts.length) (ks, started, seen)) (ts ++ rest) true
      rest := by
  induction h generalizing started seen with
  | nil => exact .iterate_done (.pure _ rest) n
  | @cons k t ks ts ht _ _ ih =>
    rw [List.length_cons, ← Nat.add_assoc]
    apply Scans.iterate_again _ (ih true (t :: seen))
    intro m hm
    obtain ⟨m₁, hread, hm₁⟩ :=
      scans_next? hx (unexpandable_of_not_isCommand _ (not_isCommand_of_isLetterOf ht)) _ m hm
    exact ⟨m₁, keywordStep_match hread ht ks started seen, hm₁⟩

/-- At the first letter that is another one, everything is put back. -/
theorem scans_keywordStep_of_differ (hx : 0 < x.fuel) (h : Spells ls ts)
    (hdiffer : differ ks ls = true) (rest : TokenList) (n : Nat) (started : Bool)
    (seen : TokenList) :
    Scans e (iterate x.keywordStep (n + ts.length) (ks, started, seen)) (ts ++ rest) false
      (seen.reverse ++ (ts ++ rest)) := by
  -- The letters agree up to some place; there the loop stops and puts back what it has seen.
  induction h generalizing ks started seen with
  | nil =>
    rw [differ.eq_def] at hdiffer
    cases ks <;> contradiction
  | @cons l t ls ts ht hspace _ ih =>
    cases ks with
    | nil => contradiction
    | cons k ks =>
      have hread := scans_next? (e := e) hx
        (unexpandable_of_not_isCommand _ (not_isCommand_of_isLetterOf ht)) (ts ++ rest)
      rw [List.length_cons, ← Nat.add_assoc]
      by_cases hsame : k = l
      · subst hsame
        rw [differ, bne_self_eq_false, Bool.false_or] at hdiffer
        have hrest := ih hdiffer true (t :: seen)
        rw [List.reverse_cons, List.append_assoc] at hrest
        apply Scans.iterate_again _ hrest
        intro m hm
        obtain ⟨m₁, hnext, hm₁⟩ := hread m hm
        exact ⟨m₁, keywordStep_match hnext ht ks started seen, hm₁⟩
      · apply Scans.iterate_done
        intro m hm
        obtain ⟨m₁, hnext, hm₁⟩ := hread m hm
        refine ⟨_, keywordStep_mismatch hnext (isLetterOf_eq_false ht hsame) hspace ks started
          seen, ?_⟩
        rw [List.cons_append, List.append_cons, ← List.reverse_cons]
        exact hm₁.feed (t :: seen).reverse

/-! ## Spaces in front -/

/-- Spaces in front of a keyword are read, and remembered. -/
theorem scans_keywordStep_of_spaces (hx : 0 < x.fuel) {k : CharCode} (hk : k ≠ 32) (n : Nat)
    (s : Nat) (seen : TokenList)
    (h : Scans e (iterate x.keywordStep n
      (k :: ks, false, List.replicate s .space ++ seen)) ts b us) :
    Scans e (iterate x.keywordStep (n + s) (k :: ks, false, seen))
      (List.replicate s .space ++ ts) b us := by
  induction s generalizing seen with
  | zero => exact h
  | succ s ih =>
    have hmiss : isLetterOf k .space = false := by
      show (Text.toSmall 32 == k) = false
      exact beq_eq_false_iff_ne.mpr (Ne.symm hk)
    have hseen : List.replicate (s + 1) .space ++ seen =
        List.replicate s .space ++ .space :: seen := by
      rw [List.replicate_succ', List.append_assoc]
      rfl
    rw [hseen] at h
    rw [List.replicate_succ, List.cons_append, ← Nat.add_assoc]
    apply Scans.iterate_again _ (ih (.space :: seen) h)
    intro m hm
    obtain ⟨m₁, hread, hm₁⟩ := scans_next? hx (unexpandable_of_not_isCommand _ rfl) _ m hm
    exact ⟨m₁, keywordStep_space hread hmiss rfl ks seen, hm₁⟩

/-- The letters that a keyword is compared with. -/
def letters (keyword : String) : List CharCode :=
  CharCode.ofText (Text.toSmallText keyword)

/-- A keyword that is next is found. -/
theorem scans_scanKeyword_of_spells (hx : 0 < x.fuel) {keyword : String} {k : CharCode}
    (hletters : letters keyword = k :: ks) (hk : k ≠ 32) (h : Spells (k :: ks) ts) (s : Nat)
    (hfuel : s + ts.length < x.fuel) (rest : TokenList) :
    Scans e (x.scanKeyword keyword) (List.replicate s .space ++ (ts ++ rest)) true rest := by
  obtain ⟨n, hn⟩ : ∃ n, x.fuel = n + 1 + ts.length + s := ⟨x.fuel - ts.length - s - 1, by omega⟩
  rw [letters] at hletters
  rw [scanKeyword_eq_iterate, hn, hletters]
  exact scans_keywordStep_of_spaces hx hk _ s []
    (scans_keywordStep_of_spells hx h rest n false _)

/-- Where another word is next, a keyword is not found, and nothing is read. -/
theorem scans_scanKeyword_of_differ (hx : 0 < x.fuel) {keyword : String} {k : CharCode}
    (hletters : letters keyword = k :: ks) (hk : k ≠ 32) (h : Spells ls ts)
    (hdiffer : differ (k :: ks) ls = true) (s : Nat) (hfuel : s + ts.length < x.fuel)
    (rest : TokenList) :
    Scans e (x.scanKeyword keyword) (List.replicate s .space ++ (ts ++ rest)) false
      (List.replicate s .space ++ (ts ++ rest)) := by
  obtain ⟨n, hn⟩ : ∃ n, x.fuel = n + ts.length + s := ⟨x.fuel - ts.length - s, by omega⟩
  have hmiss := scans_keywordStep_of_differ (e := e) hx h hdiffer rest n false
    (List.replicate s .space ++ [])
  rw [List.append_nil, List.reverse_replicate] at hmiss
  rw [letters] at hletters
  rw [scanKeyword_eq_iterate, hn, hletters]
  exact scans_keywordStep_of_spaces hx hk _ s [] (by rwa [List.append_nil])

end Expander

end TexEngine
