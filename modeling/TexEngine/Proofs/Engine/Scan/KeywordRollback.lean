/-
  TexEngine.Proofs.Engine.Scan.KeywordRollback

  Looking for a keyword reads either the keyword, with the spaces in front of it, or nothing.
  The tokens may come from several streams, some of which end on the way, and the input may
  end in the middle of the keyword: what is put back is read again in any case, though not
  from where it was read first.

  What is found depends on nothing but the tokens that come next; `keywordRest?` says in what
  way, and the loop is compared with it token by token.
-/
import Mathlib.Data.List.Forall2
import TexEngine.Proofs.Engine.Scan.Spelling
import TexEngine.Proofs.Env.Valuation

namespace TexEngine

open Eng

/-! ## Keywords among tokens -/

/-- The tokens are the letters of a word, one by one: characters of any category that is not
    active, in capital or small letters. -/
def IsSpelled (word : List CharCode) (ts : TokenList) : Prop :=
  List.Forall₂ (fun k t => isLetterOf k t = true) word ts

/-- The tokens begin with spaces and a word, and `rest` is what stands behind it. -/
def IsHeadedBy (word : List CharCode) (ts rest : TokenList) : Prop :=
  ∃ spaces spelled, ts = List.replicate spaces .space ++ (spelled ++ rest) ∧ IsSpelled word spelled

/-- What stands behind a word, if the tokens begin with it.  Spaces are skipped as long as no
    letter of the word has been found. -/
def keywordRest? : List CharCode → Bool → TokenList → Option TokenList
  | [], _, ts => some ts
  | _ :: _, _, [] => none
  | k :: ks, started, t :: ts =>
    if isLetterOf k t then keywordRest? ks true ts
    else if !started && t.hasCat .space then keywordRest? (k :: ks) false ts
    else none

/-- Behind the first letter, the other letters have to follow at once. -/
theorem keywordRest?_started {ks : List CharCode} {ts rest : TokenList} :
    keywordRest? ks true ts = some rest ↔
      ∃ spelled, ts = spelled ++ rest ∧ IsSpelled ks spelled := by
  -- By induction on the letters that are still wanted: spaces do not count any more once a letter
  -- was read.
  induction ks generalizing ts with
  | nil =>
    rw [keywordRest?, Option.some_inj]
    constructor
    · intro h
      exact ⟨[], h, .nil⟩
    · rintro ⟨spelled, h, hspelled⟩
      cases hspelled
      exact h
  | cons k ks ih =>
    cases ts with
    | nil =>
      rw [keywordRest?]
      constructor
      · intro h
        contradiction
      · rintro ⟨spelled, h, hspelled⟩
        cases hspelled
        contradiction
    | cons t ts =>
      rw [keywordRest?]
      by_cases ht : isLetterOf k t = true
      · rw [if_pos ht, ih]
        constructor
        · rintro ⟨spelled, rfl, hspelled⟩
          exact ⟨t :: spelled, rfl, .cons ht hspelled⟩
        · rintro ⟨spelled, h, hspelled⟩
          cases hspelled with
          | cons _ hrest =>
            injection h with _ hts
            exact ⟨_, hts, hrest⟩
      · rw [if_neg ht]
        constructor
        · intro h
          contradiction
        · rintro ⟨spelled, h, hspelled⟩
          cases hspelled with
          | cons hletter _ =>
            injection h with heq _
            rw [heq] at ht
            contradiction

theorem not_isLetterOf_space {k : CharCode} (hk : k ≠ 32) : isLetterOf k .space = false := by
  show (Text.toSmall 32 == k) = false
  exact beq_eq_false_iff_ne.mpr (Ne.symm hk)

/-- A word that does not begin with a space is found behind any number of spaces. -/
theorem keywordRest?_eq_some_iff {k : CharCode} (hk : k ≠ 32) {ks : List CharCode}
    {ts rest : TokenList} (hspace : ∀ t ∈ ts, t.hasCat .space = true → t = .space) :
    keywordRest? (k :: ks) false ts = some rest ↔ IsHeadedBy (k :: ks) ts rest := by
  -- By induction on the tokens: a space is skipped with the whole word still to come.
  induction ts with
  | nil =>
    rw [keywordRest?]
    constructor
    · intro h
      contradiction
    · rintro ⟨spaces, spelled, h, hspelled⟩
      cases hspelled
      simp at h
  | cons t ts ih =>
    rw [List.forall_mem_cons] at hspace
    rw [keywordRest?]
    by_cases ht : isLetterOf k t = true
    · rw [if_pos ht, keywordRest?_started]
      constructor
      · rintro ⟨spelled, rfl, hspelled⟩
        exact ⟨0, t :: spelled, rfl, .cons ht hspelled⟩
      · rintro ⟨spaces, spelled, h, hspelled⟩
        cases spaces with
        | zero =>
          cases hspelled with
          | cons _ hrest =>
            injection h with _ hts
            exact ⟨_, hts, hrest⟩
        | succ spaces =>
          injection h with heq _
          rw [heq, not_isLetterOf_space hk] at ht
          contradiction
    · rw [if_neg ht]
      -- The word begins behind `t`, if `t` is a space.
      have hbehind : IsHeadedBy (k :: ks) (t :: ts) rest ↔
          t = .space ∧ IsHeadedBy (k :: ks) ts rest := by
        constructor
        · rintro ⟨spaces, spelled, h, hspelled⟩
          cases spaces with
          | zero =>
            cases hspelled with
            | cons hletter _ =>
              injection h with heq _
              rw [heq] at ht
              contradiction
          | succ spaces =>
            injection h with heq hts
            exact ⟨heq, spaces, spelled, hts, hspelled⟩
        · rintro ⟨rfl, spaces, spelled, rfl, hspelled⟩
          exact ⟨spaces + 1, spelled, rfl, hspelled⟩
      rw [hbehind]
      by_cases hcat : t.hasCat .space = true
      · rw [if_pos (by simp [hcat]), ih hspace.2]
        exact (and_iff_right (hspace.1 hcat)).symm
      · rw [if_neg (by simp [hcat])]
        constructor
        · intro h
          contradiction
        · rintro ⟨rfl, -⟩
          exact absurd rfl hcat

/-! ## Letters -/

/-- Capital letters of the table are not moved onto the space. -/
theorem shiftBy_ne_space {c : Int} (hc : c ≠ 32) :
    (Text.shiftBy Text.smallShifts c : Int) ≠ 32 := by
  have htable :
      (Text.smallShifts.toList.all fun s => 32 < (s.range.first : Int) + s.shift) = true := by
    decide +kernel
  unfold Text.shiftBy
  cases hfind : Text.smallShifts.find? (·.range.contains c) with
  | none => exact hc
  | some s =>
    have hmem : s ∈ Text.smallShifts.toList :=
      Array.mem_toList_iff.mpr (Array.mem_of_find?_eq_some hfind)
    have hshift : 32 < (s.range.first : Int) + s.shift := by
      simpa using List.all_eq_true.mp htable s hmem
    have hcontains : (s.range.first : Int) ≤ c := by
      have hsome := Array.find?_some hfind
      simp only [Text.CodeRange.contains, Bool.and_eq_true, decide_eq_true_eq] at hsome
      exact hsome.1.1
    show c + s.shift ≠ 32
    omega

/-- No character but the space has the space as its small letter. -/
theorem toSmall_ne_space {c : Int} (hc : c ≠ 32) : (Text.toSmall c : Int) ≠ 32 := by
  have hshift := shiftBy_ne_space hc
  have hcapital : 65 ≤ c ∧ c ≤ 90 → c + 32 ≠ 32 := by omega
  unfold Text.toSmall
  split
  · split
    · exact hcapital (by assumption)
    · exact hc
  · exact hshift

theorem toChar_ne_space {c : Int} (hc : c ≠ 32) : ((CharCode.toChar c).toNat : Int) ≠ 32 := by
  by_cases hscalar : CharCode.IsScalar c
  · rw [CharCode.toNat_toChar hscalar]
    rw [CharCode.isScalar_iff] at hscalar
    omega
  · unfold CharCode.toChar
    rw [if_neg hscalar]
    decide

/-- The letters that a keyword is compared with, if it does not begin with a space. -/
theorem exists_letters_eq_cons {keyword : String} {c : Char} {cs : List Char}
    (hkeyword : keyword.toList = c :: cs) (hc : c ≠ ' ') :
    ∃ k ks, Expander.letters keyword = k :: ks ∧ k ≠ 32 := by
  have hcode : (c.toNat : Int) ≠ 32 := fun h => hc (Char.toNat_inj.mp (Int.ofNat_inj.mp h))
  unfold Expander.letters Text.toSmallText CharCode.ofText
  rw [hkeyword, String.toList_ofList]
  exact ⟨_, _, rfl, toChar_ne_space (toSmall_ne_space hcode)⟩

/-! ## All tokens of an input -/

/-- Reading, without expansion, gives the tokens, and then the input is at its end. -/
def Machine.Delivers (m : Machine) (ts : TokenList) : Prop :=
  ∃ e e', m.Yields ts e ∧ token? e = .ok none e'

theorem Machine.Upcoming.delivers {m e e' : Machine} {ts : TokenList} (h : m.Upcoming ts e)
    (hend : token? e = .ok none e') : m.Delivers ts := by
  obtain ⟨m', hyields, hbehind⟩ := h.reads
  exact ⟨m', e', hyields, hbehind.trans hend⟩

namespace Expander

variable {x : Expander} {m e e' : Machine} {ts : TokenList}

/-- Where the rest of an input is known, the loop does what `keywordRest?` says.  If the
    keyword is not found, everything that was seen comes next again. -/
theorem scans_keywordStep (hx : 0 < x.fuel) (hend : token? e = .ok none e')
    (hunexp : ∀ t ∈ ts, Unexpandable e.env t) (ks : List CharCode) (started : Bool)
    (seen : TokenList) (n : Nat) :
    Scans e (iterate x.keywordStep (n + 1 + ts.length) (ks, started, seen)) ts
      (keywordRest? ks started ts).isSome
      ((keywordRest? ks started ts).getD (seen.reverse ++ ts)) := by
  -- By induction on the tokens, with any that have been seen: a mismatch puts them all back.
  induction ts generalizing ks started seen with
  | nil =>
    apply Scans.iterate_done
    cases ks with
    | nil => exact .pure (Step.done true) []
    | cons k ks =>
      intro m hm
      obtain ⟨m', hpush, hm'⟩ := (hm.of_token?_none hend).exists_push seen.reverse
      refine ⟨m', ?_, hm'⟩
      have hnext := x.next?_of_none hx (hm.token?_eq.trans hend)
      unfold keywordStep
      dsimp only
      rw [bind_of_ok hnext]
      dsimp only
      rw [bind_of_ok hpush]
      rfl
  | cons t ts ih =>
    rw [List.forall_mem_cons] at hunexp
    rw [List.length_cons, ← Nat.add_assoc]
    cases ks with
    | nil => exact .iterate_done (.pure (Step.done true) _) _
    | cons k ks =>
      have hread := scans_next? hx hunexp.1 ts
      -- What is seen next to `t` is put back behind it.
      have hseen : (t :: seen).reverse ++ ts = seen.reverse ++ t :: ts := by
        rw [List.reverse_cons, List.append_assoc]
        rfl
      rw [keywordRest?]
      by_cases ht : isLetterOf k t = true
      · rw [if_pos ht, ← hseen]
        apply Scans.iterate_again _ (ih hunexp.2 ks true (t :: seen))
        intro m hm
        obtain ⟨m₁, hnext, hm₁⟩ := hread m hm
        exact ⟨m₁, keywordStep_match hnext ht ks started seen, hm₁⟩
      · have hmiss : isLetterOf k t = false := Bool.eq_false_iff.mpr ht
        rw [if_neg ht]
        by_cases hskip : (!started && t.hasCat .space) = true
        · obtain ⟨rfl, hspace⟩ : started = false ∧ t.hasCat .space = true := by simpa using hskip
          rw [if_pos hskip, ← hseen]
          apply Scans.iterate_again _ (ih hunexp.2 (k :: ks) false (t :: seen))
          intro m hm
          obtain ⟨m₁, hnext, hm₁⟩ := hread m hm
          exact ⟨m₁, keywordStep_space hnext hmiss hspace ks seen, hm₁⟩
        · rw [if_neg hskip]
          apply Scans.iterate_done
          intro m hm
          obtain ⟨m₁, hnext, hm₁⟩ := hread m hm
          refine ⟨_, keywordStep_stop hnext hmiss ks started (Bool.eq_false_iff.mpr hskip) seen, ?_⟩
          show (m₁.feed (t :: seen).reverse).Upcoming (seen.reverse ++ t :: ts) e
          rw [← hseen]
          exact hm₁.feed (t :: seen).reverse

theorem scanKeyword_congr (hx : 0 < x.fuel) {keyword : String} {k : CharCode} {ks : List CharCode}
    (hletters : letters keyword = k :: ks) {m n : Machine} (h : token? m = token? n) :
    x.scanKeyword keyword m = x.scanKeyword keyword n := by
  obtain ⟨fuel, hfuel⟩ := Nat.exists_eq_add_one.mpr hx
  rw [letters] at hletters
  rw [scanKeyword_eq_iterate, hletters, hfuel, iterate]
  exact bind_congr_left (bind_congr_left (next?_congr hx h) _) _

/-- Among tokens that cannot be expanded, a keyword is found exactly if spaces and its letters
    come next, and then the input goes on behind them.  Otherwise, also if the input ends in
    the middle of the keyword, the input still consists of the same tokens. -/
theorem scanKeyword_or_rollback (x : Expander) {keyword : String} {c : Char} {cs : List Char}
    (hkeyword : keyword.toList = c :: cs) (hc : c ≠ ' ') {m : Machine} {ts : TokenList}
    (hmark : m.marked = none) (hts : m.Delivers ts) (hunexp : ∀ t ∈ ts, Unexpandable m.env t)
    (hspace : ∀ t ∈ ts, t.hasCat .space = true → t = .space) (hfuel : ts.length < x.fuel) :
    (∀ rest, IsHeadedBy (letters keyword) ts rest →
      ∃ m', x.scanKeyword keyword m = .ok true m' ∧ m'.Delivers rest) ∧
    ((∀ rest, ¬ IsHeadedBy (letters keyword) ts rest) →
      ∃ m', x.scanKeyword keyword m = .ok false m' ∧ m'.Delivers ts) := by
  obtain ⟨e, e', hyields, hend⟩ := hts
  obtain ⟨k, ks, hletters, hk⟩ := exists_letters_eq_cons hkeyword hc
  have hx : 0 < x.fuel := by omega
  obtain ⟨n, hn⟩ : ∃ n, x.fuel = n + 1 + ts.length := ⟨x.fuel - ts.length - 1, by omega⟩
  -- All of the input is known, so the loop does what the list of its tokens says.
  have hscan := scans_keywordStep (x := x) hx hend
    (fun t ht => hyields.env_eq ▸ hunexp t ht) (letters keyword) false [] n
  rw [← hn, letters, ← scanKeyword_eq_iterate, ← letters, hletters] at hscan
  obtain ⟨m', hm', hbehind⟩ := hscan m.ready (.of_unmarked hmark hyields)
  rw [scanKeyword_congr hx hletters (token?_ready m hmark)] at hm'
  rw [hletters]
  constructor
  · intro rest hheaded
    rw [(keywordRest?_eq_some_iff hk hspace).mpr hheaded] at hm' hbehind
    exact ⟨m', hm', hbehind.delivers hend⟩
  · intro hheaded
    have hnone : keywordRest? (k :: ks) false ts = none :=
      Option.eq_none_iff_forall_ne_some.mpr fun rest hrest =>
        hheaded rest ((keywordRest?_eq_some_iff hk hspace).mp hrest)
    rw [hnone] at hm' hbehind
    exact ⟨m', hm', hbehind.delivers hend⟩

/-- The input ends behind " Min": the keyword "mi" is there, and of "minus" everything is put
    back, though the stream that held the letters is gone. -/
theorem scanKeyword_or_rollback_end :
    let x : Expander := ⟨50, fun _ _ => pure ()⟩
    let ts : TokenList := [.space, .letter 77, .other 105, .letter 110]
    (∃ m', x.scanKeyword "mi" (Machine.feed { env := {} } ts) = .ok true m' ∧
      m'.Delivers [.letter 110]) ∧
    ∃ m', x.scanKeyword "minus" (Machine.feed { env := {} } ts) = .ok false m' ∧
      m'.Delivers ts := by
  intro x ts
  have hend : token? (Machine.feed { env := {} } []) = .ok none { env := {} } :=
    token?_feed_nil { env := {} }
  have hts : (Machine.feed { env := {} } ts).Delivers ts :=
    ⟨_, _, Machine.Yields.of_feed { env := {} } ts [], hend⟩
  have hplain : ∀ t ∈ ts, t.isCommand = false := by decide
  have hspace : ∀ t ∈ ts, t.hasCat .space = true → t = .space := by decide
  have hscan := fun (keyword : String) {c : Char} {cs : List Char}
      (hkeyword : keyword.toList = c :: cs) (hc : c ≠ ' ') =>
    scanKeyword_or_rollback x hkeyword hc rfl hts
      (fun t ht => unexpandable_of_not_isCommand _ (hplain t ht)) hspace
      (by decide : ts.length < 50)
  refine ⟨(hscan "mi" rfl (by decide)).1 _ ?_,
    (hscan "minus" rfl (by decide)).2 ?_⟩
  · exact ⟨1, [.letter 77, .other 105], rfl, .cons rfl (.cons rfl .nil)⟩
  -- The keyword has five letters, and there are four tokens.
  · rintro rest ⟨spaces, spelled, hsplit, hspelled⟩
    have hletters : (letters "minus").length = spelled.length := List.Forall₂.length_eq hspelled
    have hlength := congrArg List.length hsplit
    have hword : (letters "minus").length = 5 := by decide
    simp only [List.length_append, List.length_replicate, ts, List.length_cons,
      List.length_nil] at hlength
    omega

end Expander

end TexEngine
