/-
  TexEngine.Proofs.Engine.Scan.Keyword

  Keywords and optional spaces.  A keyword is found where it is next; where the next
  character does not begin it, everything is put back.

  `Ends` describes an input that goes on with nothing that can be part of a value:
  it is at its end, or a control sequence follows.  There, looking for a keyword or
  a space only looks ahead.
-/
import TexEngine.Proofs.Engine.Scan.Integer

namespace TexEngine.Expander

open Eng

variable {x : Expander} {m m' p : Machine}

/-! ## The end of a value -/

/-- From `m` on, nothing can be part of a value.  `p` is the machine once this has
    been found out, with the token that follows put back. -/
inductive Ends (x : Expander) (m p : Machine) : Prop where
  | none (h : x.next? m = .ok none p) (hp : x.next? p = .ok none p)
  | some {t : Token} {m' : Machine} (ht : t.isCs = true) (h : x.next? m = .ok (some t) m')
      (hp : m'.feed [t] = p) (hp' : x.next? p = .ok (some t) m')

theorem Ends.again (h : x.Ends m p) : x.Ends p p := by
  cases h with
  | none _ hp => exact .none hp hp
  | some ht _ hp hp' => exact .some ht hp' hp hp'

/-- An input ends a value if it is empty or goes on with a control sequence that cannot
    be expanded. -/
theorem ends_peek (hx : 0 < x.fuel) {t? : Option Token} (hm : m.marked = none)
    (h : token? m = .ok t? m') (ht : ∀ t ∈ t?, t.isCs = true ∧ Unexpandable m.env t) :
    x.Ends (m.ready.feed []) m.peek := by
  have hread : token? (m.ready.feed []) = .ok t? m' := by
    rw [token?_feed_nil, token?_ready m hm, h]
  have hagain := token?_peek hm h
  obtain ⟨-, hm'⟩ := token?_eq_ok hm h
  have henv : m'.env = m.env := by rw [hm']; rfl
  cases t? with
  | none =>
    have hpeek : m.peek = m' := by simp only [Machine.peek, h]
    rw [hpeek] at hagain ⊢
    exact .none (x.next?_of_none hx hread) (x.next?_of_none hx hagain)
  | some t =>
    obtain ⟨hcs, hunexp⟩ := ht t rfl
    rw [← henv] at hunexp
    have hpeek : m'.feed [t] = m.peek := by simp only [Machine.peek, h]
    exact .some hcs (x.next?_of_unexpandable hx hread hunexp) hpeek
      (x.next?_of_unexpandable hx hagain hunexp)

theorem not_space_of_isCs {t : Token} (ht : t.isCs = true) (k : Catcode) : t.hasCat k = false := by
  cases t <;> simp_all [Token.isCs, Token.hasCat]

theorem Ends.endsDigits (h : x.Ends m p) : x.EndsDigits m p := by
  intro c
  cases h with
  | none h _ => exact x.radixStep_none 10 c h
  | @some t m' ht h hp _ =>
    have hdigit : digit? t 10 = Option.none := by
      cases t <;> simp_all [Token.isCs, digit?]
    rw [x.radixStep_stop 10 c h hdigit, not_space_of_isCs ht]
    exact congrArg _ hp

/-! ## Optional spaces -/

theorem skipOptionalSpace_space (hx : 0 < x.fuel) (m : Machine) (ts : TokenList) :
    x.skipOptionalSpace (m.ready.feed (.space :: ts)) = .ok () (m.ready.feed ts) := by
  have hread := x.next?_feed_of_not_isCommand hx m (t := .space) rfl ts
  unfold skipOptionalSpace
  rw [bind_of_ok hread]
  rfl

theorem Ends.skipOptionalSpace (h : x.Ends m p) : x.skipOptionalSpace m = .ok () p := by
  unfold Expander.skipOptionalSpace
  cases h with
  | none h _ =>
    rw [bind_of_ok h]
    rfl
  | @some t m' ht h hp _ =>
    rw [bind_of_ok h]
    simp only [not_space_of_isCs ht]
    rw [← hp]
    exact push_apply m' (by simp)

/-! ## Keywords -/

/-- One round of `scanKeyword`. -/
def keywordStep (x : Expander) :
    List CharCode × Bool × TokenList → Eng (Step (List CharCode × Bool × TokenList) Bool) :=
  fun (wanted, started, seen) => do
    match wanted with
    | [] => return .done true
    | k :: ks =>
      match ← x.next? with
      | none =>
        push seen.reverse
        return .done false
      | some t =>
        if t.isChar && !t.isActive && Text.toSmall t.code == k then
          return .again (ks, true, t :: seen)
        else if !started && t.hasCat .space then return .again (wanted, started, t :: seen)
        else
          push (t :: seen).reverse
          return .done false

theorem scanKeyword_eq_iterate (x : Expander) (keyword : String) :
    x.scanKeyword keyword =
      iterate x.keywordStep x.fuel (CharCode.ofText (Text.toSmallText keyword), false, []) := rfl

theorem keywordStep_match {t : Token} {k : CharCode} (h : x.next? m = .ok (some t) m')
    (ht : (t.isChar && !t.isActive && Text.toSmall t.code == k) = true) (ks : List CharCode)
    (started : Bool) (seen : TokenList) :
    x.keywordStep (k :: ks, started, seen) m = .ok (.again (ks, true, t :: seen)) m' := by
  unfold keywordStep
  dsimp only
  rw [bind_of_ok h]
  dsimp only
  rw [if_pos ht]
  rfl

theorem keywordStep_space {t : Token} {k : CharCode} (h : x.next? m = .ok (some t) m')
    (ht : (t.isChar && !t.isActive && Text.toSmall t.code == k) = false)
    (hspace : t.hasCat .space = true) (ks : List CharCode) (seen : TokenList) :
    x.keywordStep (k :: ks, false, seen) m = .ok (.again (k :: ks, false, t :: seen)) m' := by
  unfold keywordStep
  dsimp only
  rw [bind_of_ok h]
  dsimp only
  rw [if_neg (by rw [ht]; simp), if_pos (by simp [hspace])]
  rfl

/-- A token that is neither the next letter nor a space that may be skipped is put back, with
    the tokens in front of it. -/
theorem keywordStep_stop {t : Token} {k : CharCode} (h : x.next? m = .ok (some t) m')
    (ht : (t.isChar && !t.isActive && Text.toSmall t.code == k) = false) (ks : List CharCode)
    (started : Bool) (hskip : (!started && t.hasCat .space) = false) (seen : TokenList) :
    x.keywordStep (k :: ks, started, seen) m =
      .ok (.done false) (m'.feed (t :: seen).reverse) := by
  unfold keywordStep
  dsimp only
  rw [bind_of_ok h]
  dsimp only
  rw [if_neg (by rw [ht]; simp), if_neg (by rw [hskip]; simp),
    bind_of_ok (push_apply m' (by simp))]
  rfl

theorem keywordStep_mismatch {t : Token} {k : CharCode} (h : x.next? m = .ok (some t) m')
    (ht : (t.isChar && !t.isActive && Text.toSmall t.code == k) = false)
    (hspace : t.hasCat .space = false) (ks : List CharCode) (started : Bool) (seen : TokenList) :
    x.keywordStep (k :: ks, started, seen) m =
      .ok (.done false) (m'.feed (t :: seen).reverse) :=
  keywordStep_stop h ht ks started (by rw [hspace, Bool.and_false]) seen

/-- The rest of a keyword is read. -/
theorem iterate_keywordStep (hx : 0 < x.fuel) (ks : List CharCode)
    (hks : ∀ k ∈ ks, Text.toSmall k = k) (m : Machine) (ts : TokenList) (n : Nat)
    (started : Bool) (seen : TokenList) :
    iterate x.keywordStep (n + ks.length + 1) (ks, started, seen)
        (m.ready.feed (ks.map Token.other ++ ts)) = .ok true (m.ready.feed ts) := by
  induction ks generalizing started seen with
  | nil => exact iterate_of_done rfl n
  | cons k ks ih =>
    rw [List.forall_mem_cons] at hks
    have hread := x.next?_feed_of_not_isCommand hx m (t := .other k) rfl (ks.map Token.other ++ ts)
    have hmatch : ((Token.other k).isChar && !(Token.other k).isActive &&
        Text.toSmall (Token.other k).code == k) = true := by
      show (Text.toSmall k == k) = true
      rw [hks.1]
      exact beq_self_eq_true k
    rw [List.map_cons, List.cons_append, List.length_cons, ← Nat.add_assoc,
      iterate_of_again (keywordStep_match hread hmatch ks started seen), ih hks.2]

/-- A keyword that is next is found. -/
theorem scanKeyword_feed (keyword : String) (ks : List CharCode)
    (hkeyword : CharCode.ofText (Text.toSmallText keyword) = ks)
    (hks : ∀ k ∈ ks, Text.toSmall k = k) (hfuel : ks.length < x.fuel) (m : Machine)
    (ts : TokenList) :
    x.scanKeyword keyword (m.ready.feed (ks.map Token.other ++ ts)) =
      .ok true (m.ready.feed ts) := by
  obtain ⟨n, hn⟩ := Nat.exists_eq_add_of_lt hfuel
  rw [scanKeyword_eq_iterate, hkeyword, hn, Nat.add_comm ks.length n,
    iterate_keywordStep (by omega) ks hks]

/-- The text does not begin with a keyword that begins with `k`. -/
structure Misses (k : CharCode) (t : Token) : Prop where
  not_letter : (t.isChar && !t.isActive && Text.toSmall t.code == k) = false
  not_space : t.hasCat .space = false

/-- A keyword that is not next is not found, and nothing is read. -/
theorem scanKeyword_of_misses (keyword : String) (k : CharCode) (ks : List CharCode)
    (hkeyword : CharCode.ofText (Text.toSmallText keyword) = k :: ks) (hx : 0 < x.fuel)
    {c : CharCode} (ht : Misses k (.other c)) (m : Machine) (ts : TokenList) :
    x.scanKeyword keyword (m.ready.feed (.other c :: ts)) =
      .ok false (m.ready.feed (.other c :: ts)) := by
  obtain ⟨n, hn⟩ := Nat.exists_eq_add_one.mpr hx
  have hread := x.next?_feed_of_not_isCommand hx m (t := .other c) rfl ts
  rw [scanKeyword_eq_iterate, hkeyword, hn,
    iterate_of_done (keywordStep_mismatch hread ht.not_letter ht.not_space ks false []),
    Machine.feed_feed]
  rfl

/-- The same with a space in front. -/
theorem scanKeyword_of_misses_space (keyword : String) (k : CharCode) (ks : List CharCode)
    (hkeyword : CharCode.ofText (Text.toSmallText keyword) = k :: ks) (hk : Text.toSmall 32 ≠ k)
    (hx : 1 < x.fuel) {c : CharCode} (ht : Misses k (.other c)) (m : Machine) (ts : TokenList) :
    x.scanKeyword keyword (m.ready.feed (.space :: .other c :: ts)) =
      .ok false (m.ready.feed (.space :: .other c :: ts)) := by
  obtain ⟨n, hn⟩ : ∃ n, x.fuel = n + 1 + 1 := ⟨x.fuel - 2, by omega⟩
  have hspace := x.next?_feed_of_not_isCommand (by omega) m (t := .space) rfl (.other c :: ts)
  have hread := x.next?_feed_of_not_isCommand (by omega) m (t := .other c) rfl ts
  have hmiss : (Token.space.isChar && !Token.space.isActive &&
      Text.toSmall Token.space.code == k) = false := by
    show (Text.toSmall 32 == k) = false
    exact beq_eq_false_iff_ne.mpr hk
  rw [scanKeyword_eq_iterate, hkeyword, hn,
    iterate_of_again (keywordStep_space hspace hmiss rfl ks []),
    iterate_of_done (keywordStep_mismatch hread ht.not_letter ht.not_space ks false _),
    Machine.feed_feed]
  rfl

/-- At the end of a value, no keyword is found. -/
theorem Ends.scanKeyword (h : x.Ends m p) (keyword : String) (k : CharCode) (ks : List CharCode)
    (hkeyword : CharCode.ofText (Text.toSmallText keyword) = k :: ks) (hx : 0 < x.fuel) :
    x.scanKeyword keyword m = .ok false p := by
  obtain ⟨n, hn⟩ := Nat.exists_eq_add_one.mpr hx
  rw [scanKeyword_eq_iterate, hkeyword, hn]
  cases h with
  | none h _ =>
    apply iterate_of_done
    unfold keywordStep
    dsimp only
    rw [bind_of_ok h]
    rfl
  | @some t m' ht h hp _ =>
    have hmiss : (t.isChar && !t.isActive && Text.toSmall t.code == k) = false := by
      cases t <;> simp_all [Token.isCs, Token.isChar]
    rw [iterate_of_done (keywordStep_mismatch h hmiss (not_space_of_isCs ht _) ks false []), ← hp]
    rfl

end TexEngine.Expander
