/-
  TexEngine.Proofs.Engine.Scan.IntegerLiteral

  Integers that are written in decimal, octal or hexadecimal digits, of any number.  Signs and
  digits may come from anywhere in the input; behind them stands something that cannot be
  expanded and is no digit.

  The loop that reads the digits never holds more than the largest integer, and goes on when
  it has reached it.  What it holds after digits that denote `v` is `Constant.reached v`: once
  `v` is too large it stays too large, so the loop knows in the end whether the whole number is.
-/
import Mathlib.Data.List.Forall2
import TexEngine.Proofs.Engine.Scan.Integer
import TexEngine.Proofs.Engine.Upcoming

namespace TexEngine

open Eng

/-! ## Digits -/

/-- The radices of integers. -/
inductive Radix where
  | octal
  | decimal
  | hexadecimal

namespace Radix

def base : Radix → Nat
  | octal => 8
  | decimal => 10
  | hexadecimal => 16

/-- The token that stands in front of the digits, except of decimal ones. -/
def mark : Radix → TokenList
  | octal => [.other 39]
  | decimal => []
  | hexadecimal => [.other 34]

/-- The base as the scanner has it. -/
def word (r : Radix) : Int64 :=
  Int64.ofNat r.base

/-- A token is a digit of the given value.  Digits from ten on are capital letters, which may
    be of category letter or other. -/
inductive IsDigit (r : Radix) : Nat → Token → Prop where
  | figure {d : Nat} (hd : d < 10) (hbase : d < r.base) : IsDigit r d (.char (48 + d) .other)
  | letter {d : Nat} {k : Catcode} (hk : k = .letter ∨ k = .other) (hd : 10 ≤ d)
      (hbase : d < r.base) : IsDigit r d (.char (55 + d) k)

/-- The number that digits denote, behind digits that denote `v`. -/
def valueFrom (r : Radix) (v : Nat) (ds : List Nat) : Nat :=
  ds.foldl (fun v d => v * r.base + d) v

theorem base_bounds (r : Radix) : 2 ≤ r.base ∧ r.base ≤ 16 := by
  cases r <;> decide

theorem toInt_word (r : Radix) : r.word.toInt = r.base := by
  have hbase := r.base_bounds
  exact Int64.toInt_ofNat_of_lt (by omega)

theorem ofNat_lt_word {r : Radix} {d : Nat} (hd : d < 16) :
    Int64.ofNat d < r.word ↔ d < r.base := by
  have hbase := r.base_bounds
  exact Int64.ofNat_lt_iff_lt (by omega) (by omega)

/-- Only hexadecimal digits can be letters. -/
theorem word_eq_of_lt_base {r : Radix} {d : Nat} (hd : 10 ≤ d) (hbase : d < r.base) :
    r.word = 16 := by
  cases r with
  | hexadecimal => rfl
  | octal =>
    have hlt : d < 8 := hbase
    omega
  | decimal =>
    have hlt : d < 10 := hbase
    omega

/-- The value of a digit is told by its distance from the first code. -/
theorem ofInt_code_sub (first : Int) (d : Nat) :
    Int64.ofInt (first + d - first) = Int64.ofNat d := by
  have hdistance : first + d - first = d := by omega
  rw [hdistance, Int64.ofInt_eq_ofNat]

namespace IsDigit

variable {r : Radix} {d : Nat} {t : Token}

theorem lt_base (h : r.IsDigit d t) : d < r.base := by
  cases h <;> assumption

/-- The scanner finds the value of a digit. -/
theorem digit?_eq (h : r.IsDigit d t) : digit? t r.word = some (Int64.ofNat d) := by
  have hbase := r.base_bounds
  have hlt := h.lt_base
  have hword := (ofNat_lt_word (by omega)).mpr hlt
  cases h with
  | figure hd _ =>
    have hcode : (48 : Int) ≤ 48 + d ∧ (48 : Int) + d ≤ 57 := by omega
    rw [digit?, if_pos ⟨rfl, hcode⟩, ofInt_code_sub]
    exact Option.filter_eq_some_iff.mpr ⟨rfl, decide_eq_true hword⟩
  | letter hk hd _ =>
    have hcode : (65 : Int) ≤ 55 + d ∧ (55 : Int) + d ≤ 70 := by omega
    have hfigure : ¬ (55 : Int) + d ≤ 57 := by omega
    rw [digit?, if_neg fun h => hfigure h.2.2,
      if_pos ⟨word_eq_of_lt_base hd hlt, hk.symm, hcode⟩, ofInt_code_sub]
    exact Option.filter_eq_some_iff.mpr ⟨rfl, decide_eq_true hword⟩

theorem not_isCommand (h : r.IsDigit d t) : t.isCommand = false :=
  not_isCommand_of_digit? h.digit?_eq

end IsDigit

/-- The scanner takes no other tokens for digits. -/
theorem exists_isDigit {r : Radix} {t : Token} {w : Int64} (h : digit? t r.word = some w) :
    ∃ d, r.IsDigit d t := by
  cases t with
  | char c k =>
    simp only [digit?, Option.filter_eq_some_iff, decide_eq_true_eq] at h
    obtain ⟨h, hlt⟩ := h
    -- Digits are the figures, and in radix 16 also the six letters; the value of a digit tells
    -- which one it is.
    split at h
    · rename_i hfigure
      obtain ⟨rfl, hlow, hhigh⟩ := hfigure
      obtain ⟨d, rfl⟩ := Int.le.dest hlow
      have hd : d < 10 := by
        have hbound : (48 : Int) + d ≤ 57 := hhigh
        omega
      rw [ofInt_code_sub, Option.some_inj] at h
      rw [← h, ofNat_lt_word (by omega)] at hlt
      exact ⟨d, .figure hd hlt⟩
    · split at h
      · rename_i hletter
        obtain ⟨-, hk, hlow, hhigh⟩ := hletter
        obtain ⟨d, rfl⟩ := Int.le.dest (Int.le_trans (by decide : (55 : Int) ≤ 65) hlow)
        have hd : 10 ≤ d ∧ d < 16 := by
          have hbounds : (65 : Int) ≤ 55 + d ∧ (55 : Int) + d ≤ 70 := ⟨hlow, hhigh⟩
          omega
        rw [ofInt_code_sub, Option.some_inj] at h
        rw [← h, ofNat_lt_word hd.2] at hlt
        exact ⟨d, .letter hk.symm hd.1 hlt⟩
      · contradiction
  | _ => contradiction

theorem digit?_eq_none {r : Radix} {t : Token} (h : ∀ d, ¬ r.IsDigit d t) :
    digit? t r.word = none := by
  rw [Option.eq_none_iff_forall_ne_some]
  intro w hw
  obtain ⟨d, hd⟩ := exists_isDigit hw
  exact h d hd

/-- What comes next is no digit and cannot be expanded, or nothing comes next.  A space behind
    digits is read with them, so what follows them comes next in the second machine. -/
inductive Stops (r : Radix) : Machine → Machine → Prop where
  | none {e e' : Machine} (h : token? e = .ok none e') : Stops r e e
  | space {t : Token} {e e' : Machine} (h : token? e = .ok (some t) e')
      (hspace : t.hasCat .space = true) : Stops r e e'
  | some {t : Token} {e e' : Machine} (h : token? e = .ok (some t) e')
      (hunexp : Unexpandable e.env t) (hspace : t.hasCat .space = false)
      (hdigit : ∀ d, ¬ r.IsDigit d t) : Stops r e e

end Radix

/-! ## The loop -/

namespace Expander

variable {x : Expander} {r : Radix} {e e' : Machine} {ds : List Nat} {ts : TokenList}

/-- What has been read of a constant after `k` digits that denote `v`. -/
def Constant.reached (v k : Nat) : Constant :=
  ⟨Int64.ofNat (min v 0x7FFFFFFF), k, decide (0x7FFFFFFF < v)⟩

theorem Constant.reached_of_le {v : Nat} (hv : v ≤ 0x7FFFFFFF) (k : Nat) :
    reached v k = ⟨Int64.ofNat v, k, false⟩ := by
  rw [reached, Nat.min_eq_left hv, decide_eq_false (by omega)]

theorem Constant.reached_of_lt {v : Nat} (hv : 0x7FFFFFFF < v) (k : Nat) :
    reached v k = ⟨Count.max, k, true⟩ := by
  rw [reached, Nat.min_eq_right (by omega), decide_eq_true hv]
  rfl

theorem ofNat_mul_word_add (r : Radix) (v d : Nat) :
    Int64.ofNat v * r.word + Int64.ofNat d = Int64.ofNat (v * r.base + d) := by
  rw [Radix.word, Int64.ofNat_add, Int64.ofNat_mul]

theorem gt_max_ofNat_iff {n : Nat} (hn : n < 2 ^ 63) :
    Int64.ofNat n > Count.max ↔ 0x7FFFFFFF < n := by
  rw [Count.max_eq_ofNat, gt_iff_lt, Int64.ofNat_lt_iff_lt (by decide) hn]

/-- Adding a digit, whether or not the number is too large already. -/
theorem Constant.add_reached {d : Nat} (hd : d < r.base) (v k : Nat) :
    (reached v k).add r.word (Int64.ofNat d) = reached (v * r.base + d) (k + 1) := by
  have hbase := r.base_bounds
  have hbound : min v 0x7FFFFFFF * r.base ≤ 0x7FFFFFFF * 16 :=
    Nat.mul_le_mul (Nat.min_le_right ..) hbase.2
  have hmono : v ≤ v * r.base := Nat.le_mul_of_pos_right v (by omega)
  have hgt := gt_max_ofNat_iff (n := min v 0x7FFFFFFF * r.base + d) (by omega)
  unfold add
  dsimp only
  rw [show (reached v k).value = Int64.ofNat (min v 0x7FFFFFFF) from rfl, ofNat_mul_word_add]
  by_cases hv : v ≤ 0x7FFFFFFF
  · rw [Nat.min_eq_left hv] at hgt ⊢
    by_cases hnow : 0x7FFFFFFF < v * r.base + d
    · rw [if_pos (hgt.mpr hnow), reached_of_lt hnow]
      rfl
    · rw [if_neg (mt hgt.mp hnow), reached_of_le hv, reached_of_le (by omega)]
  · -- The number was too large before, so the largest integer is held.
    have hclamped : 0x7FFFFFFF * 2 ≤ min v 0x7FFFFFFF * r.base := by
      rw [Nat.min_eq_right (by omega)]
      exact Nat.mul_le_mul_left _ hbase.1
    rw [if_pos (hgt.mpr (by omega)), reached_of_lt (by omega), reached_of_lt (by omega)]

theorem Constant.addFits_reached {d : Nat} (hd : d < r.base) (v k : Nat) :
    (reached v k).addFits r.word (Int64.ofNat d) = true := by
  have hbase := r.base_bounds
  have hword := r.toInt_word
  have hvalue : (reached v k).value.toInt = min v 0x7FFFFFFF :=
    Int64.toInt_ofNat_of_lt (by omega)
  have hdigit : (Int64.ofNat d).toInt = d := Int64.toInt_ofNat_of_lt (by omega)
  have hmul : Word.mulFits (reached v k).value r.word = true :=
    Word.mulFits_of_natAbs_le (m := 0x7FFFFFFF) (n := 16) (by omega) (by omega) (by decide)
  have hbound : min v 0x7FFFFFFF * r.base ≤ 0x7FFFFFFF * 16 :=
    Nat.mul_le_mul (Nat.min_le_right ..) hbase.2
  have hprod : ((reached v k).value * r.word).toInt = (min v 0x7FFFFFFF * r.base : Nat) := by
    rw [Word.toInt_mul hmul, hvalue, hword, Nat.cast_mul]
  rw [addFits, hmul, Word.addFits_of_bounds (by omega) (by omega)]
  rfl

/-- The number that `k` digits denote, if there are any and it is not too large. -/
def constantResult (v k : Nat) : Except TexError Int64 :=
  if k = 0 then .error { kind := .missingNumber }
  else if 0x7FFFFFFF < v then .error { kind := .numberTooBig }
  else .ok (Int64.ofNat v)

theorem natAbs_toInt_lt_of_constantResult {v k : Nat} {w : Int64} (h : constantResult v k = .ok w) :
    w.toInt.natAbs < 2 ^ 63 := by
  unfold constantResult at h
  split at h
  · contradiction
  · split at h
    · contradiction
    · injection h with h
      rw [← h, Int64.toInt_ofNat_of_lt (by omega)]
      omega

theorem finishConstant_reached (v k : Nat) (m : Machine) :
    finishConstant (.reached v k) m = ended (constantResult v k) m := by
  unfold constantResult
  by_cases hv : 0x7FFFFFFF < v
  · rw [Constant.reached_of_lt hv, if_pos hv]
    by_cases hk : k = 0
    · subst hk
      rfl
    · rw [finishConstant, if_neg hk, if_neg hk]
      rfl
  · rw [Constant.reached_of_le (by omega), if_neg hv]
    by_cases hk : k = 0
    · subst hk
      rfl
    · rw [finishConstant, if_neg hk, if_neg hk]
      rfl

theorem scans_radixStep_digit (hx : 0 < x.fuel) {d : Nat} {t : Token} (h : r.IsDigit d t)
    (v k : Nat) (ts : TokenList) :
    Scans e (x.radixStep r.word (.reached v k, none)) (t :: ts)
      (.again (.reached (v * r.base + d) (k + 1), none)) ts := by
  intro m hm
  obtain ⟨m₁, hread, hm₁⟩ :=
    scans_next? hx (unexpandable_of_not_isCommand _ h.not_isCommand) ts m hm
  refine ⟨m₁, ?_, hm₁⟩
  rw [x.radixStep_digit r.word _ hread h.digit?_eq hm₁.frozen
    (Constant.addFits_reached h.lt_base v k), Constant.add_reached h.lt_base]

/-- With the tokens `rest`, which are read, the loop ends, whatever it holds. -/
def EndsRadix (x : Expander) (r : Radix) (e : Machine) (rest : TokenList) : Prop :=
  ∀ c, Scans e (x.radixStep r.word (c, none)) rest (.done c) []

/-- What stops digits ends the loop, with one token if it is a space and else with none. -/
theorem exists_endsRadix (hx : 0 < x.fuel) (h : r.Stops e e') :
    ∃ rest, e.Yields rest e' ∧ x.EndsRadix r e' rest := by
  cases h with
  | none h =>
    -- Looking for more input at its end changes nothing.
    refine ⟨[], .nil e, fun c m hm => ⟨_, ?_, hm.of_token?_none h⟩⟩
    exact x.radixStep_none r.word c (x.next?_of_none hx (hm.token?_eq.trans h))
  | @space t _ _ h hspace =>
    refine ⟨[t], .cons h (.nil e'), fun c m hm => ?_⟩
    have hcommand := not_isCommand_of_hasCat hspace (by decide)
    have hdigit : digit? t r.word = none := by
      obtain ⟨c, rfl⟩ := hasCat_iff.mp hspace
      simp [digit?]
    obtain ⟨m₁, hread, hm₁⟩ := scans_next? hx (unexpandable_of_not_isCommand _ hcommand) [] m hm
    refine ⟨m₁, ?_, hm₁⟩
    rw [x.radixStep_stop r.word c hread hdigit, if_pos hspace]
  | @some t _ e₁ h hunexp hspace hdigit =>
    -- The token is read and put back, so in the end it comes next as before.
    refine ⟨[], .nil e, fun c m hm => ⟨e₁.feed [t], ?_, hm.of_token?_some h⟩⟩
    have henv : e₁.env = e.env := Machine.env_of_token? h
    have hread := x.next?_of_unexpandable hx (hm.token?_eq.trans h) (by rwa [henv])
    rw [x.radixStep_stop r.word c hread (Radix.digit?_eq_none hdigit), if_neg (by simp [hspace])]

variable {rest : TokenList}

/-- The digits behind `k` digits that denote `v`. -/
theorem scans_iterate_radixStep (hx : 0 < x.fuel) (h : List.Forall₂ r.IsDigit ds ts)
    (hends : x.EndsRadix r e rest) (n v k : Nat) :
    Scans e (iterate (x.radixStep r.word) (n + 1 + ts.length) (.reached v k, none)) (ts ++ rest)
      (.reached (r.valueFrom v ds) (k + ds.length)) [] := by
  -- By induction on the digits: one round for each of them, and one for what ends them.
  induction h generalizing v k with
  | nil => exact (hends _).iterate_done n
  | @cons d t ds ts hd _ ih =>
    have hloop := (scans_radixStep_digit hx hd v k (ts ++ rest)).iterate_again
      (ih (v * r.base + d) (k + 1))
    rwa [Nat.add_assoc k, Nat.add_comm 1] at hloop

/-- Digits are read up to their end. -/
theorem concludes_scanRadix (h : List.Forall₂ r.IsDigit ds ts) (hfuel : ts.length < x.fuel)
    (hends : x.EndsRadix r e rest) :
    Concludes e (x.scanRadix r.word none) (ts ++ rest) (constantResult (r.valueFrom 0 ds) ds.length)
      [] := by
  obtain ⟨n, hn⟩ : ∃ n, x.fuel = n + 1 + ts.length := ⟨x.fuel - ts.length - 1, by omega⟩
  have hloop := scans_iterate_radixStep (by omega) h hends n 0 0
  rw [Nat.zero_add, ← hn] at hloop
  rw [scanRadix_eq_iterate]
  exact hloop.bind_concludes fun m hm => ⟨m, finishConstant_reached _ _ m, hm⟩

/-- The first digit may have been read already. -/
theorem concludes_scanRadix_first {d : Nat} {t : Token} (hd : r.IsDigit d t)
    (h : List.Forall₂ r.IsDigit ds ts) (hfuel : ts.length + 1 < x.fuel)
    (hends : x.EndsRadix r e rest) :
    Concludes e (x.scanRadix r.word (some t)) (ts ++ rest)
      (constantResult (r.valueFrom 0 (d :: ds)) (d :: ds).length) [] := by
  obtain ⟨n, hn⟩ : ∃ n, x.fuel = n + 1 + ts.length + 1 := ⟨x.fuel - ts.length - 2, by omega⟩
  -- The first round takes the digit that is there and reads nothing.
  have hfirst : Scans e (x.radixStep r.word (.reached 0 0, some t)) (ts ++ rest)
      (.again (.reached (0 * r.base + d) 1, none)) (ts ++ rest) := by
    refine .of_apply fun m hm => ?_
    rw [x.radixStep_first r.word _ hd.digit?_eq hm.frozen
      (Constant.addFits_reached hd.lt_base 0 0), Constant.add_reached hd.lt_base]
  have hloop := hfirst.iterate_again (scans_iterate_radixStep (by omega) h hends n _ 1)
  rw [← hn, Nat.add_comm 1] at hloop
  rw [scanRadix_eq_iterate]
  exact hloop.bind_concludes fun m hm => ⟨m, finishConstant_reached _ _ m, hm⟩

/-! ## Signs -/

theorem scans_iterate_signStep (hx : 0 < x.fuel) (signs : TokenList)
    (hsigns : ∀ s ∈ signs, (signFlip? s).isSome) {t : Token} (ht : signFlip? t = none)
    (hunexp : Unexpandable e.env t) (ts : TokenList) (n : Nat) (neg : Bool) :
    Scans e (iterate x.signStep (n + 1 + signs.length) neg) (signs ++ t :: ts)
      (neg ^^ isNegated signs, t) ts := by
  induction signs generalizing neg with
  | nil =>
    rw [isNegated_nil, Bool.xor_false]
    apply Scans.iterate_done
    intro m hm
    obtain ⟨m₁, hread, hm₁⟩ := scans_next? hx hunexp ts m hm
    exact ⟨m₁, x.signStep_of_none neg hread ht, hm₁⟩
  | cons s signs ih =>
    rw [List.forall_mem_cons] at hsigns
    obtain ⟨b, hb⟩ := Option.isSome_iff_exists.mp hsigns.1
    have hrest := ih hsigns.2 (neg ^^ b)
    rw [Bool.xor_assoc, ← isNegated_cons hb] at hrest
    rw [List.length_cons, ← Nat.add_assoc]
    apply Scans.iterate_again _ hrest
    intro m hm
    obtain ⟨m₁, hread, hm₁⟩ :=
      scans_next? hx (unexpandable_of_not_isCommand _ (not_isCommand_of_signFlip? hb)) _ m hm
    exact ⟨m₁, x.signStep_of_some neg hread hb, hm₁⟩

theorem scans_scanSigns (signs : TokenList) (hfuel : signs.length < x.fuel)
    (hsigns : ∀ s ∈ signs, (signFlip? s).isSome) {t : Token} (ht : signFlip? t = none)
    (hunexp : Unexpandable e.env t) (ts : TokenList) :
    Scans e x.scanSigns (signs ++ t :: ts) (isNegated signs, t) ts := by
  obtain ⟨n, hn⟩ : ∃ n, x.fuel = n + 1 + signs.length := ⟨x.fuel - signs.length - 1, by omega⟩
  have hx : 0 < x.fuel := by omega
  have hloop := scans_iterate_signStep (e := e) hx signs hsigns ht hunexp ts n false
  rwa [Bool.false_xor, ← hn, ← scanSigns_eq_iterate] at hloop

theorem scanSigns_congr (hx : 0 < x.fuel) {m n : Machine} (h : token? m = token? n) :
    x.scanSigns m = x.scanSigns n := by
  obtain ⟨k, hk⟩ := Nat.exists_eq_add_one.mpr hx
  rw [scanSigns_eq_iterate, hk, iterate]
  exact bind_congr_left (bind_congr_left (next?_congr hx h) _) _

/-- Reading an integer begins with its signs. -/
theorem scanInteger_congr (hx : 0 < x.fuel) {m n : Machine} (h : token? m = token? n) :
    x.scanInteger m = x.scanInteger n := by
  obtain ⟨k, hk⟩ := Nat.exists_eq_add_one.mpr hx
  rw [scanInteger, hk, integerWithin]
  exact bind_congr_left (scanSigns_congr hx h) _

/-! ## Unsigned integers -/

/-- A mark tells the radix of the digits behind it. -/
theorem unsignedWith_mark (x : Expander) (int : Eng Int64) {u : Token} (hu : r.mark = [u])
    (m : Machine) : x.unsignedWith int u m = x.scanRadix r.word none m := by
  unfold unsignedWith
  cases r with
  | octal =>
    obtain rfl : Token.other 39 = u := List.singleton_inj.mp hu
    rw [bind_of_ok (quantity?_of_not_isCommand rfl m)]
    rfl
  | decimal => contradiction
  | hexadecimal =>
    obtain rfl : Token.other 34 = u := List.singleton_inj.mp hu
    rw [bind_of_ok (quantity?_of_not_isCommand rfl m)]
    rfl

theorem concludes_unsignedWith_mark {u : Token} (hu : r.mark = [u])
    (h : List.Forall₂ r.IsDigit ds ts) (hfuel : ts.length < x.fuel)
    (hends : x.EndsRadix r e rest) (int : Eng Int64) :
    Concludes e (x.unsignedWith int u) (ts ++ rest) (constantResult (r.valueFrom 0 ds) ds.length)
      [] := by
  intro m hm
  rw [x.unsignedWith_mark int hu]
  exact concludes_scanRadix h hfuel hends m hm

theorem concludes_unsignedWith_digit {d : Nat} {t : Token} (hd : Radix.decimal.IsDigit d t)
    (h : List.Forall₂ Radix.decimal.IsDigit ds ts) (hfuel : ts.length + 1 < x.fuel)
    (hends : x.EndsRadix .decimal e rest) (int : Eng Int64) :
    Concludes e (x.unsignedWith int t) (ts ++ rest)
      (constantResult (Radix.decimal.valueFrom 0 (d :: ds)) (d :: ds).length) [] := by
  intro m hm
  rw [x.unsignedWith_of_digit? int hd.digit?_eq]
  exact concludes_scanRadix_first hd h hfuel hends m hm

end Expander

/-! ## Literals -/

/-- An integer that is written as signs with spaces among them, the mark of a radix, and
    digits.  Decimal digits have no mark, so there has to be one of them. -/
structure IntegerLiteral where
  signs : TokenList
  radix : Radix
  digits : List Nat
  digitTokens : TokenList
  isSign : ∀ s ∈ signs, (signFlip? s).isSome
  isDigit : List.Forall₂ radix.IsDigit digits digitTokens
  nonempty : radix = .decimal → digits ≠ []

namespace IntegerLiteral

open Expander

/-- The tokens of an integer. -/
def tokens (l : IntegerLiteral) : TokenList :=
  l.signs ++ (l.radix.mark ++ l.digitTokens)

/-- The number that the digits denote. -/
def magnitude (l : IntegerLiteral) : Nat :=
  l.radix.valueFrom 0 l.digits

variable {x : Expander} {e e' : Machine} {rest : TokenList}

/-- The mark and the digits, when the first token of them has been read. -/
theorem concludes_unsignedWith (l : IntegerLiteral) (hfuel : l.digitTokens.length < x.fuel)
    (hends : x.EndsRadix l.radix e rest) :
    ∃ u us, l.radix.mark ++ l.digitTokens = u :: us ∧ u.isCommand = false ∧
      signFlip? u = none ∧ ∀ int, Concludes e (x.unsignedWith int u) (us ++ rest)
        (constantResult l.magnitude l.digits.length) [] := by
  obtain ⟨signs, radix, ds, ts, hsigns, hdigits, hnonempty⟩ := l
  cases radix with
  | octal =>
    exact ⟨_, ts, rfl, rfl, by decide, concludes_unsignedWith_mark rfl hdigits hfuel hends⟩
  | hexadecimal =>
    exact ⟨_, ts, rfl, rfl, by decide, concludes_unsignedWith_mark rfl hdigits hfuel hends⟩
  | decimal =>
    cases hdigits with
    | nil => exact absurd rfl (hnonempty rfl)
    | @cons d t ds ts hd hds =>
      exact ⟨t, ts, rfl, hd.not_isCommand, signFlip?_of_digit? hd.digit?_eq,
        concludes_unsignedWith_digit hd hds hfuel hends⟩

/-- The number that an integer denotes, or the reason why it denotes none. -/
def result (l : IntegerLiteral) : Except TexError Int64 :=
  (constantResult l.magnitude l.digits.length).map fun v =>
    if isNegated l.signs then -v else v

theorem concludes_scanInteger (l : IntegerLiteral) (hfuel : l.tokens.length < x.fuel)
    (hends : x.EndsRadix l.radix e rest) :
    Concludes e x.scanInteger (l.tokens ++ rest) l.result [] := by
  obtain ⟨k, hk⟩ : ∃ k, x.fuel = k + 1 := Nat.exists_eq_add_one.mpr (by omega)
  have hlength : l.signs.length + l.digitTokens.length < x.fuel := by
    simp only [tokens, List.length_append] at hfuel
    omega
  obtain ⟨u, us, hbody, hcommand, hsign, hunsigned⟩ := l.concludes_unsignedWith (by omega) hends
  have htokens : l.tokens ++ rest = l.signs ++ u :: (us ++ rest) := by
    rw [tokens, hbody, List.append_assoc, List.cons_append]
  -- The token that ends the signs decides how the rest is read.
  rw [htokens, scanInteger, hk, integerWithin]
  apply (scans_scanSigns l.signs (by omega) l.isSign hsign
    (unexpandable_of_not_isCommand _ hcommand) (us ++ rest)).bind_concludes
  apply (hunsigned _).bind
  intro v hv
  have hfits : (!isNegated l.signs || Word.negFits v) = true := by
    rw [Word.negFits_of_natAbs_lt (natAbs_toInt_lt_of_constantResult hv), Bool.or_true]
  exact .bind (.of_apply fun m _ => observe_of_fits hfits m) (.pure _ _)

theorem result_of_nil (l : IntegerLiteral) (h : l.digits = []) :
    l.result = .error { kind := .missingNumber } := by
  rw [result, h]
  rfl

theorem result_of_lt (l : IntegerLiteral) (h : 0x7FFFFFFF < l.magnitude) :
    l.result = .error { kind := .numberTooBig } := by
  have hdigits : l.digits ≠ [] := by
    intro hnil
    rw [magnitude, hnil] at h
    contradiction
  rw [result, constantResult, if_neg (mt List.length_eq_zero_iff.mp hdigits), if_pos h]
  rfl

theorem exists_result_of_le (l : IntegerLiteral) (hdigits : l.digits ≠ [])
    (h : l.magnitude ≤ 0x7FFFFFFF) :
    ∃ n, l.result = .ok n ∧
      n.toInt = if isNegated l.signs then -(l.magnitude : Int) else l.magnitude := by
  rw [result, constantResult, if_neg (mt List.length_eq_zero_iff.mp hdigits), if_neg (by omega)]
  refine ⟨_, rfl, ?_⟩
  split
  · exact Int64.toInt_neg_ofNat_of_le (by omega)
  · exact Int64.toInt_ofNat_of_lt (by omega)

/-- The first token is a sign, a mark or a digit. -/
theorem exists_first (l : IntegerLiteral) : ∃ t ts, l.tokens = t :: ts ∧ t.isCommand = false := by
  obtain ⟨signs, radix, ds, ts, hsigns, hdigits, hnonempty⟩ := l
  cases signs with
  | cons s signs =>
    obtain ⟨b, hb⟩ := Option.isSome_iff_exists.mp (hsigns s List.mem_cons_self)
    exact ⟨s, _, rfl, not_isCommand_of_signFlip? hb⟩
  | nil =>
    cases radix with
    | octal => exact ⟨_, ts, rfl, rfl⟩
    | hexadecimal => exact ⟨_, ts, rfl, rfl⟩
    | decimal =>
      cases hdigits with
      | nil => exact absurd rfl (hnonempty rfl)
      | cons hd _ => exact ⟨_, _, rfl, hd.not_isCommand⟩

/-- An integer that is written in signs and digits is read as the number that it denotes, and
    refused if there are no digits or if it is too large.  In any case exactly its tokens are
    read, with a space behind them if there is one. -/
theorem scanInteger_exact (l : IntegerLiteral) (x : Expander) (hfuel : l.tokens.length < x.fuel)
    {m e e' : Machine} (hmark : ∀ t, m.marked = some t → t.isCommand = true)
    (hyields : m.Yields l.tokens e) (hstop : l.radix.Stops e e') :
    ∃ m', token? m' = token? e' ∧
      (l.digits = [] → x.scanInteger m = .error (.tex { kind := .missingNumber }) m') ∧
      (Count.max.toInt < l.magnitude →
        x.scanInteger m = .error (.tex { kind := .numberTooBig }) m') ∧
      (l.digits ≠ [] → l.magnitude ≤ Count.max.toInt →
        ∃ n, x.scanInteger m = .ok n m' ∧
          n.toInt = if isNegated l.signs then -(l.magnitude : Int) else l.magnitude) := by
  have hmax : Count.max.toInt = 0x7FFFFFFF := by decide
  have hx : 0 < x.fuel := by omega
  obtain ⟨rest, hrest, hends⟩ := exists_endsRadix hx hstop
  obtain ⟨t, ts, htokens, hcommand⟩ := l.exists_first
  -- The first token is not the marked one, so there might as well be no mark.
  have hne : m.marked ≠ some t := by
    intro hmarked
    rw [hmark t hmarked] at hcommand
    contradiction
  have hall := hyields.append hrest
  rw [htokens, List.cons_append] at hall
  have hready := hall.token?_ready hne
  have hupcoming := Machine.Upcoming.of_ne_marked hall hne
  rw [← List.cons_append, ← htokens] at hupcoming
  obtain ⟨m', hscan, hm'⟩ := l.concludes_scanInteger hfuel hends _ hupcoming
  rw [scanInteger_congr hx hready] at hscan
  rw [hscan, hmax]
  refine ⟨m', hm'.token?_eq, fun hnil => ?_, fun hlarge => ?_, fun hdigits hle => ?_⟩
  · rw [l.result_of_nil hnil]
    rfl
  · rw [l.result_of_lt (by omega)]
    rfl
  · obtain ⟨n, hn, hvalue⟩ := l.exists_result_of_le hdigits (by omega)
    exact ⟨n, by rw [hn]; rfl, hvalue⟩

/-- The number -"7FFFFFFF, with digits of both categories. -/
def largestNegative : IntegerLiteral where
  signs := [.space, .other 45, .other 43]
  radix := .hexadecimal
  digits := [7, 15, 15, 15, 15, 15, 15, 15]
  digitTokens := [.other 55, .letter 70, .other 70, .letter 70, .other 70, .letter 70, .other 70,
    .letter 70]
  isSign := by decide
  isDigit :=
    have hletter : Radix.hexadecimal.IsDigit 15 (.letter 70) :=
      .letter (.inl rfl) (by decide) (by decide)
    have hother : Radix.hexadecimal.IsDigit 15 (.other 70) :=
      .letter (.inr rfl) (by decide) (by decide)
    .cons (.figure (by decide) (by decide)) (.cons hletter (.cons hother (.cons hletter
      (.cons hother (.cons hletter (.cons hother (.cons hletter .nil)))))))
  nonempty := fun _ => List.cons_ne_nil _ _

/-- The letter behind the digits is put back. -/
theorem scanInteger_exact_largest :
    ∃ n m', (⟨50, fun _ _ => pure ()⟩ : Expander).scanInteger
        (Machine.feed { env := {} } (largestNegative.tokens ++ [.letter 71])) = .ok n m' ∧
      n.toInt = -2147483647 ∧ token? m' = token? (Machine.feed { env := {} } [.letter 71]) := by
  have hread : (Machine.feed { env := {} } (largestNegative.tokens ++ [.letter 71])).Yields
      largestNegative.tokens (Machine.feed { env := {} } [.letter 71]) :=
    Machine.Yields.of_feed { env := {} } largestNegative.tokens [.letter 71]
  have hdigit : ∀ d, ¬ Radix.hexadecimal.IsDigit d (.letter 71) := by
    intro d h
    have hnone : digit? (.letter 71) Radix.hexadecimal.word = none := by decide
    rw [h.digit?_eq] at hnone
    contradiction
  have hstop : largestNegative.radix.Stops (Machine.feed { env := {} } [.letter 71]) _ :=
    .some (token?_feed { env := {} } _ []) (unexpandable_of_not_isCommand _ rfl) rfl hdigit
  obtain ⟨m', hnext, -, -, hok⟩ := largestNegative.scanInteger_exact ⟨50, fun _ _ => pure ()⟩
    (by decide) (fun _ h => by contradiction) hread hstop
  obtain ⟨n, hscan, hn⟩ := hok (by decide) (by decide)
  exact ⟨n, m', hscan, hn.trans (by decide), hnext⟩

end IntegerLiteral

end TexEngine
