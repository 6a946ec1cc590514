/-
  TexEngine.Proofs.Arith.Decimal

  Decimal fractions of lengths.  A multiple of 1/65536 is written with as many
  digits as are needed for it to be the nearest one, and rounding the digits gives
  it back.

  `Writes ds s p` says how well the digits `ds` write the number `s`, which is ten
  times what is left of the fraction: from below, and within the tolerance `p`.
  Each round of `fractionDigits` reduces this statement about all digits to the one
  about the digits behind the first, and for the whole fraction it means that
  rounding succeeds (`Writes.round_eq`).
-/
import Mathlib.Tactic.Ring
import TexEngine.Arith.Dimen

namespace TexEngine

namespace Dimen

/-! ## Values of digits -/

/-- The number that a list of decimal digits denotes. -/
def decimalValue : List Nat → Nat
  | [] => 0
  | d :: ds => d * 10 ^ ds.length + decimalValue ds

/-- Twice the number of units in a decimal fraction, rounded down at each digit. -/
def doubledUnits : List Nat → Nat
  | [] => 0
  | d :: ds => (doubledUnits ds + d * 131072) / 10

/-- Rounding down at each digit is rounding down once. -/
theorem doubledUnits_eq (ds : List Nat) :
    doubledUnits ds = 131072 * decimalValue ds / 10 ^ ds.length := by
  induction ds with
  | nil => rfl
  | cons d ds ih =>
    have hpos : 0 < 10 ^ ds.length := Nat.pow_pos (by omega)
    have hvalue : 131072 * decimalValue (d :: ds) =
        131072 * decimalValue ds + d * 131072 * 10 ^ ds.length := by
      rw [decimalValue, Nat.mul_add, Nat.add_comm]
      congr 1
      rw [← Nat.mul_assoc, Nat.mul_comm 131072 d]
    rw [hvalue, List.length_cons, Nat.pow_succ, ← Nat.div_div_eq_div_mul,
      Nat.add_mul_div_right _ _ hpos, ← ih, doubledUnits]

/-- The digits `ds` write the number `s` from below, within the tolerance `p`.  All
    three are in units of the last place: `s` is ten times what is written. -/
structure Writes (ds : List Nat) (s p : Nat) : Prop where
  digits : ∀ d ∈ ds, d < 10
  below : 655360 * decimalValue ds < s * 10 ^ ds.length
  within : s * 10 ^ ds.length ≤ 10 * p * 10 ^ ds.length + 655360 * decimalValue ds

/-- Digits that write a fraction well enough round to it. -/
theorem Writes.round_eq {ds : List Nat} {f : Nat} (h : Writes ds (10 * f + 5) 1) :
    (doubledUnits ds + 1) / 2 = f := by
  have hpos : 0 < 10 ^ ds.length := Nat.pow_pos (by omega)
  obtain ⟨-, hbelow, hwithin⟩ := h
  -- The doubled fraction lies between 2f - 1 and 2f + 1.
  have hupper : doubledUnits ds < 2 * f + 1 := by
    rw [doubledUnits_eq, Nat.div_lt_iff_lt_mul hpos]
    have hexpand : (10 * f + 5) * 10 ^ ds.length = 5 * ((2 * f + 1) * 10 ^ ds.length) := by
      rw [← Nat.mul_assoc]
      congr 1
      omega
    omega
  have hlower : 2 * f ≤ doubledUnits ds + 1 := by
    rw [doubledUnits_eq, ← Nat.add_div_right _ hpos, Nat.le_div_iff_mul_le hpos]
    have hexpand : (10 * f + 5) * 10 ^ ds.length =
        5 * (2 * f * 10 ^ ds.length) + 5 * 10 ^ ds.length := by
      rw [Nat.add_mul, ← Nat.mul_assoc]
      congr 2
      omega
    omega
  omega

/-! ## Writing digits -/

/-- The digits that `fractionDigits` writes. -/
def fractionValues : Nat → Nat → Nat → List Nat
  | 0, _, _ => []
  | n + 1, s, delta =>
    let s := if delta > 65536 then s + 32768 - 50000 else s
    if 10 * (s % 65536) ≤ delta * 10 then [s / 65536]
    else s / 65536 :: fractionValues n (10 * (s % 65536)) (delta * 10)

theorem fractionValues_of_le {delta : Nat} (h : delta ≤ 65536) (n s : Nat) :
    fractionValues (n + 1) s delta =
      if 10 * (s % 65536) ≤ delta * 10 then [s / 65536]
      else s / 65536 :: fractionValues n (10 * (s % 65536)) (delta * 10) := by
  have hdelta : ¬ delta > 65536 := by omega
  simp only [fractionValues, if_neg hdelta]

/-- With the largest tolerance, there is only one more digit. -/
theorem fractionValues_of_ge {delta : Nat} (h : 65536 < delta) (n s : Nat) :
    fractionValues (n + 1) s delta = [(s + 32768 - 50000) / 65536] := by
  have hrest : 10 * ((s + 32768 - 50000) % 65536) ≤ delta * 10 := by omega
  simp only [fractionValues, if_pos h, if_pos hrest]

/-- A digit is the last one if the rest is within the tolerance. -/
theorem writes_single {s p : Nat} (hs : s < 655360) (hrest : 0 < s % 65536)
    (htol : s % 65536 ≤ 10 * p) : Writes [s / 65536] s p := by
  have hdiv := Nat.div_add_mod s 65536
  constructor
  · intro d hd
    rw [List.mem_singleton.mp hd]
    omega
  · simp only [decimalValue, List.length_singleton, List.length_nil]
    omega
  · simp only [decimalValue, List.length_singleton, List.length_nil]
    omega

/-- A digit in front of others that write ten times the rest. -/
theorem Writes.cons {ds : List Nat} {s p : Nat} (h : Writes ds (10 * (s % 65536)) (10 * p))
    (hs : s < 655360) : Writes (s / 65536 :: ds) s p := by
  obtain ⟨hdigits, hbelow, hwithin⟩ := h
  have hdiv := Nat.div_add_mod s 65536
  have hexpand : s * 10 ^ (ds.length + 1) =
      655360 * (s / 65536 * 10 ^ ds.length) + 10 * (s % 65536) * 10 ^ ds.length := by
    calc s * 10 ^ (ds.length + 1)
        = (65536 * (s / 65536) + s % 65536) * 10 ^ (ds.length + 1) := by rw [hdiv]
      _ = 655360 * (s / 65536 * 10 ^ ds.length) + 10 * (s % 65536) * 10 ^ ds.length := by ring
  constructor
  · intro d hd
    rcases List.mem_cons.mp hd with rfl | hd
    · omega
    · exact hdigits d hd
  · rw [decimalValue, List.length_cons, hexpand]
    omega
  · have htol : 10 * p * 10 ^ (ds.length + 1) = 10 * (10 * p) * 10 ^ ds.length := by ring
    rw [decimalValue, List.length_cons, hexpand, htol]
    omega

/-- The last possible digit is rounded to the nearest one. -/
theorem writes_last {s : Nat} (hs : s < 655360) (hs' : 17232 ≤ s) :
    Writes [(s + 32768 - 50000) / 65536] s 10000 := by
  have hdiv := Nat.div_add_mod (s + 32768 - 50000) 65536
  constructor
  · intro d hd
    rw [List.mem_singleton.mp hd]
    omega
  · simp only [decimalValue, List.length_singleton, List.length_nil]
    omega
  · simp only [decimalValue, List.length_singleton, List.length_nil]
    omega

/-- The number `s` is divisible by 2 exactly `k` times. -/
def TwoFactors (k s : Nat) : Prop :=
  s % 2 ^ (k + 1) = 2 ^ k

/-- A number with fewer than five factors 2 leaves a rest, and ten times the rest has
    one factor 2 more. -/
theorem TwoFactors.step {k s : Nat} (h : TwoFactors k s) (hk : k < 4) :
    0 < s % 65536 ∧ TwoFactors (k + 1) (10 * (s % 65536)) := by
  unfold TwoFactors at *
  -- With the power of two known, the statement is linear.
  obtain rfl | rfl | rfl | rfl : k = 0 ∨ k = 1 ∨ k = 2 ∨ k = 3 := by omega
  all_goals
    norm_num at *
    omega

/-- The digits behind the first `k` ones write what is left of the fraction. -/
theorem writes_fractionValues (n k s : Nat) (hn : n + 1 + k = 5) (hs : s < 655360)
    (htwo : TwoFactors k s) (hrest : k = 0 ∨ 10 ^ (k + 1) < s) :
    Writes (fractionValues (n + 1) s (10 ^ (k + 1))) s (10 ^ k) := by
  -- The rest is never zero: `s` has exactly `k` factors 2, so it is no multiple of 65536.
  induction n generalizing k s with
  | zero =>
    obtain rfl : k = 4 := by omega
    rw [fractionValues_of_ge (by decide)]
    exact writes_last hs (by omega)
  | succ n ih =>
    obtain ⟨hpos, htwo'⟩ := htwo.step (by omega)
    have hdelta : 10 ^ (k + 1) ≤ 10 ^ 4 := Nat.pow_le_pow_right (by omega) (by omega)
    have hpow : 10 ^ (k + 1) = 10 * 10 ^ k := by ring
    rw [fractionValues_of_le (by omega)]
    by_cases hstop : 10 * (s % 65536) ≤ 10 ^ (k + 1) * 10
    · rw [if_pos hstop]
      exact writes_single hs hpos (by omega)
    · rw [if_neg hstop]
      have hmore := ih (k + 1) (10 * (s % 65536)) (by omega) (by omega) htwo' (.inr (by omega))
      rw [hpow] at hmore
      exact hmore.cons hs

/-- The digits of the fraction of a number of scaled points. -/
def fractionOf (a : Nat) : List Nat :=
  fractionValues 5 (10 * (a % 65536) + 5) 10

theorem writes_fractionOf (a : Nat) : Writes (fractionOf a) (10 * (a % 65536) + 5) 1 := by
  have htwo : TwoFactors 0 (10 * (a % 65536) + 5) := by
    show (10 * (a % 65536) + 5) % 2 = 1
    omega
  exact writes_fractionValues 4 0 _ rfl (by omega) htwo (.inl rfl)

theorem length_fractionValues (n s delta : Nat) : (fractionValues n s delta).length ≤ n := by
  induction n generalizing s delta with
  | zero => exact Nat.le_refl 0
  | succ n ih =>
    rw [fractionValues]
    generalize (if delta > 65536 then s + 32768 - 50000 else s) = s'
    split
    · simp
    · simpa using ih _ _

/-! ## Machine words -/

theorem unity_eq_ofNat : unity = Int64.ofNat 65536 := rfl

theorem toNat_toInt_ofNat {n : Nat} (hn : n < 2 ^ 63) : (Int64.ofNat n).toInt.toNat = n := by
  rw [Int64.toInt_ofNat_of_lt hn, Int.toNat_natCast]

/-- The character of a digit. -/
def digitChar (d : Nat) : Char :=
  Char.ofNat (48 + d)

/-- One digit, in words. -/
theorem fractionDigits_succ_ofNat (n s delta : Nat) (hs : s < 655360) (hdelta : delta < 10 ^ 12)
    (hlarge : 65536 < delta → 17232 ≤ s) :
    fractionDigits (n + 1) (Int64.ofNat s) (Int64.ofNat delta) =
      let s := if delta > 65536 then s + 32768 - 50000 else s
      if 10 * (s % 65536) ≤ delta * 10 then [digitChar (s / 65536)]
      else digitChar (s / 65536) ::
        fractionDigits n (Int64.ofNat (10 * (s % 65536))) (Int64.ofNat (delta * 10)) := by
  -- Nothing leaves the range, so the comparison and the adjustment are those of numbers.
  have hcond : Int64.ofNat delta > unity ↔ delta > 65536 := by
    rw [unity_eq_ofNat, gt_iff_lt, Int64.ofNat_lt_iff_lt (by omega) (by omega)]
  have hadjust : (if Int64.ofNat delta > unity then Int64.ofNat s + 0x8000 - 50000
      else Int64.ofNat s) = Int64.ofNat (if delta > 65536 then s + 32768 - 50000 else s) := by
    by_cases h : delta > 65536
    · rw [if_pos (hcond.mpr h), if_pos h, Int64.ofNat_sub _ _ (by omega), Int64.ofNat_add]
      rfl
    · rw [if_neg (mt hcond.mp h), if_neg h]
  have hrange : (if delta > 65536 then s + 32768 - 50000 else s) < 655360 := by
    split <;> omega
  rw [fractionDigits, hadjust]
  generalize (if delta > 65536 then s + 32768 - 50000 else s) = s' at hrange
  dsimp only
  -- What one round writes and leaves.
  have hdigit : Char.ofNat (48 + Int64.ofNat s' / unity).toInt.toNat = digitChar (s' / 65536) := by
    rw [unity_eq_ofNat, ← Int64.ofNat_div (by omega) (by omega)]
    show Char.ofNat (Int64.ofNat 48 + _).toInt.toNat = _
    rw [← Int64.ofNat_add, toNat_toInt_ofNat (by omega), digitChar]
  have hrest : 10 * (Int64.ofNat s' % unity) = Int64.ofNat (10 * (s' % 65536)) := by
    rw [unity_eq_ofNat, ← Int64.ofNat_mod (by omega) (by omega), Int64.ofNat_mul]
    rfl
  have htol : Int64.ofNat delta * 10 = Int64.ofNat (delta * 10) := by
    rw [Int64.ofNat_mul]
    rfl
  have hstop : 10 * (Int64.ofNat s' % unity) ≤ Int64.ofNat delta * 10 ↔
      10 * (s' % 65536) ≤ delta * 10 := by
    rw [hrest, htol, Int64.ofNat_le_iff_le (by omega) (by omega)]
  rw [hdigit]
  by_cases h : 10 * (s' % 65536) ≤ delta * 10
  · rw [if_pos (hstop.mpr h), if_pos h]
  · rw [if_neg (mt hstop.mp h), if_neg h, hrest, htol]

/-- The digits behind the first `k` ones, in words.  The loop ends by itself, so that more
    rounds than the five that are needed write nothing else. -/
theorem fractionDigits_ofNat (n k s more : Nat) (hn : n + 1 + k = 5) (hs : s < 655360)
    (hrest : k = 0 ∨ 10 ^ (k + 1) < s) :
    fractionDigits (n + 1 + more) (Int64.ofNat s) (Int64.ofNat (10 ^ (k + 1))) =
      (fractionValues (n + 1) s (10 ^ (k + 1))).map digitChar := by
  have hdelta : 10 ^ (k + 1) ≤ 10 ^ 5 := Nat.pow_le_pow_right (by omega) (by omega)
  induction n generalizing k s with
  | zero =>
    obtain rfl : k = 4 := by omega
    have hlarge : 65536 < 10 ^ (4 + 1) := by decide
    rw [Nat.zero_add, Nat.add_comm, fractionDigits_succ_ofNat more s _ hs (by omega) (by omega),
      fractionValues_of_ge hlarge]
    dsimp only
    rw [if_pos hlarge, if_pos (by omega)]
    rfl
  | succ n ih =>
    have hsmall : 10 ^ (k + 1) ≤ 10 ^ 4 := Nat.pow_le_pow_right (by omega) (by omega)
    have hearly : ¬ 10 ^ (k + 1) > 65536 := by omega
    have hdigit :=
      fractionDigits_succ_ofNat (n + 1 + more) s (10 ^ (k + 1)) hs (by omega) (by omega)
    simp only [if_neg hearly] at hdigit
    rw [Nat.add_right_comm, fractionValues_of_le (by omega), hdigit]
    by_cases hstop : 10 * (s % 65536) ≤ 10 ^ (k + 1) * 10
    · rw [if_pos hstop, if_pos hstop]
      rfl
    · have hpow : 10 ^ (k + 1) * 10 = 10 ^ (k + 1 + 1) := (Nat.pow_succ 10 (k + 1)).symm
      rw [if_neg hstop, if_neg hstop, hpow,
        ih (k + 1) (10 * (s % 65536)) (by omega) (by omega) (.inr (by omega)) (by omega)]
      rfl

/-- The digits of the fraction of a number of scaled points, in words. -/
theorem fractionDigits_fractionOf {a : Nat} (ha : a < 2 ^ 63) (more : Nat) :
    fractionDigits (5 + more) (10 * (Int64.ofNat a % unity) + 5) 10 =
      (fractionOf a).map digitChar := by
  have hstart : 10 * (Int64.ofNat a % unity) + 5 = Int64.ofNat (10 * (a % 65536) + 5) := by
    rw [unity_eq_ofNat, ← Int64.ofNat_mod ha (by omega), Int64.ofNat_add, Int64.ofNat_mul]
    rfl
  rw [hstart]
  exact fractionDigits_ofNat 4 0 _ more rfl (by omega) (.inl rfl)

/-- Rounding, in words. -/
theorem roundDecimals_ofNat {ds : List Nat} (hds : ∀ d ∈ ds, d < 10) (hlength : ds.length ≤ 17) :
    roundDecimals (ds.map Int64.ofNat) = Int64.ofNat ((doubledUnits ds + 1) / 2) := by
  have hfold : (ds.map Int64.ofNat).foldr (fun d a => (a + d * (2 * unity)) / 10) 0 =
      Int64.ofNat (doubledUnits ds) ∧ doubledUnits ds ≤ 131072 := by
    clear hlength
    induction ds with
    | nil => exact ⟨rfl, by decide⟩
    | cons d ds ih =>
      rw [List.forall_mem_cons] at hds
      obtain ⟨hrest, hle⟩ := ih hds.2
      have hcons : doubledUnits (d :: ds) = (doubledUnits ds + d * 131072) / 10 := by
        rw [doubledUnits]
      have hd := hds.1
      refine ⟨?_, by omega⟩
      rw [List.map_cons, List.foldr_cons, hrest, hcons, Int64.ofNat_div (by omega) (by omega),
        Int64.ofNat_add, Int64.ofNat_mul]
      rfl
  have htake : (ds.map Int64.ofNat).take 17 = ds.map Int64.ofNat :=
    List.take_of_length_le (by simpa using hlength)
  rw [roundDecimals, htake, hfold.1, Int64.ofNat_div (by omega) (by omega), Int64.ofNat_add]
  rfl

end Dimen

/-! ## Texts -/

/-- The sign in front of a number. -/
def signChars (isNegative : Bool) : List Char :=
  if isNegative then ['-'] else []

theorem Count.toList_text (v : Int64) :
    (Count.text v).toList = signChars (v < 0) ++ Nat.toDigits 10 v.toInt.natAbs := by
  have hneg : v < 0 ↔ v.toInt < 0 := by
    rw [Int64.lt_iff_toInt_lt]
    rfl
  unfold Count.text
  cases hv : v.toInt with
  | ofNat n =>
    have hsign : ¬ v < 0 := by rw [hneg, hv]; simp
    simp only [hsign, decide_false, signChars]
    exact Nat.toList_repr
  | negSucc n =>
    have hsign : v < 0 := by rw [hneg, hv]; exact Int.negSucc_lt_zero n
    simp only [hsign, decide_true, signChars]
    show ("-" ++ Nat.repr (n + 1)).toList = _
    rw [String.toList_append, Nat.toList_repr]
    rfl

/-- A word is its absolute value with its sign. -/
theorem eq_ofNat_natAbs (v : Int64) :
    v = if v < 0 then -Int64.ofNat v.toInt.natAbs else Int64.ofNat v.toInt.natAbs := by
  have hneg : v < 0 ↔ v.toInt < 0 := by
    rw [Int64.lt_iff_toInt_lt]
    rfl
  have hv : v = Int64.ofInt v.toInt := (Int64.ofInt_toInt v).symm
  by_cases h : v < 0
  · rw [if_pos h, Int64.neg_ofNat, Int.ofNat_natAbs_of_nonpos (Int.le_of_lt (hneg.mp h)),
      Int.neg_neg]
    exact hv
  · rw [if_neg h, ← Int64.ofInt_eq_ofNat, Int.natAbs_of_nonneg (Int.not_lt.mp (mt hneg.mpr h))]
    exact hv

theorem abs_eq_ofNat (v : Int64) :
    (if v < 0 then -v else v) = Int64.ofNat v.toInt.natAbs := by
  have hv := eq_ofNat_natAbs v
  by_cases h : v < 0
  · rw [if_pos h] at hv ⊢
    rw [hv, Int64.neg_neg, ← hv]
  · rw [if_neg h] at hv ⊢
    exact hv

namespace Dimen

/-- The digits of a fraction round to it. -/
theorem roundDecimals_fractionOf (a : Nat) :
    roundDecimals ((fractionOf a).map Int64.ofNat) = Int64.ofNat (a % 65536) := by
  have hwrites := writes_fractionOf a
  have hlength := length_fractionValues 5 (10 * (a % 65536) + 5) 10
  rw [roundDecimals_ofNat hwrites.digits (Nat.le_trans hlength (by omega)), hwrites.round_eq]

/-- A length is written with its sign, its integer part, and its fraction. -/
theorem toList_formatScaled {d : Dimen} (hd : d.toInt.natAbs < 2 ^ 63) :
    (formatScaled d).toList = signChars (d < 0) ++ (Nat.toDigits 10 (d.toInt.natAbs / 65536) ++
      '.' :: (fractionOf d.toInt.natAbs).map digitChar) := by
  have hwhole : Int64.ofNat d.toInt.natAbs / unity = Int64.ofNat (d.toInt.natAbs / 65536) := by
    rw [unity_eq_ofNat, Int64.ofNat_div (by omega) (by omega)]
  have hdigits := fractionDigits_fractionOf hd 0
  have htext : (Count.text (Int64.ofNat d.toInt.natAbs / unity)).toList =
      Nat.toDigits 10 (d.toInt.natAbs / 65536) := by
    have hint := Int64.toInt_ofNat_of_lt (n := d.toInt.natAbs / 65536) (by omega)
    have hsign : ¬ Int64.ofNat (d.toInt.natAbs / 65536) < 0 := by
      rw [Int64.lt_iff_toInt_lt, hint]
      exact Int.not_lt.mpr (Int.natCast_nonneg _)
    rw [hwhole, Count.toList_text, hint, Int.natAbs_natCast]
    simp [signChars, hsign]
  have hprefix : (if d < 0 then "-" else "").toList = signChars (d < 0) := by
    by_cases h : d < 0
    · simp [h, signChars]
    · simp [h, signChars]
  unfold formatScaled
  simp only [abs_eq_ofNat, String.toList_append, String.toList_ofList, hprefix, hdigits, htext,
    List.append_assoc]
  rfl

end Dimen

end TexEngine
