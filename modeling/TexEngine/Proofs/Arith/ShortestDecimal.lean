/-
  TexEngine.Proofs.Arith.ShortestDecimal

  A multiple of 1/65536 is printed with the fewest decimals that round to it.

  That the decimals round to it is the business of `Writes`.  Here it is shown that `Writes`
  is also necessary (`writes_of_round_eq`), and that a list of digits that writes a number
  well enough cannot be shorter than the printed one: as long as the loop goes on, what is
  left exceeds the tolerance, and then the first digit is determined (`Writes.tail`).
-/
import TexEngine.Proofs.Arith.Rounding

namespace TexEngine

namespace Dimen

/-! ## Digits that round to a number -/

/-- Digits that round to a fraction write it well enough. -/
theorem writes_of_round_eq {ds : List Nat} {f : Nat} (hds : ∀ d ∈ ds, d < 10)
    (h : (doubledUnits ds + 1) / 2 = f) : Writes ds (10 * f + 5) 1 := by
  have hpos : 0 < 10 ^ ds.length := Nat.pow_pos (by omega)
  have hunits := doubledUnits_eq ds
  have hexpand : (10 * f + 5) * 10 ^ ds.length =
      5 * (2 * f * 10 ^ ds.length) + 5 * 10 ^ ds.length := by ring
  -- The doubled fraction lies between 2f - 1 and 2f + 1.
  have hupper : 131072 * decimalValue ds < (2 * f + 1) * 10 ^ ds.length := by
    rw [← Nat.div_lt_iff_lt_mul hpos, ← hunits]
    omega
  have hlower : 2 * f * 10 ^ ds.length ≤ 131072 * decimalValue ds + 10 ^ ds.length := by
    rw [← Nat.le_div_iff_mul_le hpos, Nat.add_div_right _ hpos, ← hunits]
    omega
  rw [Nat.add_mul, Nat.one_mul] at hupper
  exact ⟨hds, by omega, by omega⟩

/-- Where the rest behind the first digit exceeds the tolerance, the first digit is
    determined, and there are more digits, which write the rest. -/
theorem Writes.tail {d s p : Nat} {ds : List Nat} (h : Writes (d :: ds) s p)
    (hrest : 10 * p < s % 65536) :
    d = s / 65536 ∧ ds ≠ [] ∧ Writes ds (10 * (s % 65536)) (10 * p) := by
  obtain ⟨hdigits, hbelow, hwithin⟩ := h
  rw [List.forall_mem_cons] at hdigits
  have hvalue := decimalValue_lt hdigits.2
  have hexpand : s * 10 ^ (ds.length + 1) =
      655360 * (s / 65536 * 10 ^ ds.length) + 10 * (s % 65536 * 10 ^ ds.length) := by
    calc s * 10 ^ (ds.length + 1)
        = (65536 * (s / 65536) + s % 65536) * 10 ^ (ds.length + 1) := by rw [Nat.div_add_mod]
      _ = 655360 * (s / 65536 * 10 ^ ds.length) + 10 * (s % 65536 * 10 ^ ds.length) := by ring
  have htol : 10 * p * 10 ^ (ds.length + 1) = 10 * (10 * p * 10 ^ ds.length) := by ring
  rw [decimalValue, List.length_cons, hexpand] at hbelow hwithin
  rw [htol] at hwithin
  have hupper : s % 65536 * 10 ^ ds.length ≤ 65535 * 10 ^ ds.length :=
    Nat.mul_le_mul_right _ (by omega)
  have hlower : (10 * p + 1) * 10 ^ ds.length ≤ s % 65536 * 10 ^ ds.length :=
    Nat.mul_le_mul_right _ hrest
  rw [Nat.add_mul, Nat.one_mul] at hlower
  -- Another first digit would miss the number by more than the other digits can make up for.
  have hdigit : d = s / 65536 := by
    apply Nat.le_antisymm
    · by_contra hgreater
      have hmul : (s / 65536 + 1) * 10 ^ ds.length ≤ d * 10 ^ ds.length :=
        Nat.mul_le_mul_right _ (by omega)
      rw [Nat.add_mul, Nat.one_mul] at hmul
      omega
    · by_contra hless
      have hmul : (d + 1) * 10 ^ ds.length ≤ s / 65536 * 10 ^ ds.length :=
        Nat.mul_le_mul_right _ (by omega)
      rw [Nat.add_mul, Nat.one_mul] at hmul
      omega
  rw [hdigit] at hbelow hwithin
  have hscale : 10 * (10 * p) * 10 ^ ds.length = 10 * (10 * p * 10 ^ ds.length) := Nat.mul_assoc ..
  have hrestScale : 10 * (s % 65536) * 10 ^ ds.length = 10 * (s % 65536 * 10 ^ ds.length) :=
    Nat.mul_assoc ..
  refine ⟨hdigit, ?_, hdigits.2, by omega, by omega⟩
  rintro rfl
  simp only [decimalValue, List.length_nil, Nat.pow_zero] at hwithin
  omega

/-! ## Printed digits -/

/-- No digits that write a number well enough are fewer than the ones that are printed. -/
theorem length_fractionValues_le {es : List Nat} (n k s : Nat) (hn : n + 1 + k = 5)
    (h : Writes es s (10 ^ k)) (hne : es ≠ []) :
    (fractionValues (n + 1) s (10 ^ (k + 1))).length ≤ es.length := by
  have hlength : 1 ≤ es.length := List.length_pos_of_ne_nil hne
  -- By induction on the rounds that are left.  A round that goes on takes the first digit of
  -- `es` as well, and the tolerance for the others is the one of the next round.
  induction n generalizing k s es with
  | zero =>
    obtain rfl : k = 4 := by omega
    rw [fractionValues_of_ge (by decide)]
    exact hlength
  | succ n ih =>
    have hdelta : 10 ^ (k + 1) ≤ 10 ^ 4 := Nat.pow_le_pow_right (by omega) (by omega)
    have hpow : 10 ^ (k + 1) = 10 * 10 ^ k := by ring
    rw [fractionValues_of_le (by omega)]
    by_cases hstop : 10 * (s % 65536) ≤ 10 ^ (k + 1) * 10
    · rw [if_pos hstop]
      exact hlength
    · obtain ⟨d, ds, rfl⟩ := List.exists_cons_of_ne_nil hne
      obtain ⟨-, hds, hwrites⟩ := h.tail (by omega)
      rw [← hpow] at hwrites
      have hrest := ih (k + 1) (10 * (s % 65536)) (by omega) hwrites hds
        (List.length_pos_of_ne_nil hds)
      rw [if_neg hstop, List.length_cons, List.length_cons]
      exact Nat.succ_le_succ hrest

theorem length_fractionOf_pos (a : Nat) : 1 ≤ (fractionOf a).length := by
  unfold fractionOf
  rw [fractionValues_of_le (by decide)]
  split
  · exact Nat.le_refl 1
  · exact Nat.le_add_left 1 _

/-- A number of scaled points is printed with its sign, its integer part, and the fewest
    digits that round to its fraction: no shorter list of digits but the empty one does.  The
    loop that writes them ends by itself, after at most five rounds. -/
theorem formatScaled_shortest (s : Int64) (hs : s ≠ Int64.minValue) :
    ∃ ds : List (Fin 10),
      (formatScaled s).toList = signChars (s < 0) ++ (Nat.toDigits 10 (s.toInt.natAbs / 65536) ++
        '.' :: (digitValues ds).map digitChar) ∧
      (1 ≤ ds.length ∧ ds.length ≤ 5) ∧
      roundDecimals (digitWords ds) = Int64.ofNat (s.toInt.natAbs % 65536) ∧
      (∀ es : List (Fin 10), es ≠ [] →
        roundDecimals (digitWords es) = Int64.ofNat (s.toInt.natAbs % 65536) →
        ds.length ≤ es.length) ∧
      ∀ rounds, 5 ≤ rounds →
        fractionDigits rounds (10 * ((if s < 0 then -s else s) % unity) + 5) 10 =
          (digitValues ds).map digitChar := by
  have hsize : s.toInt.natAbs < 2 ^ 63 := by
    have hlow := Int64.le_toInt s
    have hhigh := Int64.toInt_lt s
    have hmin : s.toInt ≠ -2 ^ 63 := fun h => hs (Int64.toInt_inj.mp h)
    omega
  obtain ⟨ds, hds⟩ := exists_digitValues_eq (writes_fractionOf s.toInt.natAbs).digits
  have hlength : ds.length = (fractionOf s.toInt.natAbs).length := by
    rw [← hds, length_digitValues]
  refine ⟨ds, ?_, ⟨?_, ?_⟩, ?_, ?_, ?_⟩
  · rw [hds, toList_formatScaled hsize]
  · rw [hlength]
    exact length_fractionOf_pos _
  · rw [hlength]
    exact length_fractionValues ..
  · rw [digitWords, hds, roundDecimals_fractionOf]
  · -- Digits that round to the fraction write it well enough, and no such digits are fewer.
    intro es hne hround
    have hle := doubledUnits_le es
    have hvalue := congrArg Int64.toInt hround
    rw [roundDecimals_digitWords, Int64.toInt_ofNat_of_lt (by omega),
      Int64.toInt_ofNat_of_lt (by omega)] at hvalue
    have hwrites := writes_of_round_eq (digitValues_lt es) (Int.ofNat_inj.mp hvalue)
    have hmin := length_fractionValues_le 4 0 _ rfl hwrites
      (List.ne_nil_of_length_pos (by rw [length_digitValues]; exact List.length_pos_of_ne_nil hne))
    rw [hlength]
    rwa [length_digitValues] at hmin
  · intro rounds hrounds
    obtain ⟨more, rfl⟩ := Nat.exists_eq_add_of_le hrounds
    rw [abs_eq_ofNat, hds]
    exact fractionDigits_fractionOf hsize more

/-- The smallest fraction takes five decimals. -/
theorem formatScaled_shortest_five :
    (-65537 : Int64) ≠ Int64.minValue ∧
      (formatScaled (-65537)).toList = ['-', '1', '.', '0', '0', '0', '0', '2'] ∧
      ∀ es : List (Fin 10), es ≠ [] → roundDecimals (digitWords es) = 1 → 5 ≤ es.length := by
  have hs : (-65537 : Int64) ≠ Int64.minValue := by decide
  obtain ⟨ds, htext, -, -, hmin, hloop⟩ := formatScaled_shortest (-65537) hs
  have hdigits : (digitValues ds).map digitChar = ['0', '0', '0', '0', '2'] := by
    rw [← hloop 5 (Nat.le_refl 5)]
    decide
  have hlength : ds.length = 5 := by
    simpa using congrArg List.length hdigits
  refine ⟨hs, ?_, fun es hne hround => ?_⟩
  · rw [htext, hdigits]
    decide
  · rw [← hlength]
    exact hmin es hne hround

end Dimen

end TexEngine
