/-
  TexEngine.Proofs.Arith.Rounding

  Decimal fractions with any number of digits are rounded to the nearest multiple of
  1/65536, and exactly between two of them to the larger one.

  Only the first 17 digits are looked at.  Nothing is lost: the fraction is rounded down to
  a multiple of 1/131072 first, and such a multiple has 17 decimals, so the digits behind
  the 17th cannot reach the next one (`doubledUnits_take`).
-/
import Mathlib.Data.Rat.Floor
import TexEngine.Proofs.Arith.Decimal
import TexEngine.Proofs.Arith.Range

namespace TexEngine

namespace Dimen

/-! ## Digits that are dropped -/

theorem decimalValue_append (ds es : List Nat) :
    decimalValue (ds ++ es) = decimalValue ds * 10 ^ es.length + decimalValue es := by
  induction ds with
  | nil => simp [decimalValue]
  | cons d ds ih =>
    rw [List.cons_append, decimalValue, decimalValue, ih, List.length_append, Nat.pow_add]
    ring

theorem decimalValue_lt {ds : List Nat} (hds : ∀ d ∈ ds, d < 10) :
    decimalValue ds < 10 ^ ds.length := by
  induction ds with
  | nil => decide
  | cons d ds ih =>
    rw [List.forall_mem_cons] at hds
    have hrest := ih hds.2
    have hle : d * 10 ^ ds.length ≤ 9 * 10 ^ ds.length := Nat.mul_le_mul_right _ (by omega)
    rw [decimalValue, List.length_cons, Nat.pow_succ]
    omega

/-- The digits behind the 17th do not change the number of units. -/
theorem doubledUnits_append {ds es : List Nat} (hlength : ds.length = 17)
    (hes : ∀ e ∈ es, e < 10) : doubledUnits (ds ++ es) = doubledUnits ds := by
  have hpos : 0 < 10 ^ es.length := Nat.pow_pos (by omega)
  have hlt := decimalValue_lt hes
  -- What is dropped is less than one unit of the 17th place.
  have hdropped : 131072 * decimalValue es / 10 ^ es.length < 131072 := by
    rw [Nat.div_lt_iff_lt_mul hpos]
    omega
  have hsplit : 131072 * decimalValue (ds ++ es) =
      131072 * decimalValue es + 131072 * decimalValue ds * 10 ^ es.length := by
    rw [decimalValue_append]
    ring
  have hpow : 10 ^ (ds ++ es).length = 10 ^ es.length * 10 ^ 17 := by
    rw [List.length_append, hlength, Nat.pow_add, Nat.mul_comm]
  rw [doubledUnits_eq, doubledUnits_eq, hlength, hsplit, hpow, ← Nat.div_div_eq_div_mul,
    Nat.add_mul_div_right _ _ hpos]
  generalize 131072 * decimalValue es / 10 ^ es.length = dropped at hdropped
  omega

theorem doubledUnits_take {ds : List Nat} (hds : ∀ d ∈ ds, d < 10) :
    doubledUnits (ds.take 17) = doubledUnits ds := by
  rcases Nat.le_total ds.length 17 with hshort | hlong
  · rw [List.take_of_length_le hshort]
  · have hdrop : ∀ d ∈ ds.drop 17, d < 10 := fun d hd => hds d (List.mem_of_mem_drop hd)
    have hlength : (ds.take 17).length = 17 := by rw [List.length_take]; omega
    have happend := doubledUnits_append hlength hdrop
    rw [List.take_append_drop] at happend
    exact happend.symm

/-! ## Rounding -/

/-- The values of decimal digits. -/
def digitValues (ds : List (Fin 10)) : List Nat :=
  ds.map fun d => d.val

/-- Decimal digits as words. -/
def digitWords (ds : List (Fin 10)) : List Int64 :=
  (digitValues ds).map Int64.ofNat

@[simp] theorem length_digitValues (ds : List (Fin 10)) : (digitValues ds).length = ds.length :=
  List.length_map _

theorem exists_digitValues_eq {ns : List Nat} (h : ∀ n ∈ ns, n < 10) :
    ∃ ds, digitValues ds = ns := by
  refine ⟨ns.pmap Fin.mk h, ?_⟩
  rw [digitValues, List.map_pmap, List.pmap_eq_self]
  exact fun _ _ => rfl

theorem digitValues_lt (ds : List (Fin 10)) : ∀ d ∈ digitValues ds, d < 10 := by
  intro d hd
  obtain ⟨e, -, rfl⟩ := List.mem_map.mp hd
  exact e.isLt

/-- Rounding digits, however many there are. -/
theorem roundDecimals_digitWords (ds : List (Fin 10)) :
    roundDecimals (digitWords ds) = Int64.ofNat ((doubledUnits (digitValues ds) + 1) / 2) := by
  have htake : roundDecimals (digitWords ds) =
      roundDecimals (((digitValues ds).take 17).map Int64.ofNat) := by
    unfold roundDecimals digitWords
    rw [← List.map_take, ← List.map_take, List.take_take, Nat.min_self]
  have hlt : ∀ d ∈ (digitValues ds).take 17, d < 10 :=
    fun d hd => digitValues_lt ds d (List.mem_of_mem_take hd)
  have hlength : ((digitValues ds).take 17).length ≤ 17 := by
    rw [List.length_take]
    omega
  rw [htake, roundDecimals_ofNat hlt hlength, doubledUnits_take (digitValues_lt ds)]

theorem doubledUnits_le (ds : List (Fin 10)) : doubledUnits (digitValues ds) ≤ 131072 := by
  have hlt := decimalValue_lt (digitValues_lt ds)
  rw [doubledUnits_eq]
  exact Nat.div_le_of_le_mul (by rw [Nat.mul_comm]; exact Nat.mul_le_mul_right _ (by omega))

/-- The rational number with the given decimals: 0.d₁d₂d₃ and so on. -/
def decimalFraction : List (Fin 10) → ℚ
  | [] => 0
  | d :: ds => (d.val + decimalFraction ds) / 10

theorem decimalFraction_eq (ds : List (Fin 10)) :
    decimalFraction ds = (decimalValue (digitValues ds) : ℚ) / (10 ^ ds.length : ℕ) := by
  induction ds with
  | nil => simp [decimalFraction, digitValues, decimalValue]
  | cons d ds ih =>
    have hpow : ((10 ^ ds.length : ℕ) : ℚ) ≠ 0 := by positivity
    have hvalue : decimalValue (digitValues (d :: ds)) =
        d.val * 10 ^ ds.length + decimalValue (digitValues ds) := by
      show decimalValue (d.val :: digitValues ds) = _
      rw [decimalValue, length_digitValues]
    rw [decimalFraction, ih, hvalue, List.length_cons, Nat.pow_succ]
    push_cast
    field_simp

/-- Half of the doubled units, rounded up, is the nearest number of units. -/
theorem half_doubledUnits_eq_floor (ds : List (Fin 10)) :
    (((doubledUnits (digitValues ds) + 1) / 2 : ℕ) : ℤ) = ⌊65536 * decimalFraction ds + 1 / 2⌋ := by
  have hpos : 0 < 10 ^ ds.length := Nat.pow_pos (by omega)
  have hquotient : 65536 * decimalFraction ds + 1 / 2 =
      ((131072 * decimalValue (digitValues ds) + 10 ^ ds.length : ℕ) : ℚ) /
        (10 ^ ds.length * 2 : ℕ) := by
    rw [decimalFraction_eq]
    push_cast
    field_simp
    ring
  rw [hquotient, Rat.floor_natCast_div_natCast, doubledUnits_eq, length_digitValues,
    ← Nat.add_div_right _ hpos, Nat.div_div_eq_div_mul, Int.natCast_ediv]

/-- A decimal fraction is rounded to the nearest number of units, and up if it is exactly
    between two of them.  The result is at most one, and no step on the way wraps around. -/
theorem roundDecimals_eq_floor (ds : List (Fin 10)) :
    (roundDecimals (digitWords ds)).toInt = ⌊65536 * decimalFraction ds + 1 / 2⌋ ∧
      0 ≤ (roundDecimals (digitWords ds)).toInt ∧
      (roundDecimals (digitWords ds)).toInt ≤ 65536 ∧
      roundFits (digitWords ds) = true := by
  have hdigits : ∀ d ∈ digitWords ds, 0 ≤ d.toInt ∧ d.toInt ≤ 9 := by
    intro d hd
    obtain ⟨k, hk, rfl⟩ := List.mem_map.mp hd
    have hlt := digitValues_lt ds k hk
    rw [Int64.toInt_ofNat_of_lt (by omega)]
    omega
  obtain ⟨hfits, hlow, hhigh⟩ := roundDecimals_of_digits hdigits
  refine ⟨?_, hlow, hhigh, hfits⟩
  have hle := doubledUnits_le ds
  rw [roundDecimals_digitWords, Int64.toInt_ofNat_of_lt (by omega), half_doubledUnits_eq_floor]

end Dimen

end TexEngine
