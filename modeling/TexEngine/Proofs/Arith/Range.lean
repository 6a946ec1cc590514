/-
  TexEngine.Proofs.Arith.Range

  The ranges of numbers, lengths and glues, and what the arithmetic makes of values
  that are in range: no operation on words wraps around, and every result is in range
  again or refused.

  The bounds are those of the exact results, so each function is first rewritten to
  exact arithmetic, operation by operation.
-/
import Mathlib.Tactic.Ring
import TexEngine.Arith.Word

namespace TexEngine

/-! ## Single operations -/

namespace Word

theorem holds_iff {n : Int} : holds n = true ↔ -2 ^ 63 ≤ n ∧ n < 2 ^ 63 := by
  simp [holds]

theorem bmod_of_holds {n : Int} (h : holds n = true) : n.bmod (2 ^ 64) = n := by
  obtain ⟨hlow, hhigh⟩ := holds_iff.mp h
  exact Int.bmod_eq_of_le_mul_two (by omega) (by omega)

variable {a b : Int64}

theorem toInt_add (h : addFits a b = true) : (a + b).toInt = a.toInt + b.toInt := by
  rw [Int64.toInt_add, bmod_of_holds h]

theorem toInt_mul (h : mulFits a b = true) : (a * b).toInt = a.toInt * b.toInt := by
  rw [Int64.toInt_mul, bmod_of_holds h]

theorem toInt_neg (h : negFits a = true) : (-a).toInt = -a.toInt := by
  rw [Int64.toInt_neg, bmod_of_holds h]

theorem toInt_div (h : divFits a b = true) : (a / b).toInt = a.toInt.tdiv b.toInt := by
  rw [Int64.toInt_div, bmod_of_holds h]

theorem addFits_of_bounds (hlow : -2 ^ 63 ≤ a.toInt + b.toInt)
    (hhigh : a.toInt + b.toInt < 2 ^ 63) :
    addFits a b = true :=
  holds_iff.mpr ⟨hlow, hhigh⟩

theorem natAbs_mul_le {x y : Int} {m n : Nat} (hx : x.natAbs ≤ m) (hy : y.natAbs ≤ n) :
    (x * y).natAbs ≤ m * n := by
  rw [Int.natAbs_mul]
  exact Nat.mul_le_mul hx hy

theorem mulFits_of_natAbs_le {m n : Nat} (ha : a.toInt.natAbs ≤ m) (hb : b.toInt.natAbs ≤ n)
    (h : m * n < 2 ^ 63) : mulFits a b = true := by
  have hle := natAbs_mul_le ha hb
  exact holds_iff.mpr ⟨by omega, by omega⟩

theorem negFits_of_natAbs_lt (ha : a.toInt.natAbs < 2 ^ 63) : negFits a = true :=
  holds_iff.mpr ⟨by omega, by omega⟩

theorem natAbs_tdiv_le (x y : Int) : (x.tdiv y).natAbs ≤ x.natAbs := by
  rw [Int.natAbs_tdiv]
  exact Nat.div_le_self ..

theorem divFits_of_natAbs_lt (ha : a.toInt.natAbs < 2 ^ 63) : divFits a b = true := by
  have hle := natAbs_tdiv_le a.toInt b.toInt
  exact holds_iff.mpr ⟨by omega, by omega⟩

/-- Dividing does not make a number larger. -/
theorem natAbs_toInt_div_le (ha : a.toInt.natAbs < 2 ^ 63) :
    (a / b).toInt.natAbs ≤ a.toInt.natAbs := by
  rw [toInt_div (divFits_of_natAbs_lt ha)]
  exact natAbs_tdiv_le ..

/-- The quotient of numbers that are not negative. -/
theorem toInt_div_of_nonneg (ha : 0 ≤ a.toInt) : (a / b).toInt = a.toInt / b.toInt := by
  have hlt : a.toInt < 2 ^ 63 := Int64.toInt_lt a
  rw [toInt_div (divFits_of_natAbs_lt (by omega)), Int.tdiv_eq_ediv_of_nonneg ha]

/-- The remainder of a number that is not negative. -/
theorem toInt_mod_of_nonneg (ha : 0 ≤ a.toInt) : (a % b).toInt = a.toInt % b.toInt := by
  rw [Int64.toInt_mod, Int.tmod_eq_emod_of_nonneg ha]

end Word

open Word

/-! ## Integers -/

namespace Count

variable {a b r : Int64}

theorem inRange_iff {n : Int64} : InRange n ↔ n.toInt.natAbs ≤ 0x7FFFFFFF := by
  have hmax : Count.max.toInt = 0x7FFFFFFF := by decide
  have hmin : (-Count.max).toInt = -0x7FFFFFFF := by decide
  unfold InRange
  rw [Int64.le_iff_toInt_le, Int64.le_iff_toInt_le]
  omega

theorem inRange_of_checked (h : checked a = .ok r) : InRange r := by
  unfold checked at h
  split at h
  · injection h with h
    rwa [← h]
  · contradiction

theorem addFits_of_inRange (ha : InRange a) (hb : InRange b) : addFits a b = true := by
  rw [inRange_iff] at ha hb
  exact addFits_of_bounds (by omega) (by omega)

theorem negFits_of_inRange (ha : InRange a) : negFits a = true := by
  rw [inRange_iff] at ha
  exact negFits_of_natAbs_lt (by omega)

theorem inRange_neg (ha : InRange a) : InRange (-a) := by
  have hneg := toInt_neg (negFits_of_inRange ha)
  rw [inRange_iff] at ha ⊢
  omega

theorem divFits_of_inRange (ha : InRange a) : divFits a b = true := by
  rw [inRange_iff] at ha
  exact divFits_of_natAbs_lt (by omega)

theorem multiplyFits_of_inRange (ha : InRange a) (hb : InRange b) : multiplyFits a b = true := by
  rw [inRange_iff] at ha hb
  have hmul : mulFits a b = true := mulFits_of_natAbs_le ha hb (by decide)
  have hle := natAbs_mul_le ha hb
  have hdiv : divFits (a * b) a = true := by
    apply divFits_of_natAbs_lt
    rw [toInt_mul hmul]
    omega
  rw [multiplyFits, hmul, hdiv, Bool.or_true, Bool.and_self]

theorem inRange_of_multiply (h : multiply a b = .ok r) : InRange r := by
  unfold multiply at h
  dsimp only at h
  split at h
  · contradiction
  · exact inRange_of_checked h

theorem inRange_of_divide (ha : InRange a) (h : divide a b = .ok r) : InRange r := by
  unfold divide at h
  split at h
  · contradiction
  · injection h with h
    rw [inRange_iff] at ha ⊢
    have hle := natAbs_toInt_div_le (b := b) (show a.toInt.natAbs < 2 ^ 63 by omega)
    rw [← h]
    omega

end Count

/-! ## Lengths -/

namespace Dimen

variable {d e r : Dimen}

theorem inRange_iff {d : Dimen} : InRange d ↔ d.toInt.natAbs ≤ 0x3FFFFFFF := by
  have hmax : Dimen.max.toInt = 0x3FFFFFFF := by decide
  have hmin : (-Dimen.max).toInt = -0x3FFFFFFF := by decide
  unfold InRange
  rw [Int64.le_iff_toInt_le, Int64.le_iff_toInt_le]
  omega

/-- A length is in range as a number. -/
theorem count_inRange (hd : InRange d) : Count.InRange d := by
  rw [inRange_iff] at hd
  rw [Count.inRange_iff]
  omega

theorem inRange_of_checked (h : checked d = .ok r) : InRange r := by
  unfold checked at h
  split at h
  · injection h with h
    rwa [← h]
  · contradiction

theorem inRange_of_check (h : check d = .ok ()) : InRange d := by
  unfold check at h
  split at h
  · assumption
  · contradiction

theorem negFits_of_inRange (hd : InRange d) : negFits d = true :=
  Count.negFits_of_inRange (count_inRange hd)

theorem addFits_of_inRange (hd : InRange d) (he : InRange e) : addFits d e = true :=
  Count.addFits_of_inRange (count_inRange hd) (count_inRange he)

theorem divFits_of_inRange (hd : InRange d) {n : Int64} : divFits d n = true :=
  Count.divFits_of_inRange (count_inRange hd)

theorem inRange_neg (hd : InRange d) : InRange (-d) := by
  have hneg := toInt_neg (negFits_of_inRange hd)
  rw [inRange_iff] at hd ⊢
  omega

theorem multiplyFits_of_inRange (hd : InRange d) {n : Int64} (hn : Count.InRange n) :
    multiplyFits d n = true := by
  rw [inRange_iff] at hd
  rw [Count.inRange_iff] at hn
  have hmul : mulFits d n = true := mulFits_of_natAbs_le hd hn (by decide)
  have hle := natAbs_mul_le hd hn
  have hdiv : divFits (d * n) n = true := by
    apply divFits_of_natAbs_lt
    rw [toInt_mul hmul]
    omega
  rw [multiplyFits, hmul, hdiv, Bool.or_true, Bool.and_self]

theorem inRange_of_multiply {n : Int64} (h : multiply d n = .ok r) : InRange r := by
  unfold multiply at h
  dsimp only at h
  split at h
  · contradiction
  · exact inRange_of_checked h

theorem inRange_of_divide (hd : InRange d) {n : Int64} (h : divide d n = .ok r) : InRange r := by
  unfold divide at h
  split at h
  · contradiction
  · injection h with h
    rw [inRange_iff] at hd ⊢
    have hle := natAbs_toInt_div_le (b := n) (show d.toInt.natAbs < 2 ^ 63 by omega)
    rw [← h]
    omega

/-! ### Decimal fractions -/

theorem toInt_unity : unity.toInt = 65536 := by decide

/-- The doubled value of decimal digits is at most that of one. -/
theorem roundStepsFit_of_digits {ds : List Int64}
    (hds : ∀ d ∈ ds, 0 ≤ d.toInt ∧ d.toInt ≤ 9) :
    roundStepsFit ds = true ∧
      0 ≤ (ds.foldr (fun d a => (a + d * (2 * unity)) / 10) 0).toInt ∧
      (ds.foldr (fun d a => (a + d * (2 * unity)) / 10) 0).toInt ≤ 131072 := by
  have htwo : (2 * unity).toInt = 131072 := by decide
  have hten : (10 : Int64).toInt = 10 := by decide
  induction ds with
  | nil => decide
  | cons d ds ih =>
    rw [List.forall_mem_cons] at hds
    obtain ⟨hfits, hlow, hhigh⟩ := ih hds.2
    rw [List.foldr_cons]
    rw [roundStepsFit, hfits, Bool.true_and]
    -- What was rounded so far is at most two units, so one more digit stays far below the limit.
    generalize ds.foldr (fun d a => (a + d * (2 * unity)) / 10) 0 = a at hlow hhigh ⊢
    have hmul : mulFits d (2 * unity) = true :=
      mulFits_of_natAbs_le (m := 9) (n := 131072) (by omega) (by omega) (by decide)
    have hprod := toInt_mul hmul
    rw [htwo] at hprod
    have hadd : addFits a (d * (2 * unity)) = true :=
      addFits_of_bounds (by omega) (by omega)
    have hsum := toInt_add hadd
    have hquot : ((a + d * (2 * unity)) / 10).toInt = (a + d * (2 * unity)).toInt / 10 := by
      rw [toInt_div_of_nonneg (by omega), hten]
    have hdiv : divFits (a + d * (2 * unity)) 10 = true := divFits_of_natAbs_lt (by omega)
    have hunity : mulFits 2 unity = true := by decide
    refine ⟨?_, by omega, by omega⟩
    rw [roundStepFits, hunity, hmul, hadd, hdiv]
    rfl

/-- A decimal fraction is rounded to at most one. -/
theorem roundDecimals_of_digits {ds : List Int64} (hds : ∀ d ∈ ds, 0 ≤ d.toInt ∧ d.toInt ≤ 9) :
    roundFits ds = true ∧ 0 ≤ (roundDecimals ds).toInt ∧ (roundDecimals ds).toInt ≤ 65536 := by
  have hone : (1 : Int64).toInt = 1 := by decide
  have htwo : (2 : Int64).toInt = 2 := by decide
  have htake : ∀ d ∈ ds.take 17, 0 ≤ d.toInt ∧ d.toInt ≤ 9 :=
    fun d hd => hds d (List.mem_of_mem_take hd)
  obtain ⟨hfits, hlow, hhigh⟩ := roundStepsFit_of_digits htake
  unfold roundFits roundDecimals
  dsimp only
  rw [hfits, Bool.true_and]
  generalize (ds.take 17).foldr (fun d a => (a + d * (2 * unity)) / 10) 0 = a at hlow hhigh ⊢
  have hadd : addFits a 1 = true := addFits_of_bounds (by omega) (by omega)
  have hsum := toInt_add hadd
  have hdiv : divFits (a + 1) 2 = true := divFits_of_natAbs_lt (by omega)
  have hquot : ((a + 1) / 2).toInt = (a + 1).toInt / 2 := by
    rw [toInt_div_of_nonneg (by omega), htwo]
  refine ⟨?_, by omega, by omega⟩
  rw [hadd, hdiv]
  rfl

/-! ### Units -/

/-- A number with a fraction that is scaled by a ratio: the ratios of all units and
    magnifications are covered. -/
theorem convert_of_bounds {integer frac num denom : Int64}
    (hinteger : 0 ≤ integer.toInt ∧ integer.toInt ≤ 2 ^ 42)
    (hfrac : 0 ≤ frac.toInt ∧ frac.toInt ≤ 65536) (hnum : 0 ≤ num.toInt ∧ num.toInt ≤ 14856)
    (hdenom : 0 < denom.toInt ∧ denom.toInt ≤ 32768) :
    convertFits integer frac num denom = true ∧
      0 ≤ (convert integer frac num denom).1.toInt ∧
      (convert integer frac num denom).1.toInt ≤ integer.toInt * num.toInt + 14857 ∧
      0 ≤ (convert integer frac num denom).2.toInt ∧
      (convert integer frac num denom).2.toInt ≤ 65536 := by
  have hunity := toInt_unity
  unfold convertFits convert xnOverDFits xnOverD
  dsimp only
  -- The whole part and the remainder.
  have hmul : mulFits integer num = true :=
    mulFits_of_natAbs_le (m := 2 ^ 42) (n := 14856) (by omega) (by omega) (by decide)
  have hprod := toInt_mul hmul
  have hprodLow : 0 ≤ integer.toInt * num.toInt := Int.mul_nonneg hinteger.1 hnum.1
  have hdiv : divFits (integer * num) denom = true := by
    have hlt := Int64.toInt_lt (integer * num)
    exact divFits_of_natAbs_lt (by omega)
  have hwhole : (integer * num / denom).toInt = integer.toInt * num.toInt / denom.toInt := by
    rw [toInt_div_of_nonneg (by omega), hprod]
  have hrem : (integer * num % denom).toInt = integer.toInt * num.toInt % denom.toInt := by
    rw [toInt_mod_of_nonneg (by omega), hprod]
  have hwholeLow : 0 ≤ integer.toInt * num.toInt / denom.toInt :=
    Int.ediv_nonneg hprodLow (by omega)
  have hwholeHigh : integer.toInt * num.toInt / denom.toInt ≤ integer.toInt * num.toInt :=
    Int.ediv_le_self _ hprodLow
  have hremLow : 0 ≤ integer.toInt * num.toInt % denom.toInt := Int.emod_nonneg _ (by omega)
  have hremHigh : integer.toInt * num.toInt % denom.toInt < denom.toInt :=
    Int.emod_lt_of_pos _ hdenom.1
  have hprodHigh : (integer.toInt * num.toInt).natAbs ≤ 2 ^ 42 * 14856 :=
    natAbs_mul_le (by omega) (by omega)
  generalize integer * num / denom = whole at hwhole ⊢
  generalize integer * num % denom = rem at hrem ⊢
  -- The fraction.
  have hmulFrac : mulFits num frac = true :=
    mulFits_of_natAbs_le (m := 14856) (n := 65536) (by omega) (by omega) (by decide)
  have hprodFrac := toInt_mul hmulFrac
  have hfracLow : 0 ≤ num.toInt * frac.toInt := Int.mul_nonneg hnum.1 hfrac.1
  have hmulRem : mulFits unity rem = true :=
    mulFits_of_natAbs_le (m := 65536) (n := 32768) (by omega) (by omega) (by decide)
  have hprodRem := toInt_mul hmulRem
  rw [hunity] at hprodRem
  have hfracHigh : (num.toInt * frac.toInt).natAbs ≤ 14856 * 65536 :=
    natAbs_mul_le (by omega) (by omega)
  have hadd : addFits (num * frac) (unity * rem) = true :=
    addFits_of_bounds (by omega) (by omega)
  have hsum := toInt_add hadd
  generalize num * frac + unity * rem = scaled at hsum ⊢
  have hdivScaled : divFits scaled denom = true := divFits_of_natAbs_lt (by omega)
  have hquot : (scaled / denom).toInt = scaled.toInt / denom.toInt :=
    toInt_div_of_nonneg (by omega)
  have hquotLow : 0 ≤ scaled.toInt / denom.toInt := Int.ediv_nonneg (by omega) (by omega)
  -- The remainder is less than the denominator, so it gives less than one unit.
  have hquotHigh : scaled.toInt / denom.toInt ≤ 14857 * 65536 := by
    apply Int.ediv_le_of_le_mul hdenom.1
    have hcross : num.toInt * frac.toInt ≤ 14856 * 65536 * denom.toInt := by omega
    omega
  generalize scaled / denom = quot at hquot ⊢
  have hdivUnity : divFits quot unity = true := divFits_of_natAbs_lt (by omega)
  have hcarry : (quot / unity).toInt = quot.toInt / 65536 := by
    rw [toInt_div_of_nonneg (by omega), hunity]
  have hfraction : (quot % unity).toInt = quot.toInt % 65536 := by
    rw [toInt_mod_of_nonneg (by omega), hunity]
  have haddWhole : addFits whole (quot / unity) = true :=
    addFits_of_bounds (by omega) (by omega)
  have htotal := toInt_add haddWhole
  refine ⟨?_, by omega, by omega, by omega, by omega⟩
  rw [hmul, hdiv, hmulFrac, hmulRem, hadd, hdivScaled, hdivUnity, haddWhole]
  rfl

theorem toInt_lt_of_not_ge {integer : Int64} (h : ¬ integer ≥ 0x4000) : integer.toInt < 16384 := by
  have hlimit : (0x4000 : Int64).toInt = 16384 := by decide
  rw [ge_iff_le, Int64.le_iff_toInt_le, hlimit] at h
  omega

/-- A number of points that is not too large. -/
theorem parts_of_bounds {integer frac : Int64} (hinteger : 0 ≤ integer.toInt)
    (hfrac : 0 ≤ frac.toInt ∧ frac.toInt ≤ 65536) (hlarge : ¬ integer ≥ 0x4000) :
    mulFits integer unity = true ∧ addFits (integer * unity) frac = true ∧
      0 ≤ (integer * unity + frac).toInt ∧ (integer * unity + frac).toInt ≤ 2 ^ 30 := by
  have hlt := toInt_lt_of_not_ge hlarge
  have hunity := toInt_unity
  have hmul : mulFits integer unity = true :=
    mulFits_of_natAbs_le (m := 16384) (n := 65536) (by omega) (by omega) (by decide)
  have hprod := toInt_mul hmul
  rw [hunity] at hprod
  have hadd : addFits (integer * unity) frac = true := addFits_of_bounds (by omega) (by omega)
  have hsum := toInt_add hadd
  exact ⟨hmul, hadd, by omega, by omega⟩

theorem partsFits_of_bounds {integer frac : Int64} (hinteger : 0 ≤ integer.toInt)
    (hfrac : 0 ≤ frac.toInt ∧ frac.toInt ≤ 65536) : partsFits integer frac = true := by
  unfold partsFits
  by_cases hlarge : integer ≥ 0x4000
  · simp [hlarge]
  · obtain ⟨hmul, hadd, -, -⟩ := parts_of_bounds hinteger hfrac hlarge
    simp [hmul, hadd]

theorem ofParts_of_bounds {integer frac : Int64} (hinteger : 0 ≤ integer.toInt)
    (hfrac : 0 ≤ frac.toInt ∧ frac.toInt ≤ 65536) (h : ofParts integer frac = .ok r) :
    r.toInt.natAbs ≤ 2 ^ 30 := by
  unfold ofParts at h
  split at h
  · contradiction
  · rename_i hlarge
    injection h with h
    obtain ⟨-, -, hlow, hhigh⟩ := parts_of_bounds hinteger hfrac hlarge
    rw [← h]
    omega

theorem PhysicalUnit.ratio_bounds (u : PhysicalUnit) :
    (0 ≤ u.ratio.1.toInt ∧ u.ratio.1.toInt ≤ 14856) ∧
      (0 < u.ratio.2.toInt ∧ u.ratio.2.toInt ≤ 32768) := by
  cases u <;> decide

/-- The length of a number of physical units. -/
theorem scaleUnit_of_bounds {integer frac : Int64} (u : PhysicalUnit)
    (hinteger : 0 ≤ integer.toInt ∧ integer.toInt ≤ 2 ^ 42)
    (hfrac : 0 ≤ frac.toInt ∧ frac.toInt ≤ 65536) :
    scaleUnitFits integer frac u = true ∧
      ∀ r, scaleUnit integer frac u = .ok r → r.toInt.natAbs ≤ 2 ^ 30 := by
  obtain ⟨hnum, hdenom⟩ := u.ratio_bounds
  obtain ⟨hfits, hwholeLow, -, hfracLow, hfracHigh⟩ :=
    convert_of_bounds hinteger hfrac hnum hdenom
  unfold scaleUnitFits scaleUnit
  dsimp only
  by_cases hpoint : u.ratio.1 = 1 ∧ u.ratio.2 = 1
  · rw [if_pos hpoint, if_pos hpoint]
    exact ⟨partsFits_of_bounds hinteger.1 hfrac, fun r h => ofParts_of_bounds hinteger.1 hfrac h⟩
  · rw [if_neg hpoint, if_neg hpoint, hfits,
      partsFits_of_bounds hwholeLow ⟨hfracLow, hfracHigh⟩]
    exact ⟨rfl, fun r h => ofParts_of_bounds hwholeLow ⟨hfracLow, hfracHigh⟩ h⟩

/-- A number of "true" units. -/
theorem magnify_of_bounds {integer frac : Int64} (mag : Int64)
    (hinteger : 0 ≤ integer.toInt ∧ integer.toInt ≤ 0x7FFFFFFF)
    (hfrac : 0 ≤ frac.toInt ∧ frac.toInt ≤ 65536) :
    magnifyFits integer frac mag = true ∧
      ∀ r, magnify integer frac mag = .ok r →
        (0 ≤ r.1.toInt ∧ r.1.toInt ≤ 2 ^ 42) ∧ (0 ≤ r.2.toInt ∧ r.2.toInt ≤ 65536) := by
  unfold magnifyFits magnify
  by_cases hillegal : mag ≤ 0 ∨ mag > 32768
  · rw [if_pos hillegal, if_pos hillegal]
    exact ⟨rfl, fun r h => by contradiction⟩
  · rw [if_neg hillegal, if_neg hillegal]
    by_cases hsame : mag = 1000
    · rw [if_pos hsame, if_pos hsame]
      refine ⟨rfl, fun r h => ?_⟩
      injection h with h
      rw [← h]
      have hle : integer.toInt ≤ 2 ^ 42 := by omega
      exact ⟨⟨hinteger.1, hle⟩, hfrac⟩
    · rw [if_neg hsame, if_neg hsame]
      have hzero : (0 : Int64).toInt = 0 := by decide
      have hthousand : (1000 : Int64).toInt = 1000 := by decide
      have hlimit : (32768 : Int64).toInt = 32768 := by decide
      rw [not_or, gt_iff_lt, Int64.le_iff_toInt_le, Int64.lt_iff_toInt_lt, hzero, hlimit]
        at hillegal
      have hnum : 0 ≤ (1000 : Int64).toInt ∧ (1000 : Int64).toInt ≤ 14856 := by omega
      have hmag : 0 < mag.toInt ∧ mag.toInt ≤ 32768 := by omega
      obtain ⟨hfits, hlow, hhigh, hfracLow, hfracHigh⟩ :=
        convert_of_bounds ⟨hinteger.1, by omega⟩ hfrac hnum hmag
      refine ⟨hfits, fun r h => ?_⟩
      injection h with h
      rw [hthousand] at hhigh
      rw [← h]
      exact ⟨⟨hlow, by omega⟩, hfracLow, hfracHigh⟩

/-- A multiple of a length, or of a number that stands for one. -/
theorem fraction_of_bounds {integer frac : Int64}
    (hinteger : 0 ≤ integer.toInt ∧ integer.toInt ≤ 0x7FFFFFFF)
    (hfrac : 0 ≤ frac.toInt ∧ frac.toInt ≤ 65536) (hd : Count.InRange d) :
    fractionFits integer frac d = true ∧ ∀ r, fraction integer frac d = .ok r → InRange r := by
  have hneg := Count.negFits_of_inRange hd
  have hnegated := toInt_neg hneg
  have hzero : (0 : Int64).toInt = 0 := by decide
  have hunity := toInt_unity
  have hmax : Dimen.max.toInt = 0x3FFFFFFF := by decide
  rw [Count.inRange_iff] at hd
  unfold fractionFits fraction xnOverDFits xnOverD
  dsimp only
  rw [hneg, Bool.true_and]
  -- The product is taken of the absolute value; its sign comes back at the end.
  have habs : 0 ≤ (if d < 0 then -d else d).toInt ∧
      (if d < 0 then -d else d).toInt ≤ 0x7FFFFFFF := by
    by_cases hsign : d < 0
    · rw [if_pos hsign]
      rw [Int64.lt_iff_toInt_lt, hzero] at hsign
      omega
    · rw [if_neg hsign]
      rw [Int64.lt_iff_toInt_lt, hzero] at hsign
      omega
  generalize (if d < 0 then -d else d) = v at habs ⊢
  have hmul : mulFits integer v = true :=
    mulFits_of_natAbs_le (m := 0x7FFFFFFF) (n := 0x7FFFFFFF) (by omega) (by omega) (by decide)
  have hprod := toInt_mul hmul
  have hprodLow : 0 ≤ integer.toInt * v.toInt := Int.mul_nonneg hinteger.1 habs.1
  have hprodHigh : (integer.toInt * v.toInt).natAbs ≤ 0x7FFFFFFF * 0x7FFFFFFF :=
    natAbs_mul_le (by omega) (by omega)
  have hmulFrac : mulFits v frac = true :=
    mulFits_of_natAbs_le (m := 0x7FFFFFFF) (n := 65536) (by omega) (by omega) (by decide)
  have hprodFrac := toInt_mul hmulFrac
  have hfracLow : 0 ≤ v.toInt * frac.toInt := Int.mul_nonneg habs.1 hfrac.1
  have hfracHigh : (v.toInt * frac.toInt).natAbs ≤ 0x7FFFFFFF * 65536 :=
    natAbs_mul_le (by omega) (by omega)
  have hdiv : divFits (v * frac) unity = true := divFits_of_natAbs_lt (by omega)
  have hquot : (v * frac / unity).toInt = v.toInt * frac.toInt / 65536 := by
    rw [toInt_div_of_nonneg (by omega), hprodFrac, hunity]
  have hadd : addFits (integer * v) (v * frac / unity) = true :=
    addFits_of_bounds (by omega) (by omega)
  have hsum := toInt_add hadd
  rw [hmul, hmulFrac, hdiv, hadd]
  generalize integer * v + v * frac / unity = s at hsum ⊢
  -- The sum does not wrap around, but only the last check makes it a length.
  refine ⟨negFits_of_natAbs_lt (by omega), fun r h => ?_⟩
  split at h
  · contradiction
  · rename_i hlarge
    rw [gt_iff_lt, Int64.lt_iff_toInt_lt, hmax] at hlarge
    have hs : InRange s := by
      rw [inRange_iff]
      omega
    injection h with h
    rw [← h]
    split
    · exact inRange_neg hs
    · exact hs

end Dimen

/-! ## Glue -/

/-- A component that can be kept in a register: it has one of the orders that can be
    written, and it is finite if it is zero. -/
structure GlueComponent.IsProper (c : GlueComponent) : Prop where
  inRange : Dimen.InRange c.value
  order_le : c.order ≤ 3
  order_eq_zero : c.value = 0 → c.order = 0

/-- A glue that can be kept in a register. -/
structure Glue.IsProper (g : Glue) : Prop where
  inRange : Dimen.InRange g.width
  stretch : g.stretch.IsProper
  shrink : g.shrink.IsProper

/-- A sequence succeeds if its parts do. -/
theorem exists_of_bind_ok {ε α β : Type} {act : Except ε α} {f : α → Except ε β} {b : β}
    (h : act >>= f = .ok b) : ∃ a, act = .ok a ∧ f a = .ok b := by
  cases act with
  | ok a => exact ⟨a, rfl, h⟩
  | error e => contradiction

namespace GlueComponent

theorem isProper_zero : IsProper {} :=
  ⟨by decide, by decide, fun _ => rfl⟩

theorem isProper_normalize {c : GlueComponent} (hvalue : Dimen.InRange c.value)
    (horder : c.order ≤ 3) : c.normalize.IsProper := by
  unfold normalize
  split
  · exact ⟨hvalue, Nat.zero_le 3, fun _ => rfl⟩
  · rename_i hzero
    exact ⟨hvalue, horder, fun h => absurd (beq_iff_eq.mpr h) hzero⟩

theorem isProper_neg {c : GlueComponent} (hc : c.IsProper) :
    IsProper { c with value := -c.value } := by
  refine ⟨Dimen.inRange_neg hc.inRange, hc.order_le, fun h => hc.order_eq_zero ?_⟩
  have hneg : -c.value = 0 := h
  rw [← Int64.neg_neg (a := c.value), hneg]
  rfl

theorem addFits_of_isProper {g h : GlueComponent} (hg : g.IsProper) (hh : h.IsProper) :
    addFits g h = true := by
  have hadd : Word.addFits g.value h.value = true := Dimen.addFits_of_inRange hg.inRange hh.inRange
  rw [addFits, hadd, Bool.or_true]

theorem isProper_of_add {g h r : GlueComponent} (hg : g.IsProper) (hh : h.IsProper)
    (hadd : g.add h = .ok r) : r.IsProper := by
  unfold add at hadd
  split at hadd
  · injection hadd with hr
    rwa [← hr]
  · split at hadd
    · injection hadd with hr
      rwa [← hr]
    · split at hadd
      · injection hadd with hr
        rwa [← hr]
      · obtain ⟨v, hv, hr⟩ := exists_of_bind_ok hadd
        injection hr with hr
        rw [← hr]
        split
        · exact isProper_zero
        · rename_i hzero
          exact ⟨Dimen.inRange_of_checked hv, hg.order_le, fun h => absurd (beq_iff_eq.mpr h) hzero⟩

end GlueComponent

namespace Glue

variable {g h r : Glue}

theorem isProper_zero : IsProper {} :=
  ⟨by decide, GlueComponent.isProper_zero, GlueComponent.isProper_zero⟩

theorem isProper_negate (hg : g.IsProper) : g.negate.IsProper :=
  ⟨Dimen.inRange_neg hg.inRange, GlueComponent.isProper_neg hg.stretch,
    GlueComponent.isProper_neg hg.shrink⟩

theorem negateFits_of_isProper (hg : g.IsProper) : g.negateFits = true := by
  rw [negateFits, Dimen.negFits_of_inRange hg.inRange, Dimen.negFits_of_inRange hg.stretch.inRange,
    Dimen.negFits_of_inRange hg.shrink.inRange]
  rfl

theorem addFits_of_isProper (hg : g.IsProper) (hh : h.IsProper) : g.addFits h = true := by
  rw [addFits, Dimen.addFits_of_inRange hg.inRange hh.inRange,
    GlueComponent.addFits_of_isProper hg.stretch hh.stretch,
    GlueComponent.addFits_of_isProper hg.shrink hh.shrink]
  rfl

theorem isProper_of_add (hg : g.IsProper) (hh : h.IsProper) (hadd : g.add h = .ok r) :
    r.IsProper := by
  obtain ⟨width, hwidth, hadd⟩ := exists_of_bind_ok hadd
  obtain ⟨stretch, hstretch, hadd⟩ := exists_of_bind_ok hadd
  obtain ⟨shrink, hshrink, hadd⟩ := exists_of_bind_ok hadd
  injection hadd with hr
  rw [← hr]
  exact ⟨Dimen.inRange_of_checked hwidth,
    GlueComponent.isProper_of_add hg.stretch hh.stretch hstretch,
    GlueComponent.isProper_of_add hg.shrink hh.shrink hshrink⟩

/-- An operation on all lengths that leads into the range gives a glue that can be
    kept. -/
theorem isProper_of_mapM {f : Dimen → Except ArithFault Dimen}
    (hf : ∀ d e, Dimen.InRange d → f d = .ok e → Dimen.InRange e) (hg : g.IsProper)
    (hmap : g.mapM f = .ok r) : r.IsProper := by
  obtain ⟨width, hwidth, hmap⟩ := exists_of_bind_ok hmap
  obtain ⟨stretch, hstretch, hmap⟩ := exists_of_bind_ok hmap
  obtain ⟨shrink, hshrink, hmap⟩ := exists_of_bind_ok hmap
  injection hmap with hr
  rw [← hr]
  exact ⟨hf _ _ hg.inRange hwidth,
    GlueComponent.isProper_normalize (hf _ _ hg.stretch.inRange hstretch) hg.stretch.order_le,
    GlueComponent.isProper_normalize (hf _ _ hg.shrink.inRange hshrink) hg.shrink.order_le⟩

theorem multiplyFits_of_isProper (hg : g.IsProper) {n : Int64} (hn : Count.InRange n) :
    g.multiplyFits n = true := by
  rw [multiplyFits, Dimen.multiplyFits_of_inRange hg.inRange hn,
    Dimen.multiplyFits_of_inRange hg.stretch.inRange hn,
    Dimen.multiplyFits_of_inRange hg.shrink.inRange hn]
  rfl

theorem divideFits_of_isProper (hg : g.IsProper) (n : Int64) : g.divideFits n = true := by
  rw [divideFits, Dimen.divFits_of_inRange hg.inRange, Dimen.divFits_of_inRange hg.stretch.inRange,
    Dimen.divFits_of_inRange hg.shrink.inRange]
  rfl

end Glue

end TexEngine
