/-
  TexEngine.Proofs.Arith.Conversion

  Unit conversion is exact.  A length is converted as a whole number and a fraction: the
  remainder of the whole number is carried into the fraction, and what the fraction exceeds
  one by is carried back.  The pair that comes out is the quotient of the exact product,
  rounded down.

  `exactUnits` is the number that a pair stands for.  That no operation wraps around is shown
  in `convert_of_bounds` and its companions.

  `conversion_exact` says all of this at once, for the numbers that can stand in front of a
  unit.  Their fraction may be rounded up to one whole, and so there is one number of points
  that is accepted although it is too large (`lastParts`).
-/
import TexEngine.Proofs.Arith.Decimal
import TexEngine.Proofs.Arith.Range

namespace TexEngine

open Word

namespace Dimen

/-- The number of units of 1/65536 that an integer and a fraction make. -/
def exactUnits (p : Int64 × Int64) : Int :=
  p.1.toInt * 65536 + p.2.toInt

/-- Dividing with a remainder that is divided in turn. -/
theorem ediv_carry (a f n d : Int) (hd : 0 < d) :
    a * n / d * 65536 + (n * f + 65536 * (a * n % d)) / d = (a * 65536 + f) * n / d := by
  have hsplit : (a * 65536 + f) * n = n * f + 65536 * (a * n % d) + a * n / d * 65536 * d := by
    have hdivision := Int.mul_ediv_add_emod (a * n) d
    calc (a * 65536 + f) * n = 65536 * (a * n) + n * f := by ring
      _ = 65536 * (d * (a * n / d) + a * n % d) + n * f := by rw [hdivision]
      _ = n * f + 65536 * (a * n % d) + a * n / d * 65536 * d := by ring
  rw [hsplit, Int.add_mul_ediv_right _ _ (by omega)]
  ring

/-- A conversion gives the exact quotient, rounded down. -/
theorem exactUnits_convert {integer frac num denom : Int64}
    (hinteger : 0 ≤ integer.toInt ∧ integer.toInt ≤ 2 ^ 42)
    (hfrac : 0 ≤ frac.toInt ∧ frac.toInt ≤ 65536) (hnum : 0 ≤ num.toInt ∧ num.toInt ≤ 14856)
    (hdenom : 0 < denom.toInt ∧ denom.toInt ≤ 32768) :
    exactUnits (convert integer frac num denom) =
        exactUnits (integer, frac) * num.toInt / denom.toInt ∧
      (convert integer frac num denom).2.toInt < 65536 := by
  have hunity := toInt_unity
  have hfits := (convert_of_bounds hinteger hfrac hnum hdenom).1
  unfold convertFits xnOverDFits xnOverD at hfits
  simp only [Bool.and_eq_true] at hfits
  obtain ⟨⟨⟨⟨⟨⟨⟨hmul, -⟩, hmulFrac⟩, hmulRem⟩, hadd⟩, -⟩, -⟩, haddWhole⟩ := hfits
  -- The whole part is divided first; its remainder counts 65536 times in the fraction.
  have hprodLow : 0 ≤ integer.toInt * num.toInt := Int.mul_nonneg hinteger.1 hnum.1
  have hprod := toInt_mul hmul
  have hwhole : (integer * num / denom).toInt = integer.toInt * num.toInt / denom.toInt := by
    rw [toInt_div_of_nonneg (by omega), hprod]
  have hrem : (integer * num % denom).toInt = integer.toInt * num.toInt % denom.toInt := by
    rw [toInt_mod_of_nonneg (by omega), hprod]
  have hremLow : 0 ≤ integer.toInt * num.toInt % denom.toInt := Int.emod_nonneg _ (by omega)
  have hscaled : (num * frac + unity * (integer * num % denom)).toInt =
      num.toInt * frac.toInt + 65536 * (integer.toInt * num.toInt % denom.toInt) := by
    rw [toInt_add hadd, toInt_mul hmulFrac, toInt_mul hmulRem, hrem, hunity]
  have hfracLow : 0 ≤ num.toInt * frac.toInt := Int.mul_nonneg hnum.1 hfrac.1
  have hquot : ((num * frac + unity * (integer * num % denom)) / denom).toInt =
      (num.toInt * frac.toInt + 65536 * (integer.toInt * num.toInt % denom.toInt)) /
        denom.toInt := by
    rw [toInt_div_of_nonneg (by omega), hscaled]
  have hquotLow : 0 ≤ (num.toInt * frac.toInt +
      65536 * (integer.toInt * num.toInt % denom.toInt)) / denom.toInt :=
    Int.ediv_nonneg (by omega) (by omega)
  -- The fraction can reach a whole again, which is then carried.
  have hcarry := ediv_carry integer.toInt frac.toInt num.toInt denom.toInt hdenom.1
  unfold exactUnits convert xnOverD
  dsimp only
  rw [toInt_add haddWhole, hwhole, toInt_div_of_nonneg (by omega), toInt_mod_of_nonneg (by omega),
    hquot, hunity]
  omega

/-- Taking a magnification back gives the exact quotient, rounded down. -/
theorem exactUnits_magnify {integer frac mag : Int64}
    (hinteger : 0 ≤ integer.toInt ∧ integer.toInt ≤ 0x7FFFFFFF)
    (hfrac : 0 ≤ frac.toInt ∧ frac.toInt ≤ 65536) (hmag : 0 < mag.toInt ∧ mag.toInt ≤ 32768) :
    ∃ p, magnify integer frac mag = .ok p ∧
      exactUnits p = exactUnits (integer, frac) * 1000 / mag.toInt := by
  have hzero : (0 : Int64).toInt = 0 := by decide
  have hthousand : (1000 : Int64).toInt = 1000 := by decide
  have hlimit : (32768 : Int64).toInt = 32768 := by decide
  have hlegal : ¬ (mag ≤ 0 ∨ mag > 32768) := by
    rw [not_or, gt_iff_lt, Int64.le_iff_toInt_le, Int64.lt_iff_toInt_lt, hzero, hlimit]
    omega
  unfold magnify
  rw [if_neg hlegal]
  by_cases hsame : mag = 1000
  · refine ⟨_, if_pos hsame, ?_⟩
    rw [hsame, hthousand]
    omega
  · refine ⟨_, if_neg hsame, ?_⟩
    have hle : integer.toInt ≤ 2 ^ 42 := by omega
    have hnum : 0 ≤ (1000 : Int64).toInt ∧ (1000 : Int64).toInt ≤ 14856 := by omega
    have hexact := (exactUnits_convert ⟨hinteger.1, hle⟩ hfrac hnum hmag).1
    rwa [hthousand] at hexact

/-- A number of points is its length, unless it is too large. -/
theorem ofParts_cases {integer frac : Int64} (hinteger : 0 ≤ integer.toInt)
    (hfrac : 0 ≤ frac.toInt ∧ frac.toInt ≤ 65536) :
    (∃ d, ofParts integer frac = .ok d ∧ d.toInt = exactUnits (integer, frac) ∧
      integer.toInt < 16384) ∨
    (ofParts integer frac = .error .dimenTooLarge ∧ 2 ^ 30 ≤ exactUnits (integer, frac)) := by
  have hlimit : (0x4000 : Int64).toInt = 16384 := by decide
  unfold ofParts exactUnits
  by_cases hlarge : integer ≥ 0x4000
  · rw [if_pos hlarge]
    rw [ge_iff_le, Int64.le_iff_toInt_le, hlimit] at hlarge
    exact .inr ⟨rfl, by dsimp only; omega⟩
  · rw [if_neg hlarge]
    obtain ⟨hmul, hadd, -, -⟩ := parts_of_bounds hinteger hfrac hlarge
    refine .inl ⟨_, rfl, ?_, toInt_lt_of_not_ge hlarge⟩
    rw [toInt_add hadd, toInt_mul hmul, toInt_unity]

/-- The numerator of a unit: so many points make `denom` units. -/
def PhysicalUnit.num (u : PhysicalUnit) : Int :=
  u.ratio.1.toInt

/-- The denominator of a unit: so many units make `num` points. -/
def PhysicalUnit.denom (u : PhysicalUnit) : Int :=
  u.ratio.2.toInt

/-- A number of units is the exact quotient, rounded down, or it is refused because it is
    too large. -/
theorem scaleUnit_cases {integer frac : Int64} (u : PhysicalUnit)
    (hinteger : 0 ≤ integer.toInt ∧ integer.toInt ≤ 2 ^ 42)
    (hfrac : 0 ≤ frac.toInt ∧ frac.toInt ≤ 65536) :
    (∃ d, scaleUnit integer frac u = .ok d ∧
      d.toInt = exactUnits (integer, frac) * u.num / u.denom ∧ d.toInt ≤ 2 ^ 30) ∨
    (scaleUnit integer frac u = .error .dimenTooLarge ∧
      2 ^ 30 ≤ exactUnits (integer, frac) * u.num / u.denom) := by
  obtain ⟨hnum, hdenom⟩ := u.ratio_bounds
  unfold scaleUnit
  dsimp only
  by_cases hpoint : u.ratio.1 = 1 ∧ u.ratio.2 = 1
  · have hone : (1 : Int64).toInt = 1 := by decide
    have hratio : exactUnits (integer, frac) * u.num / u.denom = exactUnits (integer, frac) := by
      rw [PhysicalUnit.num, PhysicalUnit.denom, hpoint.1, hpoint.2, hone, Int.mul_one, Int.ediv_one]
    rw [if_pos hpoint, hratio]
    rcases ofParts_cases hinteger.1 hfrac with ⟨d, hd, hexact, hlt⟩ | hlarge
    · refine .inl ⟨d, hd, hexact, ?_⟩
      rw [hexact, exactUnits]
      dsimp only
      omega
    · exact .inr hlarge
  · rw [if_neg hpoint]
    obtain ⟨-, hlow, -, hfracLow, hfracHigh⟩ := convert_of_bounds hinteger hfrac hnum hdenom
    obtain ⟨hexact, hfracLt⟩ := exactUnits_convert hinteger hfrac hnum hdenom
    rw [PhysicalUnit.num, PhysicalUnit.denom, ← hexact]
    rcases ofParts_cases hlow ⟨hfracLow, hfracHigh⟩ with ⟨d, hd, hvalue, hlt⟩ | hlarge
    · refine .inl ⟨d, hd, hvalue, ?_⟩
      rw [hvalue, exactUnits]
      dsimp only
      omega
    · exact .inr hlarge

/-! ## Exactness -/

/-- At magnification 1000 nothing changes. -/
theorem magnify_thousand (integer frac : Int64) :
    magnify integer frac 1000 = .ok (integer, frac) := by
  rw [magnify, if_neg (by decide), if_pos rfl]

theorem scale_keyword (integer frac : Int64) (u : PhysicalUnit) :
    scale integer frac u.keyword = scaleUnit integer frac u := by
  have hfound : PhysicalUnit.ofKeyword? u.keyword = some u := by cases u <;> rfl
  rw [scale, hfound]

/-- The largest integer with a fraction of one whole: as a number of points, it is accepted
    although it is as large as the next integer. -/
def lastParts : Int64 × Int64 :=
  (0x3FFF, 0x10000)

/-- A number of units that is not accepted: it cannot be a length, and it is not the one that
    is let through all the same. -/
def IsTooLarge (u : PhysicalUnit) (p : Int64 × Int64) : Prop :=
  2 ^ 30 ≤ exactUnits p * u.num / u.denom ∧ ¬ (u = .point ∧ p = lastParts)

theorem lt_of_ofParts {integer frac : Int64} {d : Dimen} (hinteger : 0 ≤ integer.toInt)
    (hfrac : 0 ≤ frac.toInt ∧ frac.toInt ≤ 65536) (h : ofParts integer frac = .ok d) :
    d.toInt < 2 ^ 30 ∨ (integer, frac) = lastParts := by
  have hwhole : (0x3FFF : Int64).toInt = 16383 := by decide
  have hone : (0x10000 : Int64).toInt = 65536 := by decide
  rcases ofParts_cases hinteger hfrac with ⟨e, he, hexact, hlt⟩ | ⟨herror, -⟩
  · obtain rfl : e = d := Except.ok.inj (he.symm.trans h)
    rw [exactUnits] at hexact
    dsimp only at hexact
    by_cases hlast : integer.toInt = 16383 ∧ frac.toInt = 65536
    · rw [← hwhole, ← hone, Int64.toInt_inj, Int64.toInt_inj] at hlast
      rw [hlast.1, hlast.2]
      exact .inr rfl
    · exact .inl (by omega)
  · rw [herror] at h
    contradiction

theorem lt_of_scaleUnit {integer frac : Int64} {u : PhysicalUnit} {d : Dimen}
    (hinteger : 0 ≤ integer.toInt ∧ integer.toInt ≤ 2 ^ 42)
    (hfrac : 0 ≤ frac.toInt ∧ frac.toInt ≤ 65536) (h : scaleUnit integer frac u = .ok d) :
    d.toInt < 2 ^ 30 ∨ (u = .point ∧ (integer, frac) = lastParts) := by
  unfold scaleUnit at h
  dsimp only at h
  by_cases hpoint : u.ratio.1 = 1 ∧ u.ratio.2 = 1
  · have hu : u = .point := by
      revert hpoint
      cases u <;> decide
    rw [if_pos hpoint] at h
    exact (lt_of_ofParts hinteger.1 hfrac h).imp_right fun hlast => ⟨hu, hlast⟩
  · obtain ⟨hnum, hdenom⟩ := u.ratio_bounds
    obtain ⟨-, hlow, -, hfracLow, hfracHigh⟩ := convert_of_bounds hinteger hfrac hnum hdenom
    have hfracLt := (exactUnits_convert hinteger hfrac hnum hdenom).2
    rw [if_neg hpoint] at h
    rcases lt_of_ofParts hlow ⟨hfracLow, hfracHigh⟩ h with hlt | hlast
    · exact .inl hlt
    · -- The fraction that a conversion leaves is less than one.
      have hone : lastParts.2.toInt = 65536 := by decide
      rw [← hlast] at hone
      exact absurd hone (by dsimp only; omega)

/-- A number of units is converted exactly, or it is too large. -/
theorem scale_exact {p : Int64 × Int64} (u : PhysicalUnit)
    (hinteger : 0 ≤ p.1.toInt ∧ p.1.toInt ≤ 2 ^ 42)
    (hfrac : 0 ≤ p.2.toInt ∧ p.2.toInt ≤ 65536) :
    (IsTooLarge u p → scale p.1 p.2 u.keyword = .error .dimenTooLarge) ∧
    (¬ IsTooLarge u p → ∃ d, scale p.1 p.2 u.keyword = .ok d ∧
      d.toInt = exactUnits p * u.num / u.denom) := by
  rw [scale_keyword]
  rcases scaleUnit_cases u hinteger hfrac with ⟨d, hd, hexact, -⟩ | ⟨herror, hlarge⟩
  · refine ⟨fun ⟨hlarge, hne⟩ => ?_, fun _ => ⟨d, hd, hexact⟩⟩
    rcases lt_of_scaleUnit hinteger hfrac hd with hlt | hlast
    · rw [hexact] at hlt
      exact absurd hlarge (Int.not_le.mpr hlt)
    · exact absurd hlast hne
  · refine ⟨fun _ => herror, fun hfits => ?_⟩
    obtain ⟨rfl, rfl⟩ : u = .point ∧ p = lastParts := by
      by_contra hne
      exact hfits ⟨hlarge, hne⟩
    exact ⟨0x40000000, by decide, by decide⟩

/-- A multiple of a size, which is made of a whole and a broken part, rounded down. -/
theorem toInt_multiple {integer frac v : Int64} (hv : 0 ≤ v.toInt) (hfrac : 0 ≤ frac.toInt)
    (hmul : mulFits integer v = true) (hmulFrac : mulFits v frac = true)
    (hadd : addFits (integer * v) (v * frac / unity) = true) :
    (integer * v + v * frac / unity).toInt = v.toInt * exactUnits (integer, frac) / 65536 := by
  have hunity := toInt_unity
  have hprodFrac := toInt_mul hmulFrac
  have hfracLow : 0 ≤ v.toInt * frac.toInt := Int.mul_nonneg hv hfrac
  have hsplit : v.toInt * exactUnits (integer, frac) =
      v.toInt * frac.toInt + integer.toInt * v.toInt * 65536 := by
    rw [exactUnits]
    ring
  rw [toInt_add hadd, toInt_mul hmul, toInt_div_of_nonneg (by omega), hprodFrac, hunity, hsplit,
    Int.add_mul_ediv_right _ _ (by decide), Int.add_comm]

/-- Giving the sign of `d` to a size that is zero if `d` is. -/
theorem toInt_signed {d r : Int64} (hneg : negFits r = true) (hr : d.toInt = 0 → r.toInt = 0) :
    (if d < 0 then -r else r).toInt = d.toInt.sign * r.toInt := by
  have hzero : (0 : Int64).toInt = 0 := by decide
  by_cases hsign : d < 0
  · rw [if_pos hsign, toInt_neg hneg]
    rw [Int64.lt_iff_toInt_lt, hzero] at hsign
    rw [Int.sign_eq_neg_one_of_neg hsign, Int.neg_one_mul]
  · rw [if_neg hsign]
    rw [Int64.lt_iff_toInt_lt, hzero, Int.not_lt] at hsign
    rcases Int.lt_or_eq_of_le hsign with hpos | hd
    · rw [Int.sign_eq_one_of_pos hpos, Int.one_mul]
    · rw [hr hd.symm, Int.mul_zero]

/-- A multiple of a length is exact up to its size, which is rounded down, or it is too
    large. -/
theorem fraction_exact {integer frac : Int64} {d : Dimen}
    (hinteger : 0 ≤ integer.toInt ∧ integer.toInt ≤ 0x7FFFFFFF)
    (hfrac : 0 ≤ frac.toInt ∧ frac.toInt ≤ 65536) (hd : Count.InRange d) :
    (d.toInt.natAbs * exactUnits (integer, frac) / 65536 ≤ Dimen.max.toInt →
      ∃ r, fraction integer frac d = .ok r ∧
        r.toInt = d.toInt.sign * (d.toInt.natAbs * exactUnits (integer, frac) / 65536)) ∧
    (Dimen.max.toInt < d.toInt.natAbs * exactUnits (integer, frac) / 65536 →
      fraction integer frac d = .error .dimenTooLarge) := by
  have hfits := (fraction_of_bounds hinteger hfrac hd).1
  rw [Count.inRange_iff] at hd
  unfold fractionFits xnOverDFits xnOverD at hfits
  unfold fraction xnOverD
  dsimp only at hfits ⊢
  have habs : (if d < 0 then -d else d).toInt = d.toInt.natAbs := by
    rw [abs_eq_ofNat, Int64.toInt_ofNat_of_lt (by omega)]
  generalize (if d < 0 then -d else d) = v at habs hfits ⊢
  simp only [Bool.and_eq_true] at hfits
  obtain ⟨⟨⟨⟨-, hmul⟩, hmulFrac, -⟩, hadd⟩, hneg⟩ := hfits
  have hvalue := toInt_multiple (by omega) hfrac.1 hmul hmulFrac hadd
  rw [habs] at hvalue
  generalize integer * v + v * frac / unity = r at hvalue hneg ⊢
  have hlarge : r > Dimen.max ↔
      Dimen.max.toInt < d.toInt.natAbs * exactUnits (integer, frac) / 65536 := by
    rw [gt_iff_lt, Int64.lt_iff_toInt_lt, hvalue]
  refine ⟨fun hle => ?_, fun hlt => if_pos (hlarge.mpr hlt)⟩
  have hzero : d.toInt = 0 → r.toInt = 0 := fun hd0 => by
    rw [hvalue, hd0, Int.natAbs_zero, Int.natCast_zero, Int.zero_mul, Int.zero_ediv]
  refine ⟨_, if_neg (mt hlarge.mp (Int.not_lt.mpr hle)), ?_⟩
  rw [toInt_signed hneg hzero, hvalue]

/-- Units are converted exactly, rounded down, and no operation wraps around.  A magnification
    is taken back from any number that can stand in front of a unit; every unit can be applied
    to such a number and to what magnification makes of it, unless the result is too large; and
    a length can be multiplied by it, unless the result is too large. -/
theorem conversion_exact {integer frac : Int64}
    (hinteger : 0 ≤ integer.toInt ∧ integer.toInt ≤ Count.max.toInt)
    (hfrac : 0 ≤ frac.toInt ∧ frac.toInt ≤ 65536) :
    (∀ mag : Int64, 1 ≤ mag.toInt ∧ mag.toInt ≤ 32768 →
      magnifyFits integer frac mag = true ∧
      ∃ p, magnify integer frac mag = .ok p ∧
        exactUnits p = exactUnits (integer, frac) * 1000 / mag.toInt ∧
        (mag = 1000 → p = (integer, frac))) ∧
    (∀ (p : Int64 × Int64) (u : PhysicalUnit),
      (p = (integer, frac) ∨ ∃ mag, magnify integer frac mag = .ok p) →
        scaleUnitFits p.1 p.2 u = true ∧
        (IsTooLarge u p → scale p.1 p.2 u.keyword = .error .dimenTooLarge) ∧
        (¬ IsTooLarge u p → ∃ d, scale p.1 p.2 u.keyword = .ok d ∧
          d.toInt = exactUnits p * u.num / u.denom)) ∧
    ∀ d : Dimen, d.toInt.natAbs ≤ Count.max.toInt →
      fractionFits integer frac d = true ∧
      (d.toInt.natAbs * exactUnits (integer, frac) / 65536 ≤ Dimen.max.toInt →
        ∃ r, fraction integer frac d = .ok r ∧
          r.toInt = d.toInt.sign * (d.toInt.natAbs * exactUnits (integer, frac) / 65536)) ∧
      (Dimen.max.toInt < d.toInt.natAbs * exactUnits (integer, frac) / 65536 →
        fraction integer frac d = .error .dimenTooLarge) := by
  have hmax : Count.max.toInt = 0x7FFFFFFF := by decide
  rw [hmax] at hinteger ⊢
  refine ⟨fun mag hmag => ?_, fun p u hp => ?_, fun d hd => ?_⟩
  · obtain ⟨p, hp, hexact⟩ := exactUnits_magnify hinteger hfrac ⟨by omega, hmag.2⟩
    refine ⟨(magnify_of_bounds mag hinteger hfrac).1, p, hp, hexact, ?_⟩
    rintro rfl
    rw [magnify_thousand] at hp
    exact (Except.ok.inj hp).symm
  · have hle : integer.toInt ≤ 2 ^ 42 := by omega
    obtain ⟨hwhole, hpart⟩ : (0 ≤ p.1.toInt ∧ p.1.toInt ≤ 2 ^ 42) ∧
        (0 ≤ p.2.toInt ∧ p.2.toInt ≤ 65536) := by
      rcases hp with rfl | ⟨mag, hmagnify⟩
      · exact ⟨⟨hinteger.1, hle⟩, hfrac⟩
      · exact (magnify_of_bounds mag hinteger hfrac).2 p hmagnify
    exact ⟨(scaleUnit_of_bounds u hwhole hpart).1, scale_exact u hwhole hpart⟩
  · have hinRange : Count.InRange d := Count.inRange_iff.mpr (by omega)
    exact ⟨(fraction_of_bounds hinteger hfrac hinRange).1, fraction_exact hinteger hfrac hinRange⟩

/-- One and a half true inches at magnification 2000, and one and a half times -7. -/
theorem conversion_exact_true_inches :
    (0 ≤ (1 : Int64).toInt ∧ (1 : Int64).toInt ≤ Count.max.toInt) ∧
    (0 ≤ (0x8000 : Int64).toInt ∧ (0x8000 : Int64).toInt ≤ 65536) ∧
    (∃ p, magnify 1 0x8000 2000 = .ok p ∧ exactUnits p = 49152 ∧
      ∃ d, scale p.1 p.2 "in" = .ok d ∧ d.toInt = 3552215) ∧
    ∃ r, fraction 1 0x8000 (-7) = .ok r ∧ r.toInt = -10 := by
  have hinteger : 0 ≤ (1 : Int64).toInt ∧ (1 : Int64).toInt ≤ Count.max.toInt := by decide
  have hfrac : 0 ≤ (0x8000 : Int64).toInt ∧ (0x8000 : Int64).toInt ≤ 65536 := by decide
  obtain ⟨hmagnify, hscale, hfraction⟩ := conversion_exact hinteger hfrac
  refine ⟨hinteger, hfrac, ?_, ?_⟩
  · obtain ⟨-, p, hp, hexact, -⟩ := hmagnify 2000 (by decide)
    have hunits : exactUnits p = 49152 := hexact.trans (by decide)
    have hratio : PhysicalUnit.inch.num = 7227 ∧ PhysicalUnit.inch.denom = 100 := by decide
    have hfits : ¬ IsTooLarge .inch p := by
      rw [IsTooLarge, hunits, hratio.1, hratio.2]
      omega
    obtain ⟨d, hd, hvalue⟩ := (hscale p .inch (.inr ⟨2000, hp⟩)).2.2 hfits
    refine ⟨p, hp, hunits, d, hd, hvalue.trans ?_⟩
    rw [hunits, hratio.1, hratio.2]
    rfl
  · obtain ⟨-, hok, -⟩ := hfraction (-7) (by decide)
    obtain ⟨r, hr, hvalue⟩ := hok (by decide)
    exact ⟨r, hr, hvalue.trans (by decide)⟩

end Dimen

end TexEngine
