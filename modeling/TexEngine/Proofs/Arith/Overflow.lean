/-
  TexEngine.Proofs.Arith.Overflow

  What the checks of sums and products find.  A result is checked after it has wrapped
  around, so the question is for which operands a wrapped result can be taken for a legal
  one.

  A product that has wrapped around is found by dividing it by a factor: the quotient
  differs from the other factor by too much (`toInt_mul_of_div_eq`), so that the check is
  right for all words (`isExact_within_mul`).  A sum is not checked in this way.  The check
  finds whatever is too large, until the exact sum comes within the limit of 2^64, where the
  wrapped one is a small number again (`isExact_within_add_iff`).
-/
import TexEngine.Proofs.Arith.Range

namespace TexEngine

open Word

/-- What an operation should give whose exact result is `n`: this number, if its size is at
    most `limit`, and a fault if it is larger. -/
def IsExact (limit : Int64) (n : Int) (outcome : Except ArithFault Int64) : Prop :=
  if n.natAbs ≤ limit.toInt then ∃ r, outcome = .ok r ∧ r.toInt = n
  else outcome = .error .overflow

namespace IsExact

variable {limit : Int64} {n : Int} {outcome : Except ArithFault Int64}

theorem cases (h : IsExact limit n outcome) :
    (n.natAbs ≤ limit.toInt ∧ ∃ r, outcome = .ok r ∧ r.toInt = n) ∨
    (limit.toInt < n.natAbs ∧ outcome = .error .overflow) := by
  unfold IsExact at h
  by_cases hle : n.natAbs ≤ limit.toInt
  · rw [if_pos hle] at h
    exact .inl ⟨hle, h⟩
  · rw [if_neg hle] at h
    exact .inr ⟨Int.not_le.mp hle, h⟩

theorem eq_ok_iff (h : IsExact limit n outcome) {r : Int64} :
    outcome = .ok r ↔ r.toInt = n ∧ n.natAbs ≤ limit.toInt := by
  rcases h.cases with ⟨hle, s, hs, hn⟩ | ⟨hlt, herror⟩
  · rw [hs, Except.ok.injEq, ← Int64.toInt_inj, hn]
    exact ⟨fun hr => ⟨hr.symm, hle⟩, fun hr => hr.1.symm⟩
  · rw [herror]
    exact ⟨fun hok => by contradiction, fun hr => absurd hr.2 (Int.not_le.mpr hlt)⟩

theorem eq_overflow (h : IsExact limit n outcome) {e : ArithFault} (he : outcome = .error e) :
    e = .overflow := by
  rcases h.cases with ⟨-, r, hr, -⟩ | ⟨-, herror⟩
  · rw [hr] at he
    contradiction
  · exact (Except.error.inj (herror.symm.trans he)).symm

end IsExact

/-! ## Words that are checked against a limit -/

namespace Word

/-- A result that is checked against a limit. -/
def within (limit n : Int64) : Except ArithFault Int64 :=
  if -limit ≤ n ∧ n ≤ limit then .ok n else .error .overflow

variable {limit a b : Int64}

theorem within_cases (hlimit : 0 ≤ limit.toInt) (n : Int64) :
    (n.toInt.natAbs ≤ limit.toInt ∧ within limit n = .ok n) ∨
    (limit.toInt < n.toInt.natAbs ∧ within limit n = .error .overflow) := by
  have hlt : limit.toInt < 2 ^ 63 := Int64.toInt_lt limit
  have hneg : (-limit).toInt = -limit.toInt := toInt_neg (negFits_of_natAbs_lt (by omega))
  unfold within
  by_cases hn : -limit ≤ n ∧ n ≤ limit
  · refine .inl ⟨?_, if_pos hn⟩
    rw [Int64.le_iff_toInt_le, Int64.le_iff_toInt_le, hneg] at hn
    omega
  · refine .inr ⟨?_, if_neg hn⟩
    rw [Int64.le_iff_toInt_le, Int64.le_iff_toInt_le, hneg] at hn
    omega

/-- A result that has not wrapped around is checked correctly. -/
theorem isExact_within (hlimit : 0 ≤ limit.toInt) {w : Int64} {n : Int} (hw : w.toInt = n) :
    IsExact limit n (within limit w) := by
  unfold IsExact
  rw [← hw]
  rcases within_cases hlimit w with ⟨hle, hok⟩ | ⟨hlt, herror⟩
  · rw [if_pos hle]
    exact ⟨w, hok, rfl⟩
  · rw [if_neg (Int.not_le.mpr hlt)]
    exact herror

/-- Where the exact result is too large, the check is right if what it has wrapped around to
    is too large as well. -/
theorem isExact_within_iff (hlimit : 0 ≤ limit.toInt) {w : Int64} {n : Int}
    (hn : limit.toInt < n.natAbs) :
    IsExact limit n (within limit w) ↔ limit.toInt < w.toInt.natAbs := by
  unfold IsExact
  rw [if_neg (Int.not_le.mpr hn)]
  rcases within_cases hlimit w with ⟨hle, hok⟩ | ⟨hlt, herror⟩
  · rw [hok]
    exact ⟨fun h => by contradiction, fun h => absurd hle (Int.not_le.mpr h)⟩
  · exact ⟨fun _ => hlt, fun _ => herror⟩

/-! ### Sums -/

/-- A sum of words wraps around at most once. -/
theorem toInt_add_cases (a b : Int64) :
    ((a.toInt + b.toInt).natAbs ≤ 2 ^ 63 ∧ (a + b).toInt = a.toInt + b.toInt) ∨
    (2 ^ 63 ≤ a.toInt + b.toInt ∧ a.toInt + b.toInt < 2 ^ 64 ∧
      (a + b).toInt = a.toInt + b.toInt - 2 ^ 64) ∨
    (-2 ^ 64 ≤ a.toInt + b.toInt ∧ a.toInt + b.toInt < -2 ^ 63 ∧
      (a + b).toInt = a.toInt + b.toInt + 2 ^ 64) := by
  have halow := Int64.le_toInt a
  have hahigh := Int64.toInt_lt a
  have hblow := Int64.le_toInt b
  have hbhigh := Int64.toInt_lt b
  rw [Int64.toInt_add, Int.bmod_def]
  omega

/-- Sums are checked correctly until they are so large that what they wrap around to is in
    range. -/
theorem isExact_within_add_iff (hlimit : 0 ≤ limit.toInt) :
    IsExact limit (a.toInt + b.toInt) (within limit (a + b)) ↔
      (a.toInt + b.toInt).natAbs < 2 ^ 64 - limit.toInt := by
  have hlt : limit.toInt < 2 ^ 63 := Int64.toInt_lt limit
  rcases toInt_add_cases a b with ⟨hsize, hsum⟩ | ⟨hlow, hhigh, hsum⟩ | ⟨hlow, hhigh, hsum⟩
  · exact ⟨fun _ => by omega, fun _ => isExact_within hlimit hsum⟩
  · rw [isExact_within_iff hlimit (by omega), hsum]
    omega
  · rw [isExact_within_iff hlimit (by omega), hsum]
    omega

/-! ### Products -/

theorem toInt_ne_zero (ha : a ≠ 0) : a.toInt ≠ 0 := by
  have hzero : (0 : Int64).toInt = 0 := by decide
  rw [← hzero]
  exact mt Int64.toInt_inj.mp ha

/-- If dividing a product by a factor gives the other factor, the product has not wrapped
    around, unless it is the one word that has no negative. -/
theorem toInt_mul_of_div_eq (ha : a ≠ 0) (hdiv : a * b / a = b)
    (hmin : (a * b).toInt ≠ -2 ^ 63) : (a * b).toInt = a.toInt * b.toInt := by
  have hlow := Int64.le_toInt (a * b)
  have hhigh := Int64.toInt_lt (a * b)
  have halow := Int64.le_toInt a
  have hahigh := Int64.toInt_lt a
  -- The exact product differs from the word by a multiple of 2^64 ...
  have hwrap := Int.bmod_add_bdiv (a.toInt * b.toInt) (2 ^ 64)
  rw [← Int64.toInt_mul] at hwrap
  -- ... and by the remainder of the division, which is less than 2^63.
  have hquot : (a * b).toInt.tdiv a.toInt = b.toInt := by
    rw [← toInt_div (divFits_of_natAbs_lt (by omega)), hdiv]
  have hsplit := Int.mul_tdiv_add_tmod (a * b).toInt a.toInt
  rw [hquot] at hsplit
  have hrem : ((a * b).toInt.tmod a.toInt).natAbs < a.toInt.natAbs := by
    rw [Int.natAbs_tmod]
    exact Nat.mod_lt _ (Int.natAbs_pos.mpr (toInt_ne_zero ha))
  omega

/-- Dividing a product that has not wrapped around by a factor gives the other factor. -/
theorem div_eq_of_mulFits (ha : a ≠ 0) (hfits : mulFits a b = true) : a * b / a = b := by
  have hquot : (a * b).toInt.tdiv a.toInt = b.toInt := by
    rw [toInt_mul hfits, Int.mul_tdiv_cancel_left _ (toInt_ne_zero ha)]
  have hdiv : divFits (a * b) a = true := by
    have hlow := Int64.le_toInt b
    have hhigh := Int64.toInt_lt b
    exact holds_iff.mpr ⟨by omega, by omega⟩
  rw [← Int64.toInt_inj, toInt_div hdiv, hquot]

/-- Products that are divided by a factor are checked correctly. -/
theorem isExact_within_mul (hlimit : 0 ≤ limit.toInt) :
    IsExact limit (a.toInt * b.toInt)
      (if a ≠ 0 ∧ a * b / a ≠ b then .error .overflow else within limit (a * b)) := by
  have hlt : limit.toInt < 2 ^ 63 := Int64.toInt_lt limit
  by_cases hle : (a.toInt * b.toInt).natAbs ≤ limit.toInt
  · have hfits : mulFits a b = true := holds_iff.mpr ⟨by omega, by omega⟩
    have hcheck : ¬ (a ≠ 0 ∧ a * b / a ≠ b) := fun h => h.2 (div_eq_of_mulFits h.1 hfits)
    rw [if_neg hcheck]
    exact isExact_within hlimit (toInt_mul hfits)
  · by_cases hcheck : a ≠ 0 ∧ a * b / a ≠ b
    · rw [if_pos hcheck, IsExact, if_neg hle]
    · -- The division has found nothing, and so what is too large has not become small.
      rw [if_neg hcheck, isExact_within_iff hlimit (Int.not_le.mp hle)]
      by_contra hsmall
      have ha : a ≠ 0 := by
        rintro rfl
        rw [show (0 : Int64).toInt = 0 by decide, Int.zero_mul] at hle
        exact hle hlimit
      have hdiv : a * b / a = b := by
        by_contra hne
        exact hcheck ⟨ha, hne⟩
      rw [toInt_mul_of_div_eq ha hdiv (by omega)] at hsmall
      exact hsmall (Int.not_le.mp hle)

end Word

/-! ## Integers and lengths -/

theorem Count.zero_le_max : 0 ≤ Count.max.toInt := by decide

theorem Dimen.zero_le_max : 0 ≤ Dimen.max.toInt := by decide

theorem Count.isExact_multiply (a b : Int64) :
    IsExact Count.max (a.toInt * b.toInt) (Count.multiply a b) :=
  isExact_within_mul Count.zero_le_max

theorem Dimen.isExact_multiply (d : Dimen) (n : Int64) :
    IsExact Dimen.max (d.toInt * n.toInt) (Dimen.multiply d n) := by
  -- Here the product is divided by the second factor.
  have hswapped : IsExact Dimen.max (n.toInt * d.toInt)
      (if n ≠ 0 ∧ n * d / n ≠ d then .error .overflow else within Dimen.max (n * d)) :=
    isExact_within_mul Dimen.zero_le_max
  rw [Int.mul_comm, Int64.mul_comm] at hswapped
  exact hswapped

theorem Count.isExact_add_iff (a b : Int64) :
    IsExact Count.max (a.toInt + b.toInt) (Count.add a b) ↔
      (a.toInt + b.toInt).natAbs < 2 ^ 64 - Count.max.toInt :=
  isExact_within_add_iff Count.zero_le_max

theorem Dimen.isExact_add_iff (d e : Dimen) :
    IsExact Dimen.max (d.toInt + e.toInt) (Dimen.add d e) ↔
      (d.toInt + e.toInt).natAbs < 2 ^ 64 - Dimen.max.toInt :=
  isExact_within_add_iff Dimen.zero_le_max

/-- As soon as one of the summands is a legal length, every sum is checked correctly. -/
theorem Dimen.isExact_add {d : Dimen} (hd : InRange d) (e : Dimen) :
    IsExact Dimen.max (d.toInt + e.toInt) (Dimen.add d e) := by
  have hmax : Dimen.max.toInt = 0x3FFFFFFF := by decide
  have hlow := Int64.le_toInt e
  have hhigh := Int64.toInt_lt e
  rw [inRange_iff] at hd
  exact (isExact_add_iff d e).mpr (by omega)

/-! ## Glue -/

namespace GlueComponent

@[simp] theorem value_normalize (c : GlueComponent) : c.normalize.value = c.value := by
  unfold normalize
  split <;> rfl

theorem order_normalize (c : GlueComponent) :
    c.normalize.order = if c.value = 0 then 0 else c.order := by
  unfold normalize isZero
  by_cases hzero : c.value = 0
  · rw [if_pos (beq_iff_eq.mpr hzero), if_pos hzero]
  · rw [if_neg (mt beq_iff_eq.mp hzero), if_neg hzero]

/-- The component `r` is `n` times the component `c`.  It has the same order, unless it is
    zero. -/
structure IsProduct (c : GlueComponent) (n : Int64) (r : GlueComponent) : Prop where
  value : r.value.toInt = c.value.toInt * n.toInt
  order : r.order = if r.value = 0 then 0 else c.order

theorem isProduct_normalize {c : GlueComponent} {n v : Int64}
    (hv : v.toInt = c.value.toInt * n.toInt) : c.IsProduct n (normalize ⟨v, c.order⟩) where
  value := by rw [value_normalize, hv]
  order := by rw [order_normalize, value_normalize]

end GlueComponent

namespace Glue

/-- The glue `r` is `n` times the glue `g`. -/
structure IsProduct (g : Glue) (n : Int64) (r : Glue) : Prop where
  width : r.width.toInt = g.width.toInt * n.toInt
  stretch : g.stretch.IsProduct n r.stretch
  shrink : g.shrink.IsProduct n r.shrink

/-- The exact products of all three lengths are lengths. -/
def ProductsInRange (g : Glue) (n : Int64) : Prop :=
  (g.width.toInt * n.toInt).natAbs ≤ Dimen.max.toInt ∧
    (g.stretch.value.toInt * n.toInt).natAbs ≤ Dimen.max.toInt ∧
    (g.shrink.value.toInt * n.toInt).natAbs ≤ Dimen.max.toInt

theorem multiply_cases (g : Glue) (n : Int64) :
    (g.ProductsInRange n ∧ ∃ r, g.multiply n = .ok r ∧ g.IsProduct n r) ∨
    (¬ g.ProductsInRange n ∧ g.multiply n = .error .overflow) := by
  unfold multiply mapM
  dsimp only
  -- The first product that is too large ends the multiplication.
  rcases (Dimen.isExact_multiply g.width n).cases with ⟨hw, w, hwok, hwv⟩ | ⟨hw, hwerror⟩
  · rw [hwok]
    rcases (Dimen.isExact_multiply g.stretch.value n).cases with ⟨hs, s, hsok, hsv⟩ | ⟨hs, hserror⟩
    · rw [hsok]
      rcases (Dimen.isExact_multiply g.shrink.value n).cases with ⟨hk, k, hkok, hkv⟩ | ⟨hk, hkerror⟩
      · rw [hkok]
        exact .inl ⟨⟨hw, hs, hk⟩, _, rfl, hwv, GlueComponent.isProduct_normalize hsv,
          GlueComponent.isProduct_normalize hkv⟩
      · rw [hkerror]
        exact .inr ⟨fun h => absurd h.2.2 (Int.not_le.mpr hk), rfl⟩
    · rw [hserror]
      exact .inr ⟨fun h => absurd h.2.1 (Int.not_le.mpr hs), rfl⟩
  · rw [hwerror]
    exact .inr ⟨fun h => absurd h.1 (Int.not_le.mpr hw), rfl⟩

end Glue

/-! ## Checks of products and sums -/

/-- Every product that is too large is found, whatever the factors are: products of integers,
    of lengths, and of all three lengths of a glue. -/
theorem multiply_detects_overflow :
    (∀ a b : Int64, IsExact Count.max (a.toInt * b.toInt) (Count.multiply a b)) ∧
    (∀ (d : Dimen) (n : Int64), IsExact Dimen.max (d.toInt * n.toInt) (Dimen.multiply d n)) ∧
    ∀ (g : Glue) (n : Int64),
      (g.ProductsInRange n → ∃ r, g.multiply n = .ok r ∧ g.IsProduct n r) ∧
      (¬ g.ProductsInRange n → g.multiply n = .error .overflow) := by
  refine ⟨Count.isExact_multiply, Dimen.isExact_multiply, fun g n => ?_⟩
  rcases g.multiply_cases n with ⟨hfits, hok⟩ | ⟨hlarge, herror⟩
  · exact ⟨fun _ => hok, fun h => absurd hfits h⟩
  · exact ⟨fun h => absurd h hlarge, fun _ => herror⟩

/-- A product can wrap around to a small number, and the division that checks it can wrap
    around as well. -/
example : Count.multiply 0x100000000 0x100000001 = .error .overflow ∧
    Count.multiply (-1) Int64.minValue = .error .overflow := by
  decide

/-- A sum that is too large is found if it is not so large that it wraps around to a legal
    number, and otherwise it is not found. -/
theorem add_detects_overflow_iff (a b : Int64) :
    (IsExact Count.max (a.toInt + b.toInt) (Count.add a b) ↔
      (a.toInt + b.toInt).natAbs < 2 ^ 64 - Count.max.toInt) ∧
    (IsExact Dimen.max (a.toInt + b.toInt) (Dimen.add a b) ↔
      (a.toInt + b.toInt).natAbs < 2 ^ 64 - Dimen.max.toInt) :=
  ⟨Count.isExact_add_iff a b, Dimen.isExact_add_iff a b⟩

/-- Twice the largest word is taken for -2, and twice the smallest one for 0. -/
theorem add_wraps_into_range :
    Count.add Int64.maxValue Int64.maxValue = .ok (-2) ∧
    ¬ IsExact Count.max (Int64.maxValue.toInt + Int64.maxValue.toInt)
      (Count.add Int64.maxValue Int64.maxValue) ∧
    Dimen.add Int64.minValue Int64.minValue = .ok 0 ∧
    ¬ IsExact Dimen.max (Int64.minValue.toInt + Int64.minValue.toInt)
      (Dimen.add Int64.minValue Int64.minValue) := by
  have hcount : Count.add Int64.maxValue Int64.maxValue = .ok (-2) := by decide
  have hdimen : Dimen.add Int64.minValue Int64.minValue = .ok 0 := by decide
  refine ⟨hcount, ?_, hdimen, ?_⟩
  · rw [IsExact, if_neg (by decide), hcount]
    exact fun h => by contradiction
  · rw [IsExact, if_neg (by decide), hdimen]
    exact fun h => by contradiction

end TexEngine
