/-
  TexEngine.Proofs.Engine.Scan.DecimalConstant

  Decimal constants: digits, with a point or a comma among them or in front or behind, and
  any number of them.  The integer part is the number that its digits denote, or it is
  refused as soon as it exceeds the largest integer; the fraction is rounded.

  The loop holds the token that it looks at, so it is followed on a list whose first token
  has been read already.  Behind the constant stands a token that is no digit and no point.
-/
import TexEngine.Proofs.Engine.Scan.Dimen
import TexEngine.Proofs.Engine.Upcoming

namespace TexEngine

open Eng

/-- A decimal constant: the digits of the integer part, and the point with the digits
    behind it, if there is one.  The point may be a comma. -/
structure DecimalConstant where
  whole : List (Fin 10)
  fraction : Option (Bool × List (Fin 10))
  nonempty : whole ≠ [] ∨ ∃ comma ds, fraction = some (comma, ds) ∧ ds ≠ []

namespace DecimalConstant

/-- The characters of digits. -/
def digitChars (ds : List (Fin 10)) : List Char :=
  ds.map fun d : Fin 10 => Dimen.digitChar d

/-- The characters of a fraction, with the point. -/
def fractionChars : Option (Bool × List (Fin 10)) → List Char
  | none => []
  | some (comma, ds) => (if comma then ',' else '.') :: digitChars ds

/-- The characters of a constant. -/
def chars (c : DecimalConstant) : List Char :=
  digitChars c.whole ++ fractionChars c.fraction

/-- The tokens of a constant: characters of category other. -/
def tokens (c : DecimalConstant) : TokenList :=
  c.chars.map TokenList.ofChar

/-- The number that digits denote behind a number. -/
def valueFrom (v : Nat) : List (Fin 10) → Nat
  | [] => v
  | d :: ds => valueFrom (10 * v + d) ds

/-- The integer part. -/
def integer (c : DecimalConstant) : Nat :=
  valueFrom 0 c.whole

/-- The digits behind the point. -/
def decimals (c : DecimalConstant) : List Int64 :=
  match c.fraction with
  | none => []
  | some (_, ds) => ds.map fun d : Fin 10 => Int64.ofNat d

/-- The fraction in units of 1/65536, rounded. -/
def frac (c : DecimalConstant) : Int64 :=
  Dimen.roundDecimals c.decimals

theorem le_valueFrom (v : Nat) (ds : List (Fin 10)) : v ≤ valueFrom v ds := by
  induction ds generalizing v with
  | nil => exact Nat.le_refl v
  | cons d ds ih => exact Nat.le_trans (by omega) (ih (10 * v + d))

theorem roundFits_decimals (c : DecimalConstant) :
    Dimen.roundFits c.decimals = true ∧ 0 ≤ c.frac.toInt ∧ c.frac.toInt ≤ 65536 := by
  apply Dimen.roundDecimals_of_digits
  intro d hd
  unfold decimals at hd
  cases hfraction : c.fraction with
  | none =>
    rw [hfraction] at hd
    contradiction
  | some p =>
    rw [hfraction] at hd
    obtain ⟨k, -, rfl⟩ := List.mem_map.mp hd
    rw [Int64.toInt_ofNat_of_lt (by omega)]
    omega

end DecimalConstant

namespace Expander

open DecimalConstant

variable {x : Expander} {e : Machine} {p p' : DecimalPart} {t : Token} {ts : TokenList}

/-! ## Rounds -/

/-- What a character makes of a part of a number: a comma is a point. -/
inductive DecimalPart.Takes : DecimalPart → Char → DecimalPart → Prop where
  | adds {p p' : DecimalPart} {c : Char} (h : p.Adds c p') : Takes p c p'
  | comma {v : Int64} {ds : List Int64} : Takes ⟨v, ds, false⟩ ',' ⟨v, ds, true⟩

theorem DecimalPart.Takes.digit {v : Nat} {ds : List Int64} (d : Fin 10)
    (h : 10 * v + d ≤ 0x7FFFFFFF) :
    Takes ⟨Int64.ofNat v, ds, false⟩ (Dimen.digitChar d) ⟨Int64.ofNat (10 * v + d), ds, false⟩ := by
  have hvalue := digitValue_digitChar d.isLt
  have hadd : Adds ⟨Int64.ofNat v, ds, false⟩ (Dimen.digitChar d) _ :=
    .digit (isDigit_digitChar d.isLt) (by rwa [hvalue])
  rw [hvalue] at hadd
  exact .adds hadd

theorem DecimalPart.Takes.decimal {v : Int64} {ds : List Int64} (d : Fin 10) :
    Takes ⟨v, ds, true⟩ (Dimen.digitChar d) ⟨v, Int64.ofNat d :: ds, true⟩ := by
  have hadd : Adds ⟨v, ds, true⟩ (Dimen.digitChar d) _ := .decimal (isDigit_digitChar d.isLt)
  rw [digitValue_digitChar d.isLt] at hadd
  exact .adds hadd

/-- A round that goes on reads the next token. -/
theorem scans_decimalStep_of_takes (hx : 0 < x.fuel) {c : Char} (h : p.Takes c p')
    (ht : t.isCommand = false) (ts : TokenList) :
    Scans e (x.decimalStep (p, TokenList.ofChar c)) (t :: ts) (.again (p', t)) ts := by
  intro m hm
  obtain ⟨m₁, hread, hm₁⟩ := scans_next? hx (unexpandable_of_not_isCommand _ ht) ts m hm
  refine ⟨m₁, ?_, hm₁⟩
  cases h with
  | adds h => exact decimalStep_of_adds h hm.frozen hread
  | comma =>
    have hdigit : digit? (TokenList.ofChar ',') 10 = none := by decide
    have hpoint : isDecimalPoint (TokenList.ofChar ',') = true := by decide
    unfold decimalStep
    dsimp only
    rw [hdigit, bind_of_ok (isFrozen_apply m)]
    simp only [hpoint, Bool.not_false, Bool.and_self, if_true]
    rw [bind_of_ok (pure_apply _ m)]
    dsimp only
    rw [bind_of_ok hread]
    rfl

/-- A digit that makes the integer part too large is refused. -/
theorem refuses_decimalStep (v : Nat) (hv : v ≤ 0x7FFFFFFF) (ds : List Int64) (d : Fin 10)
    (hlarge : 0x7FFFFFFF < 10 * v + d) (ts : TokenList) :
    Refuses e (x.decimalStep (⟨Int64.ofNat v, ds, false⟩, TokenList.ofChar (Dimen.digitChar d))) ts
      { kind := .numberTooBig } := by
  intro m hm
  have hdigit : digit? (TokenList.ofChar (Dimen.digitChar d)) 10 = some (Int64.ofNat d) := by
    rw [digit?_ofChar (isDigit_digitChar d.isLt), digitValue_digitChar d.isLt]
  have hgt : Int64.ofNat (10 * v + d) > Count.max := by
    rw [Count.max_eq_ofNat, gt_iff_lt, Int64.ofNat_lt_iff_lt (by decide) (by omega)]
    exact hlarge
  obtain ⟨m₁, hobserve⟩ : ∃ m₁, observe (Word.mulFits (Int64.ofNat v) 10 &&
      Word.addFits (Int64.ofNat v * 10) (Int64.ofNat d)) m = .ok () m₁ := by
    unfold observe
    split <;> exact ⟨_, rfl⟩
  refine ⟨m₁, ?_⟩
  unfold decimalStep
  dsimp only
  rw [hdigit, bind_of_ok (isFrozen_apply m), hm.frozen]
  dsimp only
  rw [if_neg Bool.false_ne_true, bind_of_ok hobserve, ofNat_mul_ten_add, if_pos hgt]
  rfl

/-- What ends a constant: no digit and no point.  A space belongs to the constant, any other
    token is put back. -/
theorem scans_decimalStep_stop (p : DecimalPart) (hdigit : digit? t 10 = none)
    (hpoint : isDecimalPoint t = false) (ts : TokenList) :
    Scans e (x.decimalStep (p, t)) ts (.done p) (if t.hasCat .space then ts else t :: ts) := by
  intro m hm
  unfold decimalStep
  dsimp only
  rw [hdigit, bind_of_ok (isFrozen_apply m)]
  simp only [hpoint, Bool.and_false, Bool.false_eq_true, if_false]
  rw [bind_of_ok (pure_apply _ m)]
  cases hspace : t.hasCat .space with
  | true => exact ⟨m, rfl, hm⟩
  | false =>
    simp only [Bool.false_eq_true, if_false]
    rw [bind_of_ok (push_apply m (by simp))]
    exact ⟨m.feed [t], rfl, hm.feed [t]⟩

/-! ## The loop -/

/-- What characters make of a part of a number. -/
inductive DecimalPart.TakesAll : DecimalPart → List Char → DecimalPart → Prop where
  | nil (p : DecimalPart) : TakesAll p [] p
  | cons {p p' p'' : DecimalPart} {c : Char} {cs : List Char} (h : p.Takes c p')
      (rest : TakesAll p' cs p'') : TakesAll p (c :: cs) p''

namespace DecimalPart.TakesAll

theorem digits {ds : List (Fin 10)} {v : Nat} (hvalue : valueFrom v ds ≤ 0x7FFFFFFF)
    {cs : List Char} (h : TakesAll ⟨Int64.ofNat (valueFrom v ds), [], false⟩ cs p) :
    TakesAll ⟨Int64.ofNat v, [], false⟩ (digitChars ds ++ cs) p := by
  induction ds generalizing v with
  | nil => exact h
  | cons d ds ih =>
    have hle : 10 * v + d ≤ 0x7FFFFFFF := Nat.le_trans (le_valueFrom _ ds) hvalue
    exact .cons (.digit d hle) (ih hvalue h)

theorem decimals (v : Int64) (fs : List Int64) (ds : List (Fin 10)) :
    TakesAll ⟨v, fs, true⟩ (digitChars ds)
      ⟨v, (ds.map fun d : Fin 10 => Int64.ofNat d).reverse ++ fs, true⟩ := by
  induction ds generalizing fs with
  | nil => exact .nil _
  | cons d ds ih =>
    have hrest := ih (Int64.ofNat d :: fs)
    rw [List.map_cons, List.reverse_cons, List.append_assoc]
    exact .cons (.decimal d) hrest

/-- The characters of a constant whose integer part is not too large. -/
theorem chars (c : DecimalConstant) (hinteger : c.integer ≤ 0x7FFFFFFF) :
    TakesAll {} c.chars ⟨Int64.ofNat c.integer, c.decimals.reverse, c.fraction.isSome⟩ := by
  apply digits hinteger
  cases hfraction : c.fraction with
  | none =>
    rw [DecimalConstant.decimals, hfraction]
    exact .nil _
  | some f =>
    obtain ⟨comma, ds⟩ := f
    have hrest := decimals (Int64.ofNat c.integer) [] ds
    rw [List.append_nil] at hrest
    rw [DecimalConstant.decimals, hfraction]
    cases comma with
    | false => exact .cons (.adds .point) hrest
    | true => exact .cons .comma hrest

end DecimalPart.TakesAll

/-- A constant is read up to the token behind it. -/
theorem scans_iterate_decimalStep (hx : 0 < x.fuel) {cs : List Char} (h : p.TakesAll cs p')
    (ht : t.isCommand = false) {n : Nat} {a : DecimalPart} {vs : TokenList}
    (hend : Scans e (iterate x.decimalStep n (p', t)) ts a vs) {u : Token} {us : TokenList}
    (hinput : cs.map TokenList.ofChar ++ t :: ts = u :: us) :
    Scans e (iterate x.decimalStep (n + cs.length) (p, u)) us a vs := by
  induction h generalizing u us with
  | nil p =>
    injection hinput with hu hus
    rw [← hu, ← hus]
    exact hend
  | @cons p p' p'' c cs h _ ih =>
    injection hinput with hu hus
    subst hu
    -- The loop looks one token ahead: the character behind `c`, or `t`.
    obtain ⟨v, vs, hrest, hv⟩ : ∃ v vs, us = v :: vs ∧ v.isCommand = false := by
      cases cs with
      | nil => exact ⟨t, ts, hus.symm, ht⟩
      | cons d ds => exact ⟨_, _, hus.symm, not_isCommand_ofChar d⟩
    rw [hrest, List.length_cons, ← Nat.add_assoc]
    exact (scans_decimalStep_of_takes hx h hv vs).iterate_again (ih hend (hus.trans hrest))

/-- Digits that denote too large a number are refused. -/
theorem refuses_iterate_decimalStep (hx : 0 < x.fuel) {ds : List (Fin 10)} {v : Nat}
    (hv : v ≤ 0x7FFFFFFF) (hlarge : 0x7FFFFFFF < valueFrom v ds) (n : Nat) {u : Token}
    {us : TokenList} (hinput : (digitChars ds).map TokenList.ofChar ++ ts = u :: us) :
    Refuses e (iterate x.decimalStep (n + ds.length) (⟨Int64.ofNat v, [], false⟩, u)) us
      { kind := .numberTooBig } := by
  induction ds generalizing v u us with
  | nil => exact absurd hlarge (by rw [valueFrom]; omega)
  | cons d ds ih =>
    injection hinput with hu hus
    rw [← hu, List.length_cons, ← Nat.add_assoc]
    by_cases hnow : 0x7FFFFFFF < 10 * v + d
    · exact (refuses_decimalStep v hv [] d hnow us).iterate _
    · -- The number is not too large yet, so more digits follow.
      have hle : 10 * v + d ≤ 0x7FFFFFFF := by omega
      obtain ⟨d', ds', rfl⟩ : ∃ d' ds', ds = d' :: ds' := by
        cases ds with
        | nil => exact absurd hlarge hnow
        | cons d' ds' => exact ⟨d', ds', rfl⟩
      rw [← hus]
      exact (scans_decimalStep_of_takes hx (.digit d hle)
        (not_isCommand_ofChar _) _).iterate_refuses (ih hle hlarge rfl)

/-! ## Constants -/

/-- A constant is read as its integer part and its fraction, and a space behind it as well. -/
theorem scans_scanDecimal (c : DecimalConstant) (hinteger : c.integer ≤ 0x7FFFFFFF)
    (hfuel : c.chars.length < x.fuel) (ht : t.isCommand = false) (hdigit : digit? t 10 = none)
    (hpoint : isDecimalPoint t = false) {u : Token} {us : TokenList}
    (hinput : c.tokens ++ t :: ts = u :: us) :
    Scans e (x.scanDecimal u) us (Int64.ofNat c.integer, c.frac)
      (if t.hasCat .space then ts else t :: ts) := by
  obtain ⟨n, hn⟩ : ∃ n, x.fuel = n + 1 + c.chars.length := ⟨x.fuel - c.chars.length - 1, by omega⟩
  have hx : 0 < x.fuel := by omega
  have hloop := scans_iterate_decimalStep (e := e) hx (.chars c hinteger) ht
    ((scans_decimalStep_stop _ hdigit hpoint ts).iterate_done n) hinput
  have hfits := c.roundFits_decimals.1
  rw [scanDecimal_eq_iterate, hn]
  apply hloop.bind
  dsimp only
  rw [List.reverse_reverse]
  exact Scans.bind (.of_apply fun m _ => observe_of_fits hfits m) (.pure _ _)

/-- A constant whose integer part is too large is refused. -/
theorem refuses_scanDecimal (c : DecimalConstant) (hinteger : 0x7FFFFFFF < c.integer)
    (hfuel : c.chars.length < x.fuel) {u : Token} {us : TokenList}
    (hinput : c.tokens ++ ts = u :: us) :
    Refuses e (x.scanDecimal u) us { kind := .numberTooBig } := by
  have hlength : c.whole.length ≤ c.chars.length := by
    rw [chars, digitChars, List.length_append, List.length_map]
    omega
  obtain ⟨n, hn⟩ : ∃ n, x.fuel = n + c.whole.length := ⟨x.fuel - c.whole.length, by omega⟩
  rw [tokens, chars, List.map_append, List.append_assoc] at hinput
  have hx : 0 < x.fuel := by omega
  rw [scanDecimal_eq_iterate, hn]
  exact (refuses_iterate_decimalStep hx (Nat.zero_le _) hinteger n hinput).bind _

end Expander

end TexEngine
