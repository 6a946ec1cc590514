/-
  TexEngine.Proofs.Engine.Scan.Dimen

  Reading lengths that are written in decimal notation with a unit.

  The number is read character by character.  `DecimalPart.Adds` says what one
  character makes of the part read so far, and `DecimalPart.AddsAll` what a text
  makes of it; the loop of `scanDecimal` follows them.  The unit is points, or fil
  with further letters l behind it, and the space behind it is swallowed.

  The main statement is `scanDimenFrom_component`: the text of a length, without its
  sign, is read as that length.
-/
import TexEngine.Engine.Scan.Dimen
import TexEngine.Proofs.Arith.Decimal
import TexEngine.Proofs.Engine.Scan.Keyword

namespace TexEngine

/-! ## Digits -/

theorem isDigit_digitChar {d : Nat} (hd : d < 10) : (Dimen.digitChar d).isDigit = true := by
  have hall : ∀ d < 10, (Dimen.digitChar d).isDigit = true := by decide
  exact hall d hd

theorem digitValue_digitChar {d : Nat} (hd : d < 10) : digitValue (Dimen.digitChar d) = d := by
  have hall : ∀ d < 10, digitValue (Dimen.digitChar d) = d := by decide
  exact hall d hd

theorem isDigit_of_mem_toDigits (n : Nat) : ∀ c ∈ Nat.toDigits 10 n, c.isDigit = true := by
  intro c hc
  exact Nat.isDigit_of_mem_toDigits (by omega) (by omega) hc

namespace Expander

open Eng

variable {x : Expander} {m m' : Machine}

/-! ## Decimal numbers -/

/-- What a character makes of the part of a decimal number in front of it. -/
inductive DecimalPart.Adds : DecimalPart → Char → DecimalPart → Prop where
  | digit {v : Nat} {ds : List Int64} {c : Char} (hc : c.isDigit = true)
      (hv : 10 * v + digitValue c ≤ 0x7FFFFFFF) :
      Adds ⟨Int64.ofNat v, ds, false⟩ c ⟨Int64.ofNat (10 * v + digitValue c), ds, false⟩
  | point {v : Int64} {ds : List Int64} : Adds ⟨v, ds, false⟩ '.' ⟨v, ds, true⟩
  | decimal {v : Int64} {ds : List Int64} {c : Char} (hc : c.isDigit = true) :
      Adds ⟨v, ds, true⟩ c ⟨v, Int64.ofNat (digitValue c) :: ds, true⟩

/-- What a text makes of the part of a decimal number in front of it. -/
inductive DecimalPart.AddsAll : DecimalPart → List Char → DecimalPart → Prop where
  | nil (p : DecimalPart) : AddsAll p [] p
  | cons {p p' p'' : DecimalPart} {c : Char} {cs : List Char} (h : p.Adds c p')
      (hrest : AddsAll p' cs p'') : AddsAll p (c :: cs) p''

namespace DecimalPart

/-- Digits in front of the point. -/
theorem addsAll_digits {p : DecimalPart} {cs : List Char} (ds : List Char)
    (hds : ∀ d ∈ ds, d.isDigit = true) (v : Nat)
    (hvalue : Nat.ofDigitChars 10 ds v ≤ 0x7FFFFFFF)
    (h : AddsAll ⟨Int64.ofNat (Nat.ofDigitChars 10 ds v), [], false⟩ cs p) :
    AddsAll ⟨Int64.ofNat v, [], false⟩ (ds ++ cs) p := by
  induction ds generalizing v with
  | nil => exact h
  | cons d ds ih =>
    rw [List.forall_mem_cons] at hds
    have hcons : Nat.ofDigitChars 10 (d :: ds) v = Nat.ofDigitChars 10 ds (10 * v + digitValue d) :=
      Nat.ofDigitChars_cons
    rw [hcons] at hvalue h
    exact .cons (.digit hds.1 (Nat.le_trans (le_ofDigitChars ds _) hvalue))
      (ih hds.2 _ hvalue h)

/-- Digits behind the point. -/
theorem addsAll_decimals (v : Int64) (fs : List Nat) (hfs : ∀ d ∈ fs, d < 10) (ds : List Int64) :
    AddsAll ⟨v, ds, true⟩ (fs.map Dimen.digitChar)
      ⟨v, (fs.map Int64.ofNat).reverse ++ ds, true⟩ := by
  induction fs generalizing ds with
  | nil => exact .nil _
  | cons f fs ih =>
    rw [List.forall_mem_cons] at hfs
    have hadd : Adds ⟨v, ds, true⟩ (Dimen.digitChar f) ⟨v, Int64.ofNat f :: ds, true⟩ := by
      have h : Adds ⟨v, ds, true⟩ (Dimen.digitChar f) _ := .decimal (isDigit_digitChar hfs.1)
      rwa [digitValue_digitChar hfs.1] at h
    have hrest := ih hfs.2 (Int64.ofNat f :: ds)
    rw [List.map_cons, List.map_cons, List.reverse_cons, List.append_assoc]
    exact .cons hadd hrest

end DecimalPart

/-- One round of `scanDecimal`. -/
def decimalStep (x : Expander) :
    DecimalPart × Token → Eng (Step (DecimalPart × Token) DecimalPart) :=
  fun (p, t) => do
    let p? : Option DecimalPart ←
      match digit? t 10, ← isFrozen with
      | some d, false =>
        if p.inFraction then pure (some { p with digits := d :: p.digits })
        else
          observe (Word.mulFits p.integer 10 && Word.addFits (p.integer * 10) d)
          let integer := p.integer * 10 + d
          if integer > Count.max then fail .numberTooBig []
          else pure (some { p with integer })
      | _, _ =>
        if !p.inFraction && isDecimalPoint t then pure (some { p with inFraction := true })
        else pure none
    match p? with
    | none =>
      unless t.hasCat .space do push [t]
      return .done p
    | some p =>
      match ← x.next? with
      | some t => return .again (p, t)
      | none => return .done p

theorem scanDecimal_eq_iterate (x : Expander) (t : Token) :
    x.scanDecimal t = (do
      let p ← iterate x.decimalStep x.fuel (({} : DecimalPart), t)
      observe (Dimen.roundFits p.digits.reverse)
      return (p.integer, Dimen.roundDecimals p.digits.reverse)) := rfl

theorem decimalStep_of_adds {p p' : DecimalPart} {c : Char} (h : p.Adds c p') {t : Token}
    (hfrozen : m.frozen = false) (hnext : x.next? m = .ok (some t) m') :
    x.decimalStep (p, TokenList.ofChar c) m = .ok (.again (p', t)) m' := by
  unfold decimalStep
  dsimp only
  -- A character adds to the number in one of three ways; in each, the round reads the next token
  -- and goes on with it.
  cases h with
  | @digit v ds c hc hv =>
    rw [digit?_ofChar hc, bind_of_ok (isFrozen_apply m), hfrozen]
    dsimp only
    rw [if_neg Bool.false_ne_true, bind_of_ok (observe_of_fits (mulFits_ten_addFits hv) m),
      ofNat_mul_ten_add, if_neg (not_gt_max_ofNat hv), bind_of_ok (pure_apply _ m)]
    dsimp only
    rw [bind_of_ok hnext]
    rfl
  | point =>
    have hdigit : digit? (TokenList.ofChar '.') 10 = none := by decide
    have hpoint : isDecimalPoint (TokenList.ofChar '.') = true := by decide
    rw [hdigit, bind_of_ok (isFrozen_apply m)]
    simp only [hpoint, Bool.not_false, Bool.and_self, if_true]
    rw [bind_of_ok (pure_apply _ m)]
    dsimp only
    rw [bind_of_ok hnext]
    rfl
  | decimal hc =>
    rw [digit?_ofChar hc, bind_of_ok (isFrozen_apply m), hfrozen]
    simp only [if_true]
    rw [bind_of_ok (pure_apply _ m)]
    dsimp only
    rw [bind_of_ok hnext]
    rfl

/-- Behind the point, the number ends at the first token that is no digit. -/
theorem decimalStep_stop (x : Expander) {p : DecimalPart} {t : Token} (hp : p.inFraction = true)
    (ht : digit? t 10 = none) (hspace : t.hasCat .space = false) (m : Machine) :
    x.decimalStep (p, t) m = .ok (.done p) (m.feed [t]) := by
  unfold decimalStep
  dsimp only
  rw [ht, bind_of_ok (isFrozen_apply m)]
  simp only [hp, Bool.not_true, Bool.false_and, Bool.false_eq_true, if_false]
  rw [bind_of_ok (pure_apply _ m)]
  simp only [hspace, Bool.false_eq_true, if_false]
  rw [bind_of_ok (push_apply m (by simp))]
  rfl

/-- A text that a number can go on with is read up to the token behind it. -/
theorem iterate_decimalStep {p p' : DecimalPart} {cs : List Char} (h : p.AddsAll cs p')
    (hx : 0 < x.fuel) {t : Token} (ht : t.isCommand = false) (ts : TokenList) (m : Machine)
    (n : Nat) (u : Token) (us : TokenList) (hinput : cs.map TokenList.ofChar ++ t :: ts = u :: us) :
    iterate x.decimalStep (n + cs.length) (p, u) (m.ready.feed us) =
      iterate x.decimalStep n (p', t) (m.ready.feed ts) := by
  induction h generalizing u us with
  | nil p =>
    injection hinput with hu hus
    rw [hu, hus]
    rfl
  | @cons p p' p'' c cs hadd _ ih =>
    injection hinput with hu hus
    subst hu
    -- The loop looks one token ahead: the character behind `c`, or `t`.
    obtain ⟨v, vs, hrest, hv⟩ : ∃ v vs, us = v :: vs ∧ v.isCommand = false := by
      cases cs with
      | nil => exact ⟨t, ts, hus.symm, ht⟩
      | cons d ds => exact ⟨_, _, hus.symm, not_isCommand_ofChar d⟩
    have hread := x.next?_feed_of_not_isCommand hx m hv vs
    rw [List.length_cons, ← Nat.add_assoc, hrest,
      iterate_of_again (decimalStep_of_adds hadd rfl hread)]
    exact ih v vs (hus.trans hrest)

/-- A decimal number is read up to the token behind it. -/
theorem scanDecimal_feed {p : DecimalPart} {c : Char} {cs : List Char}
    (h : DecimalPart.AddsAll {} (c :: cs) p) (hp : p.inFraction = true)
    (hfits : Dimen.roundFits p.digits.reverse = true) (hfuel : cs.length + 2 ≤ x.fuel)
    {t : Token} (ht : digit? t 10 = none)
    (hspace : t.hasCat .space = false) (hcommand : t.isCommand = false) (ts : TokenList)
    (m : Machine) :
    x.scanDecimal (TokenList.ofChar c) (m.ready.feed (cs.map TokenList.ofChar ++ t :: ts)) =
      .ok (p.integer, Dimen.roundDecimals p.digits.reverse) (m.ready.feed (t :: ts)) := by
  obtain ⟨n, hn⟩ := Nat.exists_eq_add_of_le' hfuel
  have hrounds : x.fuel = (n + 1) + (c :: cs).length := by
    rw [List.length_cons]
    omega
  have hrun := iterate_decimalStep (x := x) h (by omega) hcommand ts m (n + 1)
    (TokenList.ofChar c) (cs.map TokenList.ofChar ++ t :: ts) rfl
  have hloop : iterate x.decimalStep x.fuel (({} : DecimalPart), TokenList.ofChar c)
      (m.ready.feed (cs.map TokenList.ofChar ++ t :: ts)) = .ok p (m.ready.feed (t :: ts)) := by
    rw [hrounds, hrun, iterate_of_done (x.decimalStep_stop hp ht hspace _), Machine.feed_feed]
    rfl
  rw [scanDecimal_eq_iterate, bind_of_ok hloop, bind_of_ok (observe_of_fits hfits _)]
  rfl

/-- The text of a number of units of 1/65536, in decimal notation. -/
def decimalChars (a : Nat) : List Char :=
  Nat.toDigits 10 (a / 65536) ++ '.' :: (Dimen.fractionOf a).map Dimen.digitChar

theorem length_decimalChars {a : Nat} (ha : a < 2 ^ 30) : (decimalChars a).length ≤ 11 := by
  have hwhole : (Nat.toDigits 10 (a / 65536)).length ≤ 5 :=
    (Nat.length_toDigits_le_iff (by omega) (by omega)).mpr (by omega)
  have hfraction : (Dimen.fractionOf a).length ≤ 5 := Dimen.length_fractionValues 5 _ 10
  rw [decimalChars, List.length_append, List.length_cons, List.length_map]
  omega

/-- The text of a number begins with a digit. -/
theorem exists_decimalChars_eq_cons (a : Nat) :
    ∃ c cs, decimalChars a = c :: cs ∧ c.isDigit = true := by
  obtain ⟨c, cs, hcons⟩ :=
    List.exists_cons_of_ne_nil (Nat.toDigits_ne_nil (n := a / 65536) (b := 10))
  refine ⟨c, cs ++ '.' :: (Dimen.fractionOf a).map Dimen.digitChar, ?_, ?_⟩
  · rw [decimalChars, hcons, List.cons_append]
  · exact isDigit_of_mem_toDigits _ c (hcons ▸ List.mem_cons_self)

theorem addsAll_decimalChars {a : Nat} (ha : a < 2 ^ 30) :
    DecimalPart.AddsAll {} (decimalChars a)
      ⟨Int64.ofNat (a / 65536), ((Dimen.fractionOf a).map Int64.ofNat).reverse, true⟩ := by
  have hvalue : Nat.ofDigitChars 10 (Nat.toDigits 10 (a / 65536)) 0 = a / 65536 :=
    Nat.ofDigitChars_ten_toDigits
  have hfraction := DecimalPart.addsAll_decimals (Int64.ofNat (a / 65536)) (Dimen.fractionOf a)
    (Dimen.writes_fractionOf a).digits []
  rw [List.append_nil] at hfraction
  apply DecimalPart.addsAll_digits _ (isDigit_of_mem_toDigits _) 0
  · rw [hvalue]
    omega
  · rw [hvalue]
    exact .cons .point hfraction

/-- The text of a number is read as its integer part and its fraction. -/
theorem scanDecimal_decimalChars {a : Nat} (ha : a < 2 ^ 30) {c : Char} {cs : List Char}
    (hchars : decimalChars a = c :: cs) (hfuel : 16 ≤ x.fuel) {t : Token}
    (ht : digit? t 10 = none) (hspace : t.hasCat .space = false) (hcommand : t.isCommand = false)
    (ts : TokenList) (m : Machine) :
    x.scanDecimal (TokenList.ofChar c) (m.ready.feed (cs.map TokenList.ofChar ++ t :: ts)) =
      .ok (Int64.ofNat (a / 65536), Int64.ofNat (a % 65536)) (m.ready.feed (t :: ts)) := by
  have hadds := addsAll_decimalChars ha
  have hlength := length_decimalChars ha
  have hdigits : ∀ d ∈ (Dimen.fractionOf a).map Int64.ofNat, 0 ≤ d.toInt ∧ d.toInt ≤ 9 := by
    intro d hd
    obtain ⟨k, hk, rfl⟩ := List.mem_map.mp hd
    have hlt := (Dimen.writes_fractionOf a).digits k hk
    rw [Int64.toInt_ofNat_of_lt (by omega)]
    omega
  have hfits := (Dimen.roundDecimals_of_digits hdigits).1
  rw [hchars] at hadds hlength
  rw [List.length_cons] at hlength
  rw [← List.reverse_reverse ((Dimen.fractionOf a).map Int64.ofNat)] at hfits
  rw [scanDecimal_feed hadds rfl hfits (by omega) ht hspace hcommand]
  dsimp only
  rw [List.reverse_reverse, Dimen.roundDecimals_fractionOf]

/-! ## Units -/

/-- What comes next ends a unit; `m'` is the machine behind the space that belongs
    to the unit, if there is one.  No letter l follows, and a look for one changes
    nothing. -/
structure EndsUnit (x : Expander) (m m' : Machine) : Prop where
  skip : x.skipOptionalSpace m = .ok () m'
  skip_of_no_letter : ∃ n, x.scanKeyword "l" m = .ok false n ∧ x.skipOptionalSpace n = .ok () m'

theorem Ends.endsUnit (h : x.Ends m m') (hx : 0 < x.fuel) : x.EndsUnit m m' :=
  ⟨h.skipOptionalSpace, m', h.scanKeyword "l" 108 [] rfl hx, h.again.skipOptionalSpace⟩

theorem endsUnit_space (hx : 1 < x.fuel) {c : CharCode} (hc : Misses 108 (.other c)) (m : Machine)
    (ts : TokenList) :
    x.EndsUnit (m.ready.feed (.space :: .other c :: ts)) (m.ready.feed (.other c :: ts)) := by
  have hskip := skipOptionalSpace_space (x := x) (by omega) m (.other c :: ts)
  exact ⟨hskip, _, scanKeyword_of_misses_space "l" 108 [] rfl (by decide) hx hc m ts, hskip⟩

/-- The text of a unit: points, or an order of infinity. -/
def unitChars (order : Nat) : List Char :=
  if order = 0 then ['p', 't'] else 'f' :: 'i' :: List.replicate order 'l'

theorem arith_ok {α : Type} (a : α) (m : Machine) : arith (.ok a) m = .ok a m := rfl

/-- There is no internal unit where no letter e follows. -/
theorem scanInternalUnit_of_misses (hx : 0 < x.fuel) {c : CharCode} (hc : Misses 101 (.other c))
    (integer frac : Int64) (m : Machine) (ts : TokenList) :
    x.scanInternalUnit integer frac (m.ready.feed (.other c :: ts)) =
      .ok none (m.ready.feed (.other c :: ts)) := by
  have hread := x.nextNonSpace?_of_some hx
    (x.next?_feed_of_not_isCommand hx m (t := .other c) rfl ts) hc.not_space
  have hem := scanKeyword_of_misses "em" 101 [109] rfl hx hc m ts
  have hex := scanKeyword_of_misses "ex" 101 [120] rfl hx hc m ts
  unfold scanInternalUnit
  rw [bind_of_ok hread]
  dsimp only
  rw [bind_of_ok (quantity?_of_not_isCommand rfl _)]
  dsimp only [Option.filter]
  rw [bind_of_ok (push_feed _ _ _), List.singleton_append, bind_of_ok hem]
  simp only [Bool.false_eq_true, if_false]
  rw [bind_of_ok hex]
  rfl

/-- A number of points. -/
theorem scanTrueUnit_points (hx : 2 < x.fuel) {integer frac : Int64}
    (hinteger : ¬ integer ≥ 0x4000) (hfits : Dimen.partsFits integer frac = true) (m : Machine)
    (ts : TokenList) :
    x.scanTrueUnit integer frac (m.ready.feed (.other 112 :: .other 116 :: ts)) =
      .ok (integer * Dimen.unity + frac) (m.ready.feed ts) := by
  -- The p is no t of "true", and so is given back; "pt" is the first of the units that are tried.
  have htrue := scanKeyword_of_misses (x := x) "true" 116 [114, 117, 101]
    rfl (by omega) (c := 112) ⟨by decide, rfl⟩ m (.other 116 :: ts)
  have hpt : x.scanKeyword "pt" (m.ready.feed (.other 112 :: .other 116 :: ts)) =
      .ok true (m.ready.feed ts) :=
    scanKeyword_feed "pt" [112, 116] rfl (by decide) hx m ts
  have hunit : x.scanPhysicalUnit Dimen.PhysicalUnit.all
      (m.ready.feed (.other 112 :: .other 116 :: ts)) =
      .ok (some .point) (m.ready.feed ts) := by
    rw [Dimen.PhysicalUnit.all, scanPhysicalUnit, Dimen.PhysicalUnit.keyword, bind_of_ok hpt]
    rfl
  have hscale : Dimen.scaleUnit integer frac .point = .ok (integer * Dimen.unity + frac) := by
    show Dimen.ofParts integer frac = _
    rw [Dimen.ofParts, if_neg hinteger]
  unfold scanTrueUnit
  rw [bind_of_ok htrue]
  simp only [Bool.false_eq_true, if_false]
  rw [bind_of_ok (pure_apply _ _)]
  dsimp only
  rw [bind_of_ok hunit]
  dsimp only
  have hexact : Dimen.scaleUnitFits integer frac .point = true := hfits
  rw [bind_of_ok (observe_of_fits hexact _), hscale, arith_ok]

/-- Letters l are counted, up to `n` of them.  If there are fewer, something that is
    no letter l has been looked at. -/
theorem scanOrder_replicate (hx : 1 < x.fuel) {m' : Machine} {ts : TokenList}
    (hend : x.EndsUnit (m.ready.feed ts) m') {k n : Nat} (hk : k ≤ n) :
    ∃ m₁, x.scanOrder n (m.ready.feed (List.replicate k (.other 108) ++ ts)) = .ok k m₁ ∧
      x.skipOptionalSpace m₁ = .ok () m' := by
  induction n generalizing k with
  | zero =>
    obtain rfl : k = 0 := by omega
    exact ⟨_, rfl, hend.skip⟩
  | succ n ih =>
    cases k with
    | zero =>
      -- Fewer letters than possible: one more is looked for, in vain.
      obtain ⟨m₁, hmiss, hskip⟩ := hend.skip_of_no_letter
      refine ⟨m₁, ?_, hskip⟩
      rw [scanOrder, List.replicate_zero, List.nil_append, bind_of_ok hmiss]
      rfl
    | succ k =>
      obtain ⟨m₁, horder, hskip⟩ := ih (Nat.le_of_succ_le_succ hk)
      have hletter : x.scanKeyword "l"
          (m.ready.feed (List.replicate (k + 1) (.other 108) ++ ts)) =
          .ok true (m.ready.feed (List.replicate k (.other 108) ++ ts)) :=
        scanKeyword_feed "l" [108] rfl (by decide) hx m _
      refine ⟨m₁, ?_, hskip⟩
      rw [scanOrder, bind_of_ok hletter]
      simp only [if_true]
      rw [bind_of_ok horder]
      rfl

theorem scanInfiniteUnit_of_misses (hx : 0 < x.fuel) {c : CharCode} (hc : Misses 102 (.other c))
    (integer frac : Int64) (m : Machine) (ts : TokenList) :
    x.scanInfiniteUnit integer frac (m.ready.feed (.other c :: ts)) =
      .ok none (m.ready.feed (.other c :: ts)) := by
  have hfil := scanKeyword_of_misses "fil" 102 [105, 108] rfl hx hc m ts
  unfold scanInfiniteUnit
  rw [bind_of_ok hfil]
  rfl

/-- A number of fil, fill or filll. -/
theorem scanInfiniteUnit_fil (hx : 3 < x.fuel) {integer frac : Int64}
    (hinteger : ¬ integer ≥ 0x4000) (hfits : Dimen.partsFits integer frac = true) {k : Nat}
    (hk : k ≤ 2) {m' : Machine} {ts : TokenList} (hend : x.EndsUnit (m.ready.feed ts) m') :
    ∃ m₁, x.scanInfiniteUnit integer frac
        (m.ready.feed (.other 102 :: .other 105 :: List.replicate (k + 1) (.other 108) ++ ts)) =
      .ok (some ⟨integer * Dimen.unity + frac, k + 1⟩) m₁ ∧
      x.skipOptionalSpace m₁ = .ok () m' := by
  obtain ⟨m₁, horder, hskip⟩ := scanOrder_replicate (by omega) hend hk
  have hfil : x.scanKeyword "fil"
      (m.ready.feed (.other 102 :: .other 105 :: List.replicate (k + 1) (.other 108) ++ ts)) =
      .ok true (m.ready.feed (List.replicate k (.other 108) ++ ts)) :=
    scanKeyword_feed "fil" [102, 105, 108] rfl (by decide) hx m _
  refine ⟨m₁, ?_, hskip⟩
  unfold scanInfiniteUnit
  rw [bind_of_ok hfil]
  simp only [if_true]
  rw [bind_of_ok horder, if_neg hinteger, bind_of_ok (observe_of_fits hfits _)]
  rfl

/-! ## Signed lengths -/

/-- A number with its sign. -/
def signed (neg : Bool) (a : Nat) : Int64 :=
  if neg then -Int64.ofNat a else Int64.ofNat a

theorem inRange_signed (neg : Bool) {a : Nat} (ha : a < 2 ^ 30) : Dimen.InRange (signed neg a) := by
  have hmax : Dimen.max.toInt = 2 ^ 30 - 1 := by decide
  have hmin : (-Dimen.max).toInt = -(2 ^ 30 - 1) := by decide
  unfold Dimen.InRange signed
  rw [Int64.le_iff_toInt_le, Int64.le_iff_toInt_le, hmax, hmin]
  cases neg with
  | false =>
    rw [if_neg Bool.false_ne_true, Int64.toInt_ofNat_of_lt (by omega)]
    omega
  | true =>
    rw [if_pos rfl, Int64.toInt_neg_ofNat_of_le (by omega)]
    omega

/-- What `scanUnits` makes of a component once its unit has been read. -/
def finishUnits (x : Expander) (neg : Bool) (c : GlueComponent) : Eng GlueComponent := do
  x.skipOptionalSpace
  observe (!neg || Word.negFits c.value)
  let c := if neg then { c with value := -c.value } else c
  arith (Dimen.check c.value)
  return c

/-- Reads a unit that is finite. -/
def finiteUnits (x : Expander) (neg : Bool) (integer frac : Int64) : Eng GlueComponent := do
  match ← x.scanInternalUnit integer frac with
  | some d => x.finishUnits neg ⟨d, 0⟩
  | none =>
    let d ← x.scanTrueUnit integer frac
    x.finishUnits neg ⟨d, 0⟩

/-- Infinite units are looked for first. -/
theorem scanUnits_eq (x : Expander) (neg : Bool) (integer frac : Int64) (infinite : Bool) :
    x.scanUnits neg integer frac infinite =
      if infinite then do
        match ← x.scanInfiniteUnit integer frac with
        | some c => x.finishUnits neg c
        | none => x.finiteUnits neg integer frac
      else x.finiteUnits neg integer frac := by
  cases infinite <;> rfl

theorem finishUnits_apply (hskip : x.skipOptionalSpace m = .ok () m') (neg : Bool) {a : Nat}
    (ha : a < 2 ^ 30) (order : Nat) :
    x.finishUnits neg ⟨Int64.ofNat a, order⟩ m = .ok ⟨signed neg a, order⟩ m' := by
  have hsign : (if neg then ({ value := -Int64.ofNat a, order } : GlueComponent)
      else ⟨Int64.ofNat a, order⟩) = ⟨signed neg a, order⟩ := by
    cases neg <;> rfl
  have hcheck : Dimen.check (signed neg a) = .ok () := if_pos (inRange_signed neg ha)
  have hfits : (!neg || Word.negFits (Int64.ofNat a)) = true := by
    have hlt : (Int64.ofNat a).toInt.natAbs < 2 ^ 63 := by
      rw [Int64.toInt_ofNat_of_lt (by omega)]
      omega
    rw [Word.negFits_of_natAbs_lt hlt, Bool.or_true]
  unfold finishUnits
  rw [bind_of_ok hskip]
  dsimp only
  rw [bind_of_ok (observe_of_fits hfits m')]
  rw [hsign, hcheck, bind_of_ok (arith_ok () m')]
  rfl

/-- The integer part and the fraction make up the number. -/
theorem parts_eq {a : Nat} :
    Int64.ofNat (a / 65536) * Dimen.unity + Int64.ofNat (a % 65536) = Int64.ofNat a := by
  rw [Dimen.unity_eq_ofNat, ← Int64.ofNat_mul, ← Int64.ofNat_add, Nat.div_add_mod']

theorem integerPart_lt {a : Nat} (ha : a < 2 ^ 30) : ¬ Int64.ofNat (a / 65536) ≥ 0x4000 := by
  show ¬ Int64.ofNat 16384 ≤ Int64.ofNat (a / 65536)
  rw [Int64.ofNat_le_iff_le (by omega) (by omega)]
  omega

theorem partsFits_parts {a : Nat} (ha : a < 2 ^ 30) :
    Dimen.partsFits (Int64.ofNat (a / 65536)) (Int64.ofNat (a % 65536)) = true := by
  have hinteger : (Int64.ofNat (a / 65536)).toInt = (a / 65536 : Nat) :=
    Int64.toInt_ofNat_of_lt (by omega)
  have hfrac : (Int64.ofNat (a % 65536)).toInt = (a % 65536 : Nat) :=
    Int64.toInt_ofNat_of_lt (by omega)
  exact Dimen.partsFits_of_bounds (by omega) (by omega)

/-- A unit is read up to the end of the space behind it. -/
theorem scanUnits_unitChars {a : Nat} (ha : a < 2 ^ 30) {order : Nat} (horder : order ≤ 3)
    {infinite : Bool} (hinfinite : order ≠ 0 → infinite = true) (hfuel : 16 ≤ x.fuel)
    {ts : TokenList} (hend : x.EndsUnit (m.ready.feed ts) m') (neg : Bool) :
    x.scanUnits neg (Int64.ofNat (a / 65536)) (Int64.ofNat (a % 65536)) infinite
        (m.ready.feed ((unitChars order).map TokenList.ofChar ++ ts)) =
      .ok ⟨signed neg a, order⟩ m' := by
  have hinteger := integerPart_lt ha
  have hfits := partsFits_parts ha
  rw [scanUnits_eq]
  cases order with
  | zero =>
    -- The letter p begins none of the units that are looked for before pt.
    have hinput : (unitChars 0).map TokenList.ofChar ++ ts = .other 112 :: .other 116 :: ts := rfl
    have hinternal := scanInternalUnit_of_misses (x := x) (by omega) (c := 112) ⟨by decide, rfl⟩
      (Int64.ofNat (a / 65536)) (Int64.ofNat (a % 65536)) m (.other 116 :: ts)
    have htrue := scanTrueUnit_points (x := x) (by omega) hinteger hfits m ts
    rw [parts_eq] at htrue
    have hfinite : x.finiteUnits neg (Int64.ofNat (a / 65536)) (Int64.ofNat (a % 65536))
        (m.ready.feed (.other 112 :: .other 116 :: ts)) = .ok ⟨signed neg a, 0⟩ m' := by
      unfold finiteUnits
      rw [bind_of_ok hinternal]
      dsimp only
      rw [bind_of_ok htrue]
      exact finishUnits_apply hend.skip neg ha 0
    rw [hinput]
    cases infinite with
    | false => exact hfinite
    | true =>
      have hnone := scanInfiniteUnit_of_misses (x := x) (by omega) (c := 112) ⟨by decide, rfl⟩
        (Int64.ofNat (a / 65536)) (Int64.ofNat (a % 65536)) m (.other 116 :: ts)
      rw [if_pos rfl, bind_of_ok hnone]
      exact hfinite
  | succ k =>
    have hinput : (unitChars (k + 1)).map TokenList.ofChar ++ ts =
        .other 102 :: .other 105 :: List.replicate (k + 1) (.other 108) ++ ts := by
      rw [unitChars, if_neg (Nat.succ_ne_zero k), List.map_cons, List.map_cons, List.map_replicate]
      rfl
    obtain ⟨m₁, hunit, hskip⟩ := scanInfiniteUnit_fil (by omega) hinteger hfits
      (Nat.le_of_succ_le_succ horder) hend
    rw [parts_eq] at hunit
    obtain rfl : infinite = true := hinfinite (Nat.succ_ne_zero k)
    rw [hinput, if_pos rfl, bind_of_ok hunit]
    exact finishUnits_apply hskip neg ha (k + 1)

/-- The text of a number and its unit is read as a length. -/
theorem scanDimenFrom_component {a : Nat} (ha : a < 2 ^ 30) {order : Nat} (horder : order ≤ 3)
    {infinite : Bool} (hinfinite : order ≠ 0 → infinite = true) (hfuel : 16 ≤ x.fuel)
    {ts : TokenList} (hend : x.EndsUnit (m.ready.feed ts) m') (neg : Bool) {c : Char}
    {cs : List Char} (hchars : decimalChars a ++ unitChars order = c :: cs) :
    x.scanDimenFrom neg (TokenList.ofChar c) infinite
        (m.ready.feed (cs.map TokenList.ofChar ++ ts)) = .ok ⟨signed neg a, order⟩ m' := by
  obtain ⟨d, ds, hdigits, hd⟩ := exists_decimalChars_eq_cons a
  rw [hdigits, List.cons_append] at hchars
  injection hchars with hc hcs
  subst hc hcs
  -- The unit begins with a letter, which ends the number.
  obtain ⟨u, us, hunit, hdigit, hspace, hcommand⟩ : ∃ u us,
      (unitChars order).map TokenList.ofChar = u :: us ∧ digit? u 10 = none ∧
        u.hasCat .space = false ∧ u.isCommand = false := by
    cases order with
    | zero => exact ⟨_, _, rfl, by decide, rfl, rfl⟩
    | succ k => exact ⟨_, _, rfl, by decide, rfl, rfl⟩
  have hdecimal := scanDecimal_decimalChars ha hdigits hfuel hdigit hspace hcommand (us ++ ts) m
  have hunits := scanUnits_unitChars ha horder hinfinite hfuel hend neg
  have hstarts : startsDecimal (TokenList.ofChar d) = true := by
    rw [startsDecimal, digit?_ofChar hd]
    exact Bool.or_true _
  have hsign : ¬ Int64.ofNat (a / 65536) < 0 := by
    show ¬ Int64.ofNat (a / 65536) < Int64.ofNat 0
    rw [Int64.ofNat_lt_iff_lt (by omega) (by omega)]
    omega
  rw [hunit] at hunits
  rw [List.map_append, hunit, List.append_assoc]
  unfold scanDimenFrom
  dsimp only
  rw [bind_of_ok (quantity?_of_not_isCommand (not_isCommand_ofChar d) _)]
  dsimp only
  rw [if_pos hstarts, List.cons_append, bind_of_ok hdecimal]
  dsimp only
  rw [if_neg hsign]
  exact hunits

end Expander

end TexEngine
