/-
  TexEngine.Proofs.Engine.Scan.DimenLiteral

  Lengths that are written as a number and a unit.  Signs, the number, and the unit may come
  from anywhere in the input; only what stands behind them is restricted, to something that
  cannot be expanded.  The value is the exact one, rounded down, and the three ways in which
  a length can be too large give the errors they should.

  A unit is looked for by trying one keyword after another.  Each of them but the right one
  differs from what is there in one of its letters (`differ_keyword`), so it is put back.
-/
import TexEngine.Proofs.Arith.Conversion
import TexEngine.Proofs.Engine.Scan.DecimalConstant
import TexEngine.Proofs.Engine.Scan.IntegerLiteral
import TexEngine.Proofs.Engine.Scan.Spelling

namespace TexEngine

open Eng

/-! ## Literals -/

/-- A unit of a length that needs no quantity: scaled points, or a physical unit, which may
    be one that is not magnified. -/
inductive LiteralUnit where
  | scaledPoints
  | physical (u : Dimen.PhysicalUnit)
  | magnified (u : Dimen.PhysicalUnit)

namespace LiteralUnit

/-- How a unit is written: keywords in any spelling, with spaces behind the keyword true. -/
inductive Writes : LiteralUnit → TokenList → Prop where
  | scaledPoints {ts : TokenList} (h : Spells (Expander.letters "sp") ts) :
      Writes .scaledPoints ts
  | physical {u : Dimen.PhysicalUnit} {ts : TokenList}
      (h : Spells (Expander.letters u.keyword) ts) : Writes (.physical u) ts
  | magnified {u : Dimen.PhysicalUnit} {ts us : TokenList}
      (htrue : Spells (Expander.letters "true") ts) (spaces : Nat)
      (h : Spells (Expander.letters u.keyword) us) :
      Writes (.magnified u) (ts ++ (List.replicate spaces .space ++ us))

/-- The value of a number of units, in scaled points: the exact product, rounded down.  The
    magnification is taken back before the unit is applied. -/
def value (mag : Int) (integer frac : Int) : LiteralUnit → Int
  | scaledPoints => integer
  | physical u => (integer * 65536 + frac) * u.num / u.denom
  | magnified u => (integer * 65536 + frac) * 1000 / mag * u.num / u.denom

end LiteralUnit

namespace Expander

variable {x : Expander} {e : Machine} {ts us : TokenList}

/-! ## Keywords of units -/

theorem exists_letters_keyword (u : Dimen.PhysicalUnit) :
    ∃ k l, letters u.keyword = [k, l] ∧ k ≠ 32 := by
  cases u <;> exact ⟨_, _, rfl, by decide⟩

/-- Different units differ in one of the letters of their keywords. -/
theorem differ_keyword {u v : Dimen.PhysicalUnit} (h : u ≠ v) :
    differ (letters u.keyword) (letters v.keyword) = true := by
  cases u <;> cases v <;> first | rfl | exact absurd rfl h

/-- A physical unit is found among the others. -/
theorem scans_scanPhysicalUnit {u : Dimen.PhysicalUnit} (h : Spells (letters u.keyword) ts)
    (spaces : Nat) (hfuel : spaces + ts.length < x.fuel) (rest : TokenList)
    (units : List Dimen.PhysicalUnit) (hu : u ∈ units) :
    Scans e (x.scanPhysicalUnit units) (List.replicate spaces .space ++ (ts ++ rest)) (some u)
      rest := by
  induction units with
  | nil => exact absurd hu List.not_mem_nil
  | cons v units ih =>
    obtain ⟨k, l, hletters, hk⟩ := exists_letters_keyword v
    rw [scanPhysicalUnit]
    by_cases hsame : v = u
    · subst hsame
      rw [hletters] at h
      exact (scans_scanKeyword_of_spells (by omega) hletters hk h spaces hfuel rest).bind
        (.pure (some v) rest)
    · have hdiffer := differ_keyword hsame
      rw [hletters] at hdiffer
      exact (scans_scanKeyword_of_differ (by omega) hletters hk h hdiffer spaces hfuel rest).bind
        (ih ((List.mem_cons.mp hu).resolve_left (Ne.symm hsame)))

/-- Scaled points are no physical unit. -/
theorem scans_scanPhysicalUnit_none (h : Spells (letters "sp") ts) (spaces : Nat)
    (hfuel : spaces + ts.length < x.fuel) (rest : TokenList) (units : List Dimen.PhysicalUnit) :
    Scans e (x.scanPhysicalUnit units) (List.replicate spaces .space ++ (ts ++ rest)) none
      (List.replicate spaces .space ++ (ts ++ rest)) := by
  induction units with
  | nil => exact .pure none _
  | cons v units ih =>
    obtain ⟨k, l, hletters, hk⟩ := exists_letters_keyword v
    have hdiffer : differ [k, l] (letters "sp") = true := by
      rw [← hletters]
      cases v <;> rfl
    rw [scanPhysicalUnit]
    exact (scans_scanKeyword_of_differ (by omega) hletters hk h hdiffer spaces hfuel rest).bind ih

/-! ## Units -/

/-- A word that is none of the units em and ex: neither they nor a quantity are found, and
    the spaces in front of the word are skipped. -/
theorem scans_scanInternalUnit_none {ks : List CharCode} (h : Spells ks ts) (hne : ts ≠ [])
    (hem : differ (letters "em") ks = true) (hex : differ (letters "ex") ks = true)
    (integer frac : Int64) (spaces : Nat) (hfuel : spaces + ts.length < x.fuel)
    (rest : TokenList) :
    Scans e (x.scanInternalUnit integer frac) (List.replicate spaces .space ++ (ts ++ rest)) none
      (ts ++ rest) := by
  have hx : 0 < x.fuel := by omega
  have hlength : 0 + ts.length < x.fuel := by omega
  have hletters : letters "em" = [101, 109] ∧ letters "ex" = [101, 120] := ⟨rfl, rfl⟩
  have hnoem := scans_scanKeyword_of_differ (e := e) hx hletters.1 (by decide) h hem 0 hlength rest
  have hnoex := scans_scanKeyword_of_differ (e := e) hx hletters.2 (by decide) h hex 0 hlength rest
  cases h with
  | nil => contradiction
  | @cons k t ks ts ht hspace _ =>
    have hcommand := not_isCommand_of_isLetterOf ht
    unfold scanInternalUnit
    apply (scans_nextNonSpace? (unexpandable_of_not_isCommand _ hcommand) hspace spaces (by omega)
      (ts ++ rest)).bind
    dsimp only
    apply Scans.bind (.of_apply fun m _ => quantity?_of_not_isCommand hcommand m)
    dsimp only [Option.filter]
    apply (Scans.push [t] (ts ++ rest)).bind
    apply hnoem.bind
    simp only [Bool.false_eq_true, if_false]
    exact hnoex.bind (.pure none _)

/-- A number of units, once the keyword true has been dealt with. -/
def unmagnifiedUnit (x : Expander) (integer frac : Int64) : Eng Dimen := do
  match ← x.scanPhysicalUnit Dimen.PhysicalUnit.all with
  | some u =>
    observe (Dimen.scaleUnitFits integer frac u)
    arith (Dimen.scaleUnit integer frac u)
  | none =>
    if ← x.scanKeyword "sp" then
      if integer > Dimen.max then fail .dimenTooLarge [] else return integer
    else fail .illegalUnit []

theorem scanTrueUnit_eq (x : Expander) (integer frac : Int64) :
    x.scanTrueUnit integer frac = (do
      if ← x.scanKeyword "true" then
        let env ← env
        observe (Dimen.magnifyFits integer frac (env.count "mag"))
        let p ← arith (Dimen.magnify integer frac (env.count "mag"))
        x.unmagnifiedUnit p.1 p.2
      else x.unmagnifiedUnit integer frac) := by
  rfl

/-- A length is read with the given value, which can be by one too large, or it is refused
    because it is too large. -/
def Measures (e : Machine) (act : Eng Dimen) (ts : TokenList) (v : Int) (us : TokenList) : Prop :=
  (∃ d, Scans e act ts d us ∧ d.toInt = v ∧ 0 ≤ v ∧ v ≤ 2 ^ 30) ∨
    (Refuses e act ts { kind := .dimenTooLarge } ∧ 2 ^ 30 ≤ v)

theorem Measures.after {α : Type} {act : Eng α} {a : α} {f : α → Eng Dimen} {v : Int}
    {vs : TokenList} (h : Scans e act ts a us) (h' : Measures e (f a) us v vs) :
    Measures e (act >>= f) ts v vs := by
  rcases h' with ⟨d, hd, hv⟩ | ⟨hrefuse, hv⟩
  · exact .inl ⟨d, h.bind hd, hv⟩
  · exact .inr ⟨h.bind_refuses hrefuse, hv⟩

/-- The numbers that a unit is applied to. -/
structure IsMultiple (integer frac : Int64) : Prop where
  integer : 0 ≤ integer.toInt ∧ integer.toInt ≤ 2 ^ 42
  frac : 0 ≤ frac.toInt ∧ frac.toInt ≤ 65536

theorem measures_physicalUnit {u : Dimen.PhysicalUnit} (h : Spells (letters u.keyword) ts)
    {integer frac : Int64} (hn : IsMultiple integer frac) (spaces : Nat)
    (hfuel : spaces + ts.length < x.fuel) (rest : TokenList) :
    Measures e (x.unmagnifiedUnit integer frac) (List.replicate spaces .space ++ (ts ++ rest))
      (Dimen.exactUnits (integer, frac) * u.num / u.denom) rest := by
  have hfits := (Dimen.scaleUnit_of_bounds u hn.integer hn.frac).1
  have hu : u ∈ Dimen.PhysicalUnit.all := by cases u <;> decide
  unfold unmagnifiedUnit
  apply Measures.after (scans_scanPhysicalUnit h spaces hfuel rest _ hu)
  dsimp only
  apply Measures.after (.of_apply fun m _ => observe_of_fits hfits m)
  rcases Dimen.scaleUnit_cases u hn.integer hn.frac with ⟨d, hd, hexact, hle⟩ | ⟨hd, hlarge⟩
  · rw [hd]
    refine .inl ⟨d, .pure d rest, hexact, ?_, by omega⟩
    have hnum := u.ratio_bounds.1.1
    have hdenom := u.ratio_bounds.2.1
    apply Int.ediv_nonneg (Int.mul_nonneg ?_ hnum) (Int.le_of_lt hdenom)
    have hinteger := hn.integer.1
    have hfrac := hn.frac.1
    unfold Dimen.exactUnits
    dsimp only
    omega
  · rw [hd]
    exact .inr ⟨fun m _ => ⟨m, rfl⟩, hlarge⟩

theorem measures_scaledPoints (h : Spells (letters "sp") ts) {integer : Int64} (frac : Int64)
    (hn : 0 ≤ integer.toInt) (hfuel : ts.length < x.fuel) (rest : TokenList) :
    Measures e (x.unmagnifiedUnit integer frac) (ts ++ rest) integer.toInt rest := by
  have hmax : Dimen.max.toInt = 2 ^ 30 - 1 := by decide
  have hletters : letters "sp" = [115, 112] := rfl
  have hlength : 0 + ts.length < x.fuel := by omega
  unfold unmagnifiedUnit
  apply Measures.after (scans_scanPhysicalUnit_none h 0 hlength rest _)
  dsimp only
  rw [hletters] at h
  apply Measures.after
    (scans_scanKeyword_of_spells (by omega) hletters (by decide) h 0 hlength rest)
  by_cases hlarge : integer > Dimen.max
  · rw [if_pos rfl, if_pos hlarge]
    rw [gt_iff_lt, Int64.lt_iff_toInt_lt, hmax] at hlarge
    exact .inr ⟨fun m _ => ⟨m, rfl⟩, by omega⟩
  · rw [if_pos rfl, if_neg hlarge]
    rw [gt_iff_lt, Int64.lt_iff_toInt_lt, hmax] at hlarge
    exact .inl ⟨integer, .pure integer rest, rfl, hn, by omega⟩

/-- The keyword true is not there. -/
theorem scans_true_of_differ {ks : List CharCode} (h : Spells ks ts)
    (hdiffer : differ (letters "true") ks = true) (hfuel : ts.length < x.fuel)
    (rest : TokenList) :
    Scans e (x.scanKeyword "true") (ts ++ rest) false (ts ++ rest) := by
  have hletters : letters "true" = [116, 114, 117, 101] := rfl
  have hlength : 0 + ts.length < x.fuel := by omega
  exact scans_scanKeyword_of_differ (by omega) hletters (by decide) h hdiffer 0 hlength rest

/-- A unit is applied to a number. -/
theorem measures_trueUnit {unit : LiteralUnit} (h : unit.Writes ts) {integer frac : Int64}
    (hinteger : 0 ≤ integer.toInt ∧ integer.toInt ≤ 0x7FFFFFFF)
    (hfrac : 0 ≤ frac.toInt ∧ frac.toInt ≤ 65536)
    (hmag : 0 < (e.env.count "mag").toInt ∧ (e.env.count "mag").toInt ≤ 32768)
    (hfuel : ts.length < x.fuel) (rest : TokenList) :
    Measures e (x.scanTrueUnit integer frac) (ts ++ rest)
      (unit.value (e.env.count "mag").toInt integer.toInt frac.toInt) rest := by
  have hle : integer.toInt ≤ 2 ^ 42 := by omega
  have hlength : 0 + ts.length < x.fuel := by omega
  rw [scanTrueUnit_eq]
  -- A unit that does not begin like "true" is reached with all tokens put back; behind "true" the
  -- number is first taken back from the magnification.
  cases h with
  | scaledPoints h =>
    apply Measures.after (scans_true_of_differ h rfl hfuel rest)
    exact measures_scaledPoints h frac hinteger.1 hfuel rest
  | @physical u ts h =>
    have hdiffer : differ (letters "true") (letters u.keyword) = true := by cases u <;> rfl
    apply Measures.after (scans_true_of_differ h hdiffer hfuel rest)
    exact measures_physicalUnit h ⟨⟨hinteger.1, hle⟩, hfrac⟩ 0 hlength rest
  | @magnified u ts us htrue spaces h =>
    have hletters : letters "true" = [116, 114, 117, 101] := rfl
    simp only [List.length_append, List.length_replicate] at hfuel
    rw [hletters] at htrue
    obtain ⟨p, hp, hexact⟩ := Dimen.exactUnits_magnify hinteger hfrac hmag
    obtain ⟨hfits, hbounds⟩ := Dimen.magnify_of_bounds (e.env.count "mag") hinteger hfrac
    rw [List.append_assoc]
    apply Measures.after (scans_scanKeyword_of_spells (by omega) hletters (by decide) htrue 0
      (by omega) _)
    rw [if_pos rfl]
    apply Measures.after (.of_apply fun m hm => by rw [env_apply, hm.env])
    apply Measures.after (.of_apply fun m _ => observe_of_fits hfits m)
    rw [hp]
    apply Measures.after (.of_apply fun m _ => arith_ok p m)
    have hunit := measures_physicalUnit (e := e) (x := x) h ⟨(hbounds p hp).1, (hbounds p hp).2⟩
      spaces (by omega) rest
    rw [hexact] at hunit
    rw [List.append_assoc]
    exact hunit

/-- The first letters of a unit are not those of em or ex. -/
theorem scans_scanInternalUnit_of_writes {unit : LiteralUnit} (h : unit.Writes ts)
    (integer frac : Int64) (spaces : Nat) (hfuel : spaces + ts.length < x.fuel)
    (rest : TokenList) :
    Scans e (x.scanInternalUnit integer frac) (List.replicate spaces .space ++ (ts ++ rest)) none
      (ts ++ rest) := by
  cases h with
  | scaledPoints h =>
    have hletters : letters "sp" = [115, 112] := rfl
    exact scans_scanInternalUnit_none h (hletters ▸ h).ne_nil rfl rfl integer frac spaces hfuel rest
  | @physical u ts h =>
    obtain ⟨k, l, hletters, -⟩ := exists_letters_keyword u
    exact scans_scanInternalUnit_none h (hletters ▸ h).ne_nil (by cases u <;> rfl)
      (by cases u <;> rfl) integer frac spaces hfuel rest
  | @magnified u ts us htrue n h =>
    have hletters : letters "true" = [116, 114, 117, 101] := rfl
    simp only [List.length_append, List.length_replicate] at hfuel
    rw [List.append_assoc]
    exact scans_scanInternalUnit_none htrue (hletters ▸ htrue).ne_nil rfl rfl integer frac spaces
      (by omega) _

/-! ## Lengths -/

/-- Behind the unit, a space is skipped, the sign is applied, and the length is checked. -/
theorem scans_finishUnits (neg : Bool) {d : Dimen} (hd : 0 ≤ d.toInt ∧ d.toInt ≤ 2 ^ 30)
    (hskip : Scans e x.skipOptionalSpace ts () us) :
    (d.toInt < 2 ^ 30 → ∃ c : GlueComponent, Scans e (x.finishUnits neg ⟨d, 0⟩) ts c us ∧
      c.value.toInt = if neg then -d.toInt else d.toInt) ∧
    (d.toInt = 2 ^ 30 → Refuses e (x.finishUnits neg ⟨d, 0⟩) ts { kind := .dimenTooLarge }) := by
  -- The bound 2^30 is no length itself, so it passes the negation but not the check behind it.
  have hneg : Word.negFits d = true := Word.negFits_of_natAbs_lt (by omega)
  have hfits : (!neg || Word.negFits d) = true := by rw [hneg, Bool.or_true]
  let c : GlueComponent := if neg then { value := -d, order := 0 } else ⟨d, 0⟩
  have hvalue : c.value.toInt = if neg then -d.toInt else d.toInt := by
    cases neg with
    | false => rfl
    | true => exact Word.toInt_neg hneg
  have hcheck : x.finishUnits neg ⟨d, 0⟩ = (do
      x.skipOptionalSpace
      observe (!neg || Word.negFits d)
      arith (Dimen.check c.value)
      return c) := rfl
  rw [hcheck]
  constructor
  · intro hlt
    have hrange : Dimen.InRange c.value := by
      rw [Dimen.inRange_iff, hvalue]
      split <;> omega
    refine ⟨c, hskip.bind (.bind (.of_apply fun m _ => observe_of_fits hfits m) ?_), hvalue⟩
    rw [Dimen.check, if_pos hrange]
    exact .bind (.of_apply fun m _ => arith_ok () m) (.pure c us)
  · intro heq
    have hrange : ¬ Dimen.InRange c.value := by
      rw [Dimen.inRange_iff, hvalue]
      split <;> omega
    apply hskip.bind_refuses
    apply Scans.bind_refuses (.of_apply fun m _ => observe_of_fits hfits m)
    rw [Dimen.check, if_neg hrange]
    exact Refuses.bind (fun m _ => ⟨m, rfl⟩) _

/-- A number and its unit, behind the signs. -/
theorem scans_finiteUnits (neg : Bool) {unit : LiteralUnit} (h : unit.Writes ts)
    {integer frac : Int64} (hinteger : 0 ≤ integer.toInt ∧ integer.toInt ≤ 0x7FFFFFFF)
    (hfrac : 0 ≤ frac.toInt ∧ frac.toInt ≤ 65536)
    (hmag : 0 < (e.env.count "mag").toInt ∧ (e.env.count "mag").toInt ≤ 32768)
    (spaces : Nat) (hfuel : spaces + ts.length < x.fuel) {rest : TokenList}
    (hskip : Scans e x.skipOptionalSpace rest () us) {v : Int}
    (hv : unit.value (e.env.count "mag").toInt integer.toInt frac.toInt = v) :
    (v < 2 ^ 30 → ∃ c : GlueComponent, Scans e (x.scanUnits neg integer frac false)
      (List.replicate spaces .space ++ (ts ++ rest)) c us ∧
      c.value.toInt = if neg then -v else v) ∧
    (2 ^ 30 ≤ v → Refuses e (x.scanUnits neg integer frac false)
      (List.replicate spaces .space ++ (ts ++ rest)) { kind := .dimenTooLarge }) := by
  have hnone := scans_scanInternalUnit_of_writes (e := e) h integer frac spaces hfuel rest
  -- Without infinite units, the units are looked for in two places, and only the second one has
  -- those of a literal.
  have hunits : x.scanUnits neg integer frac false = x.finiteUnits neg integer frac := rfl
  rw [hunits]
  unfold finiteUnits
  have hlength : ts.length < x.fuel := by omega
  rcases measures_trueUnit h hinteger hfrac hmag hlength rest with
    ⟨d, hd, hvalue, hlow, hhigh⟩ | ⟨hrefuse, hlarge⟩
  · rw [hv] at hvalue hlow hhigh
    obtain ⟨hok, hbad⟩ := scans_finishUnits (d := d) neg (by omega) hskip
    rw [hvalue] at hok hbad
    constructor
    · intro hlt
      obtain ⟨c, hc, hcv⟩ := hok hlt
      exact ⟨c, hnone.bind (hd.bind hc), hcv⟩
    · intro hle
      exact hnone.bind_refuses (hd.bind_refuses (hbad (by omega)))
  · rw [hv] at hlarge
    constructor
    · intro hlt
      omega
    · intro _
      exact hnone.bind_refuses (hrefuse.bind _)

/-! ## Literals -/

/-- A letter of a keyword is no digit and no point. -/
theorem not_decimal_of_isLetterOf {k : CharCode} {t : Token} (h : isLetterOf k t = true)
    (hk : (97 : Int) ≤ k) : digit? t 10 = none ∧ isDecimalPoint t = false := by
  simp only [isLetterOf, Bool.and_eq_true, beq_iff_eq] at h
  -- No digit and no decimal point has a code that a letter or its capital could have.
  have hcode : ∀ c : Int, t.code = c → ¬ (44 ≤ c ∧ c ≤ 57) := by
    rintro c hc ⟨hlow, hhigh⟩
    have hsmall : Text.toSmall t.code = t.code := by
      have hascii : t.code < 128 := hc ▸ (by omega : c < 128)
      have hsmall : ¬ (65 ≤ t.code ∧ t.code ≤ 90) := hc ▸ (by omega : ¬ (65 ≤ c ∧ c ≤ 90))
      rw [Text.toSmall, if_pos hascii, if_neg hsmall]
    have hkc : k = c := h.2.symm.trans (hsmall.trans hc)
    rw [hkc] at hk
    omega
  constructor
  · cases t with
    | char c cat =>
      have hrange : ¬ (cat = .other ∧ 48 ≤ c ∧ c ≤ 57) :=
        fun hc => hcode c rfl ⟨Int.le_trans (by decide) hc.2.1, hc.2.2⟩
      have hradix : ¬ ((10 : Int64) = 16 ∧ (cat = .other ∨ cat = .letter) ∧ 65 ≤ c ∧ c ≤ 70) :=
        fun hc => absurd hc.1 (by decide)
      rw [digit?, if_neg hrange, if_neg hradix]
      rfl
    | _ => rfl
  · rw [isDecimalPoint, Bool.or_eq_false_iff, ← Bool.not_eq_true, ← Bool.not_eq_true,
      isOther_iff, isOther_iff]
    constructor
    · rintro rfl
      exact hcode _ rfl (by decide)
    · rintro rfl
      exact hcode _ rfl (by decide)

/-- A unit begins with a letter. -/
theorem exists_letter_of_writes {unit : LiteralUnit} (h : unit.Writes ts) :
    ∃ t ts', ts = t :: ts' ∧ t.isCommand = false ∧ t.hasCat .space = false ∧
      digit? t 10 = none ∧ isDecimalPoint t = false := by
  have hfirst : ∀ {k : CharCode} {ks : List CharCode} {ts : TokenList}, (97 : Int) ≤ k →
      Spells (k :: ks) ts → ∃ t ts', ts = t :: ts' ∧ t.isCommand = false ∧
        t.hasCat .space = false ∧ digit? t 10 = none ∧ isDecimalPoint t = false := by
    intro k ks ts hk hspells
    cases hspells with
    | cons ht hspace _ =>
      exact ⟨_, _, rfl, not_isCommand_of_isLetterOf ht, hspace, not_decimal_of_isLetterOf ht hk⟩
  cases h with
  | scaledPoints h => exact hfirst (k := 115) (by decide) h
  | @physical u ts h =>
    obtain ⟨k, ks, hletters, hk⟩ : ∃ k ks, letters u.keyword = k :: ks ∧ (97 : Int) ≤ k := by
      cases u <;> exact ⟨_, _, rfl, by decide⟩
    exact hfirst hk (hletters ▸ h)
  | magnified htrue _ _ =>
    obtain ⟨t, ts', rfl, ht⟩ := hfirst (k := 116) (by decide) htrue
    exact ⟨t, _, rfl, ht⟩

/-- A constant begins with a token that no sign and no quantity begins with. -/
theorem exists_first_of_constant (c : DecimalConstant) :
    ∃ u us, c.tokens = u :: us ∧ u.isCommand = false ∧ signFlip? u = none ∧
      startsDecimal u = true := by
  have hdigit : ∀ d : Fin 10, let u := TokenList.ofChar (Dimen.digitChar d)
      u.isCommand = false ∧ signFlip? u = none ∧ startsDecimal u = true := by
    decide
  have hpoint : ∀ comma : Bool, let u := TokenList.ofChar (if comma then ',' else '.')
      u.isCommand = false ∧ signFlip? u = none ∧ startsDecimal u = true := by
    decide
  unfold DecimalConstant.tokens DecimalConstant.chars
  cases hwhole : c.whole with
  | cons d ds => exact ⟨_, _, rfl, hdigit d⟩
  | nil =>
    rcases c.nonempty with hne | ⟨comma, ds, hfraction, -⟩
    · exact absurd hwhole hne
    · rw [hfraction]
      exact ⟨_, _, rfl, hpoint comma⟩

/-- What ends the number of a literal: a space, which belongs to it, or the unit. -/
theorem exists_stop {unit : LiteralUnit} (h : unit.Writes ts) (spaces : Nat) (rest : TokenList) :
    ∃ t us n, List.replicate spaces .space ++ (ts ++ rest) = t :: us ∧ t.isCommand = false ∧
      digit? t 10 = none ∧ isDecimalPoint t = false ∧ n ≤ spaces ∧
      (if t.hasCat .space then us else t :: us) = List.replicate n .space ++ (ts ++ rest) := by
  cases spaces with
  | zero =>
    obtain ⟨t, ts', rfl, hcommand, hspace, hdigit, hpoint⟩ := exists_letter_of_writes h
    refine ⟨t, ts' ++ rest, 0, rfl, hcommand, hdigit, hpoint, Nat.le_refl 0, ?_⟩
    rw [if_neg (by rw [hspace]; exact Bool.false_ne_true)]
    rfl
  | succ n => exact ⟨.space, _, n, rfl, rfl, by decide, by decide, Nat.le_succ n, rfl⟩

/-- A length that begins with a digit or a point is a number and a unit. -/
theorem scanDimenFrom_of_startsDecimal (x : Expander) (neg : Bool) {u : Token}
    (hcommand : u.isCommand = false) (hstarts : startsDecimal u = true) (m : Machine) :
    x.scanDimenFrom neg u false m = (do
      let p ← x.scanDecimal u
      if p.1 < 0 then
        observe (Word.negFits p.1)
        x.scanUnits (!neg) (-p.1) p.2 false
      else x.scanUnits neg p.1 p.2 false : Eng GlueComponent) m := by
  unfold scanDimenFrom
  dsimp only
  rw [bind_of_ok (quantity?_of_not_isCommand hcommand m)]
  dsimp only
  rw [if_pos hstarts]

end Expander

/-- A length that is written as signs with spaces among them, a number, and a unit with
    spaces in front. -/
structure DimenLiteral where
  signs : TokenList
  number : DecimalConstant
  spaces : Nat
  unit : LiteralUnit
  unitTokens : TokenList
  isSign : ∀ s ∈ signs, (signFlip? s).isSome
  writes : unit.Writes unitTokens

namespace DimenLiteral

open Expander

/-- The tokens of a length. -/
def tokens (l : DimenLiteral) : TokenList :=
  l.signs ++ (l.number.tokens ++ (List.replicate l.spaces .space ++ l.unitTokens))

/-- The value without its sign, in scaled points. -/
def value (l : DimenLiteral) (mag : Int) : Int :=
  l.unit.value mag l.number.integer l.number.frac.toInt

variable {x : Expander} {e : Machine}

/-- The number and the unit, when the signs and the first token of the number are read. -/
theorem scans_scanDimenFrom (l : DimenLiteral) (neg : Bool)
    (hfuel : l.number.chars.length + l.spaces + l.unitTokens.length < x.fuel)
    (hmag : 0 < (e.env.count "mag").toInt ∧ (e.env.count "mag").toInt ≤ 32768)
    {rest us : TokenList} (hskip : Scans e x.skipOptionalSpace rest () us) {u : Token}
    {ds : TokenList} (hnumber : l.number.tokens = u :: ds) (hcommand : u.isCommand = false)
    (hstarts : startsDecimal u = true) :
    let behind := ds ++ (List.replicate l.spaces .space ++ (l.unitTokens ++ rest))
    (0x7FFFFFFF < l.number.integer →
      Refuses e (x.scanDimenFrom neg u false) behind { kind := .numberTooBig }) ∧
    (l.number.integer ≤ 0x7FFFFFFF →
      (l.value (e.env.count "mag").toInt < 2 ^ 30 →
        ∃ c, Scans e (x.scanDimenFrom neg u false) behind c us ∧
          c.value.toInt = if neg then -l.value (e.env.count "mag").toInt
            else l.value (e.env.count "mag").toInt) ∧
      (2 ^ 30 ≤ l.value (e.env.count "mag").toInt →
        Refuses e (x.scanDimenFrom neg u false) behind { kind := .dimenTooLarge })) := by
  intro behind
  obtain ⟨t, vs, n, hrest, htcommand, hdigit, hpoint, hn, hstop⟩ :=
    exists_stop l.writes l.spaces rest
  have hbehind : behind = ds ++ t :: vs := congrArg (ds ++ ·) hrest
  have hinput : l.number.tokens ++ t :: vs = u :: (ds ++ t :: vs) := by
    rw [hnumber]
    rfl
  have hfrom := x.scanDimenFrom_of_startsDecimal neg hcommand hstarts
  rw [hbehind]
  refine ⟨fun hlarge m hm => ?_, fun hinteger => ?_⟩
  · -- The integer part is refused before the unit is looked at.
    have hrefuse := refuses_scanDecimal (e := e) (x := x) l.number hlarge (by omega) hinput
    rw [hfrom]
    exact hrefuse.bind _ m hm
  · have hdecimal := scans_scanDecimal (e := e) (x := x) l.number hinteger (by omega) htcommand
      hdigit hpoint hinput
    rw [hstop] at hdecimal
    have hvalue : (Int64.ofNat l.number.integer).toInt = l.number.integer :=
      Int64.toInt_ofNat_of_lt (by omega)
    -- An integer part that was written in digits is not negative, so the sign stays that of the
    -- literal.
    have hnonneg : ¬ Int64.ofNat l.number.integer < 0 := by
      have hzero : (0 : Int64).toInt = 0 := by decide
      rw [Int64.lt_iff_toInt_lt, hzero]
      omega
    have hbounds : 0 ≤ (Int64.ofNat l.number.integer).toInt ∧
        (Int64.ofNat l.number.integer).toInt ≤ 0x7FFFFFFF := by omega
    have hexact : l.unit.value (e.env.count "mag").toInt (Int64.ofNat l.number.integer).toInt
        l.number.frac.toInt = l.value (e.env.count "mag").toInt := by
      rw [hvalue]
      rfl
    obtain ⟨hok, hbad⟩ := scans_finiteUnits (x := x) neg l.writes hbounds
      l.number.roundFits_decimals.2 hmag n (by omega) hskip hexact
    refine ⟨fun hlt => ?_, fun hle m hm => ?_⟩
    · obtain ⟨c, hc, hcv⟩ := hok hlt
      refine ⟨c, fun m hm => ?_, hcv⟩
      rw [hfrom]
      refine hdecimal.bind ?_ m hm
      dsimp only
      rwa [if_neg hnonneg]
    · rw [hfrom]
      refine hdecimal.bind_refuses ?_ m hm
      dsimp only
      rw [if_neg hnonneg]
      exact hbad hle

theorem scans_scanDimen (l : DimenLiteral) (hfuel : l.tokens.length < x.fuel)
    (hmag : 0 < (e.env.count "mag").toInt ∧ (e.env.count "mag").toInt ≤ 32768)
    {rest us : TokenList} (hskip : Scans e x.skipOptionalSpace rest () us) :
    (0x7FFFFFFF < l.number.integer →
      Refuses e x.scanDimen (l.tokens ++ rest) { kind := .numberTooBig }) ∧
    (l.number.integer ≤ 0x7FFFFFFF →
      (l.value (e.env.count "mag").toInt < 2 ^ 30 →
        ∃ d, Scans e x.scanDimen (l.tokens ++ rest) d us ∧
          d.toInt = if isNegated l.signs then -l.value (e.env.count "mag").toInt
            else l.value (e.env.count "mag").toInt) ∧
      (2 ^ 30 ≤ l.value (e.env.count "mag").toInt →
        Refuses e x.scanDimen (l.tokens ++ rest) { kind := .dimenTooLarge })) := by
  -- The fuel covers the signs, the number, the spaces and the unit one after the other.
  have hlength :
      l.signs.length + l.number.chars.length + l.spaces + l.unitTokens.length < x.fuel := by
    simp only [tokens, DecimalConstant.tokens, List.length_append, List.length_map,
      List.length_replicate] at hfuel
    omega
  obtain ⟨u, ds, hnumber, hcommand, hsign, hstarts⟩ := exists_first_of_constant l.number
  have htokens : l.tokens ++ rest =
      l.signs ++ u :: (ds ++ (List.replicate l.spaces .space ++ (l.unitTokens ++ rest))) := by
    rw [tokens, hnumber]
    simp only [List.append_assoc, List.cons_append]
  have hsigns := Expander.scans_scanSigns (e := e) (x := x) l.signs (by omega) l.isSign hsign
    (unexpandable_of_not_isCommand _ hcommand)
    (ds ++ (List.replicate l.spaces .space ++ (l.unitTokens ++ rest)))
  obtain ⟨hbig, hrest⟩ := l.scans_scanDimenFrom (isNegated l.signs) (by omega) hmag hskip hnumber
    hcommand hstarts
  rw [htokens]
  refine ⟨fun hlarge => hsigns.bind_refuses ((hbig hlarge).bind _), fun hinteger => ?_⟩
  obtain ⟨hok, hbad⟩ := hrest hinteger
  refine ⟨fun hlt => ?_, fun hle => hsigns.bind_refuses ((hbad hle).bind _)⟩
  obtain ⟨c, hc, hcv⟩ := hok hlt
  exact ⟨c.value, hsigns.bind (hc.bind (.pure c.value us)), hcv⟩

/-- The first token is a sign, a digit or a point. -/
theorem exists_first (l : DimenLiteral) :
    ∃ t ts, l.tokens = t :: ts ∧ t.isCommand = false := by
  unfold tokens
  cases hsigns : l.signs with
  | nil =>
    obtain ⟨u, us, hnumber, hcommand, -⟩ := exists_first_of_constant l.number
    exact ⟨u, _, by rw [hnumber]; rfl, hcommand⟩
  | cons s signs =>
    obtain ⟨b, hb⟩ := Option.isSome_iff_exists.mp (l.isSign s (by rw [hsigns]; simp))
    exact ⟨s, _, rfl, not_isCommand_of_signFlip? hb⟩

theorem scanDimen_congr (hx : 0 < x.fuel) {m n : Machine} (h : token? m = token? n) :
    x.scanDimen m = x.scanDimen n :=
  bind_congr_left (scanSigns_congr hx h) _

/-- A length that is written as a number and a unit has the exact value, rounded down.  It is
    refused if its integer part is no integer, or if its value is no length; otherwise exactly
    its tokens are read, with a space behind them if there is one. -/
theorem scanDimen_exact (l : DimenLiteral) (x : Expander) (hfuel : l.tokens.length < x.fuel)
    {m e : Machine} (hmark : ∀ t, m.marked = some t → t.isCommand = true) (space : Bool)
    (hyields : m.Yields (l.tokens ++ if space then [.space] else []) e) (he : e.Stops)
    (hmag : 1 ≤ (m.env.count "mag").toInt ∧ (m.env.count "mag").toInt ≤ 32768) :
    (Count.max.toInt < l.number.integer →
      ∃ m', x.scanDimen m = .error (.tex { kind := .numberTooBig }) m') ∧
    (l.number.integer ≤ Count.max.toInt →
      (Dimen.max.toInt < l.value (m.env.count "mag").toInt →
        ∃ m', x.scanDimen m = .error (.tex { kind := .dimenTooLarge }) m') ∧
      (l.value (m.env.count "mag").toInt ≤ Dimen.max.toInt →
        ∃ d m', x.scanDimen m = .ok d m' ∧ token? m' = token? e ∧
          d.toInt = if isNegated l.signs then -l.value (m.env.count "mag").toInt
            else l.value (m.env.count "mag").toInt)) := by
  have hmaxCount : Count.max.toInt = 0x7FFFFFFF := by decide
  have hmaxDimen : Dimen.max.toInt = 2 ^ 30 - 1 := by decide
  obtain ⟨t, ts, htokens, hcommand⟩ := l.exists_first
  -- The first token is not the marked one, so there might as well be no mark.
  have hready : token? m.ready = token? m := by
    rw [htokens] at hyields
    obtain ⟨m₁, hread, -⟩ := hyields.exists_of_cons
    rw [hread]
    refine Machine.token?_ready_of_ne hread fun hmarked => ?_
    rw [hmark t hmarked] at hcommand
    contradiction
  have hupcoming : m.ready.Upcoming (l.tokens ++ if space then [.space] else []) e := by
    refine .of_yields rfl ?_
    rw [htokens, List.cons_append] at hyields ⊢
    exact hyields.of_token?_eq hready
  have hskip : Scans e x.skipOptionalSpace (if space then [.space] else []) () [] := by
    cases space with
    | false => exact scans_skipOptionalSpace_stops (by omega) he
    | true => exact scans_skipOptionalSpace_space (by omega) []
  have henv : m.env = e.env := hyields.env_eq.symm
  rw [henv] at hmag ⊢
  have hcongr : x.scanDimen m = x.scanDimen m.ready := scanDimen_congr (by omega) hready.symm
  obtain ⟨hbig, hrest⟩ := l.scans_scanDimen hfuel ⟨by omega, hmag.2⟩ hskip
  rw [hcongr]
  refine ⟨fun hinteger => hbig (by omega) _ hupcoming, fun hinteger => ?_⟩
  obtain ⟨hok, hlarge⟩ := hrest (by omega)
  refine ⟨fun hv => hlarge (by omega) _ hupcoming, fun hv => ?_⟩
  obtain ⟨d, hd, hvalue⟩ := hok (by omega)
  obtain ⟨m', hscan, hm'⟩ := hd _ hupcoming
  exact ⟨d, m', hscan, hm'.token?_eq, hvalue⟩

/-- The length -1,5true in, partly in capital letters and with more spaces. -/
def trueInches : DimenLiteral where
  signs := [.other 45]
  number := ⟨[1], some (true, [5]), .inl (by decide)⟩
  spaces := 2
  unit := .magnified .inch
  unitTokens := [.letter 84, .letter 82, .letter 85, .letter 69] ++
    ([.space] ++ [.other 73, .letter 110])
  isSign := by decide
  writes :=
    have htrue : Spells (letters "true") [.letter 84, .letter 82, .letter 85, .letter 69] :=
      .cons rfl rfl (.cons rfl rfl (.cons rfl rfl (.cons rfl rfl .nil)))
    have hinch : Spells (letters Dimen.PhysicalUnit.inch.keyword) [.other 73, .letter 110] :=
      .cons rfl rfl (.cons rfl rfl .nil)
    .magnified htrue 1 hinch

/-- At magnification 2000, a true inch is half an inch. -/
theorem scanDimen_exact_magnified :
    let env : Env Meaning := { counts := Std.TreeMap.ofList [("mag", (2000 : Int64))] }
    ∃ d m', (⟨50, fun _ _ => pure ()⟩ : Expander).scanDimen
        (Machine.feed { env } (trueInches.tokens ++ [.space] ++ [.cs "relax"])) = .ok d m' ∧
      d.toInt = -3552215 ∧ token? m' = token? (Machine.feed { env } [.cs "relax"]) := by
  intro env
  have hread : (Machine.feed { env } (trueInches.tokens ++ [.space] ++ [.cs "relax"])).Yields
      (trueInches.tokens ++ [.space]) (Machine.feed { env } [.cs "relax"]) :=
    Machine.Yields.of_feed { env } (trueInches.tokens ++ [.space]) [.cs "relax"]
  have hrelax : meaningIn env (.cs "relax") = none := by decide
  have hunexp : Unexpandable env (.cs "relax") := by
    intro _ μ hμ
    rw [hrelax] at hμ
    contradiction
  have hmag : (env.count "mag").toInt = 2000 := by decide
  have hvalue : trueInches.value 2000 = 3552215 := by decide
  have hsigns : isNegated trueInches.signs = true := by decide
  have hexact := trueInches.scanDimen_exact ⟨50, fun _ _ => pure ()⟩ (by decide)
    (fun _ h => by contradiction) true hread (.some (token?_feed { env } _ []) hunexp rfl)
    (by rw [Machine.env_feed, hmag]; decide)
  rw [Machine.env_feed, hmag, hvalue, hsigns] at hexact
  obtain ⟨d, m', hscan, hnext, hd⟩ := (hexact.2 (by decide)).2 (by decide)
  exact ⟨d, m', hscan, hd, hnext⟩

end DimenLiteral

end TexEngine
