/-
  TexEngine.Proofs.Engine.Scan.Integer

  Reading integer constants.  Signs and spaces in front of a constant are read one
  by one, and the number of minus signs decides the sign; then digits are read up
  to the first token that is none.  A space behind the digits is swallowed, any
  other token is put back.

  The main statement is `Literal.scanInteger_tokens`: signs and decimal digits are
  read as the number they denote.
-/
import TexEngine.Engine.Scan.Integer
import TexEngine.Proofs.Arith.Range
import TexEngine.Proofs.Engine.Reading

namespace TexEngine

/-! ## Signs -/

/-- What a token contributes to the signs of a number: a minus sign changes the
    sign, spaces and plus signs do not, and other tokens end the signs. -/
def signFlip? (t : Token) : Option Bool :=
  if t.hasCat .space || t.isOther '+' then some false
  else if t.isOther '-' then some true
  else none

/-- The number of minus signs is odd. -/
def isNegated (signs : TokenList) : Bool :=
  signs.countP (·.isOther '-') % 2 == 1

@[simp] theorem isNegated_nil : isNegated [] = false := rfl

theorem isOther_iff {t : Token} {c : Char} :
    t.isOther c = true ↔ t = .char (CharCode.ofChar c) .other := by
  simp [Token.isOther, Token.other]

theorem not_isCommand_of_hasCat {t : Token} {k : Catcode} (h : t.hasCat k = true)
    (hk : k ≠ .active) : t.isCommand = false := by
  obtain ⟨c, rfl⟩ := hasCat_iff.mp h
  cases k <;> simp_all [Token.isCommand, Token.isCs, Token.isActive]

theorem hasCat_of_isOther {t : Token} {c : Char} (h : t.isOther c = true) :
    t.hasCat .other = true := by
  rw [isOther_iff.mp h]
  rfl

theorem not_isCommand_of_signFlip? {t : Token} {b : Bool} (h : signFlip? t = some b) :
    t.isCommand = false := by
  unfold signFlip? at h
  split at h
  · rename_i hblank
    rcases Bool.or_eq_true_iff.mp hblank with hspace | hplus
    · exact not_isCommand_of_hasCat hspace (by decide)
    · exact not_isCommand_of_hasCat (hasCat_of_isOther hplus) (by decide)
  · split at h
    · rename_i hminus
      exact not_isCommand_of_hasCat (hasCat_of_isOther hminus) (by decide)
    · contradiction

theorem isNegated_cons {t : Token} {b : Bool} (h : signFlip? t = some b) (ts : TokenList) :
    isNegated (t :: ts) = (b ^^ isNegated ts) := by
  -- A sign flips exactly if it is a minus sign.
  have hb : b = t.isOther '-' := by
    unfold signFlip? at h
    split at h
    · rename_i hblank
      obtain rfl : b = false := by simpa using h.symm
      rcases Bool.or_eq_true_iff.mp hblank with hspace | hplus
      · obtain ⟨c, rfl⟩ := hasCat_iff.mp hspace
        simp [Token.isOther, Token.other]
      · rw [isOther_iff.mp hplus]
        decide
    · split at h <;> simp_all
  subst hb
  -- One more minus sign changes whether their number is odd.
  unfold isNegated
  rw [List.countP_cons]
  cases t.isOther '-' with
  | false => simp
  | true =>
    rcases Nat.mod_two_eq_zero_or_one (ts.countP (·.isOther '-')) with heven | hodd
    · simp [Nat.add_mod, heven]
    · simp [Nat.add_mod, hodd]

namespace Expander

open Eng

variable {m m' : Machine}

/-- One round of `scanSigns`. -/
def signStep (x : Expander) (neg : Bool) : Eng (Step Bool (Bool × Token)) := do
  let t ← expect (← x.next?) .missingNumber []
  if t.hasCat .space || t.isOther '+' then return .again neg
  else if t.isOther '-' then return .again (!neg)
  else return .done (neg, t)

theorem scanSigns_eq_iterate (x : Expander) : x.scanSigns = iterate x.signStep x.fuel false := rfl

theorem signStep_of_some (x : Expander) (neg : Bool) {t : Token} {b : Bool}
    (h : x.next? m = .ok (some t) m') (ht : signFlip? t = some b) :
    x.signStep neg m = .ok (.again (neg ^^ b)) m' := by
  unfold signStep
  rw [bind_of_ok h, bind_of_ok (expect_some ..)]
  unfold signFlip? at ht
  split at ht
  · rename_i hblank
    obtain rfl : b = false := by simpa using ht.symm
    rw [if_pos hblank, Bool.xor_false]
    rfl
  · rename_i hblank
    split at ht
    · rename_i hminus
      obtain rfl : b = true := by simpa using ht.symm
      rw [if_neg hblank, if_pos hminus, Bool.xor_true]
      rfl
    · contradiction

theorem signStep_of_none (x : Expander) (neg : Bool) {t : Token}
    (h : x.next? m = .ok (some t) m') (ht : signFlip? t = none) :
    x.signStep neg m = .ok (.done (neg, t)) m' := by
  unfold signStep
  rw [bind_of_ok h, bind_of_ok (expect_some ..)]
  unfold signFlip? at ht
  split at ht
  · contradiction
  · rename_i hblank
    split at ht
    · contradiction
    · rename_i hminus
      rw [if_neg hblank, if_neg hminus]
      rfl

/-- Signs are read up to the first other token. -/
theorem iterate_signStep (x : Expander) (hx : 0 < x.fuel) (signs : TokenList) (t : Token)
    (ts : TokenList) (hsigns : ∀ s ∈ signs, (signFlip? s).isSome) (ht : signFlip? t = none)
    (n : Nat) (neg : Bool) (m : Machine) (hm : m.marked = none) (hunexp : Unexpandable m.env t) :
    iterate x.signStep (n + signs.length + 1) neg (m.feed (signs ++ t :: ts)) =
      .ok (neg ^^ isNegated signs, t) (m.ready.feed ts) := by
  induction signs generalizing neg m with
  | nil =>
    rw [List.nil_append, iterate_of_done (x.signStep_of_none neg
      (x.next?_feed_cons hx m t ts hm hunexp) ht), isNegated_nil, Bool.xor_false]
  | cons s signs ih =>
    rw [List.forall_mem_cons] at hsigns
    obtain ⟨b, hb⟩ := Option.isSome_iff_exists.mp hsigns.1
    have hread := x.next?_feed_cons hx m s (signs ++ t :: ts) hm
      (unexpandable_of_not_isCommand _ (not_isCommand_of_signFlip? hb))
    rw [List.cons_append, iterate_of_again (x.signStep_of_some neg hread hb), List.length_cons,
      ← Nat.add_assoc, ih hsigns.2 (neg ^^ b) m.ready rfl hunexp, isNegated_cons hb,
      Bool.xor_assoc]
    rfl

theorem scanSigns_feed (x : Expander) (signs : TokenList) (t : Token) (ts : TokenList)
    (hfuel : signs.length < x.fuel) (hsigns : ∀ s ∈ signs, (signFlip? s).isSome)
    (ht : signFlip? t = none) (m : Machine) (hm : m.marked = none)
    (hunexp : Unexpandable m.env t) :
    x.scanSigns (m.feed (signs ++ t :: ts)) = .ok (isNegated signs, t) (m.ready.feed ts) := by
  obtain ⟨n, hn⟩ := Nat.exists_eq_add_of_lt hfuel
  have hrun := x.iterate_signStep (by omega) signs t ts hsigns ht n false m hm hunexp
  rw [scanSigns_eq_iterate, hn, Nat.add_comm signs.length n, hrun, Bool.false_xor]

end Expander

/-! ## Decimal digits -/

/-- The largest integer as a natural number. -/
theorem Count.max_eq_ofNat : Count.max = Int64.ofNat 0x7FFFFFFF := rfl

theorem not_gt_max_ofNat {n : Nat} (h : n ≤ 0x7FFFFFFF) : ¬ Int64.ofNat n > Count.max := by
  rw [Count.max_eq_ofNat, gt_iff_lt, Int64.ofNat_lt_iff_lt (by decide) (by omega)]
  omega

/-- A digit is added to a number. -/
theorem ofNat_mul_ten_add (v d : Nat) :
    Int64.ofNat v * 10 + Int64.ofNat d = Int64.ofNat (10 * v + d) := by
  rw [Int64.ofNat_add, Int64.ofNat_mul, Int64.mul_comm]
  rfl

/-- The value of a digit character. -/
def digitValue (c : Char) : Nat :=
  c.toNat - '0'.toNat

theorem digitValue_lt {c : Char} (hc : c.isDigit = true) : digitValue c < 10 := by
  have hbounds : 48 ≤ c.toNat ∧ c.toNat ≤ 57 := by
    simpa [Char.isDigit, UInt32.le_iff_toNat_le] using hc
  show c.toNat - 48 < 10
  omega

/-- The token of a digit character counts as this digit. -/
theorem digit?_ofChar {c : Char} (hc : c.isDigit = true) :
    digit? (TokenList.ofChar c) 10 = some (Int64.ofNat (digitValue c)) := by
  have hbounds : 48 ≤ c.toNat ∧ c.toNat ≤ 57 := by
    simpa [Char.isDigit, UInt32.le_iff_toNat_le] using hc
  have hspace : (c == ' ') = false := by
    rw [beq_eq_false_iff_ne]
    rintro rfl
    exact absurd hbounds.1 (by decide)
  have hlt := digitValue_lt hc
  have hcode : Int64.ofInt (CharCode.ofChar c - 48) = Int64.ofNat (digitValue c) := by
    rw [← Int64.ofInt_eq_ofNat]
    congr 1
    show (c.toNat : Int) - 48 = (c.toNat - 48 : Nat)
    omega
  have hrange : True ∧ 48 ≤ CharCode.ofChar c ∧ CharCode.ofChar c ≤ 57 := by
    refine ⟨trivial, ?_, ?_⟩
    · show (48 : Int) ≤ c.toNat
      omega
    · show (c.toNat : Int) ≤ 57
      omega
  simp only [digit?, TokenList.ofChar, hspace, Token.other, Bool.false_eq_true, if_false]
  rw [if_pos hrange, hcode]
  have hradix : Int64.ofNat (digitValue c) < 10 :=
    (Int64.ofNat_lt_iff_lt (by omega) (by decide)).mpr hlt
  simp [Option.filter, hradix]

theorem not_isCommand_of_digit? {t : Token} {radix d : Int64} (h : digit? t radix = some d) :
    t.isCommand = false := by
  cases t with
  | char c k => cases k <;> first | rfl | simp [digit?] at h
  | _ => contradiction

theorem not_isCommand_ofChar (c : Char) : (TokenList.ofChar c).isCommand = false := by
  unfold TokenList.ofChar
  split <;> rfl

/-- A number does not get smaller when digits are added. -/
theorem le_ofDigitChars (ds : List Char) (v : Nat) : v ≤ Nat.ofDigitChars 10 ds v := by
  induction ds generalizing v with
  | nil => exact Nat.le_refl v
  | cons d ds ih =>
    rw [Nat.ofDigitChars_cons]
    exact Nat.le_trans (by omega) (ih _)

namespace Expander

open Eng

variable {m m' : Machine}

/-- Adding a digit to a constant that does not get too big. -/
theorem Constant.add_ofNat (v k d : Nat) (h : 10 * v + d ≤ 0x7FFFFFFF) :
    Constant.add ⟨Int64.ofNat v, k, false⟩ 10 (Int64.ofNat d) =
      ⟨Int64.ofNat (10 * v + d), k + 1, false⟩ := by
  simp only [Constant.add, ofNat_mul_ten_add, if_neg (not_gt_max_ofNat h)]

theorem mulFits_ten_addFits {v d : Nat} (h : 10 * v + d ≤ 0x7FFFFFFF) :
    (Word.mulFits (Int64.ofNat v) 10 && Word.addFits (Int64.ofNat v * 10) (Int64.ofNat d)) =
      true := by
  have hv : (Int64.ofNat v).toInt = v := Int64.toInt_ofNat_of_lt (by omega)
  have hd : (Int64.ofNat d).toInt = d := Int64.toInt_ofNat_of_lt (by omega)
  have hten : (10 : Int64).toInt = 10 := by decide
  have hmul : Word.mulFits (Int64.ofNat v) 10 = true :=
    Word.mulFits_of_natAbs_le (m := 0x7FFFFFFF) (n := 10) (by omega) (by omega) (by decide)
  have hprod := Word.toInt_mul hmul
  rw [hten] at hprod
  rw [hmul, Word.addFits_of_bounds (by omega) (by omega)]
  rfl

theorem Constant.addFits_ofNat {v k d : Nat} (h : 10 * v + d ≤ 0x7FFFFFFF) :
    Constant.addFits ⟨Int64.ofNat v, k, false⟩ 10 (Int64.ofNat d) = true :=
  mulFits_ten_addFits h

/-- One round of `scanRadix`. -/
def radixStep (x : Expander) (radix : Int64) :
    Constant × Option Token → Eng (Step (Constant × Option Token) Constant) :=
  fun (c, first) => do
    let t? ←
      match first with
      | some t => pure (some t)
      | none => x.next?
    match t? with
    | none => return .done c
    | some t =>
      match digit? t radix, ← isFrozen with
      | some d, false =>
        observe (Constant.addFits c radix d)
        return .again (Constant.add c radix d, none)
      | _, _ =>
        unless t.hasCat .space do push [t]
        return .done c

/-- What `scanRadix` makes of the constant. -/
def finishConstant (c : Constant) : Eng Int64 :=
  if c.digits = 0 then fail .missingNumber []
  else if c.tooBig then fail .numberTooBig []
  else return c.value

theorem scanRadix_eq_iterate (x : Expander) (radix : Int64) (first : Option Token) :
    x.scanRadix radix first =
      iterate (x.radixStep radix) x.fuel (({} : Constant), first) >>= finishConstant := rfl

theorem radixStep_first (x : Expander) (radix : Int64) (c : Constant) {t : Token} {d : Int64}
    (ht : digit? t radix = some d) (hfrozen : m.frozen = false)
    (hfits : Constant.addFits c radix d = true) :
    x.radixStep radix (c, some t) m = .ok (.again (Constant.add c radix d, none)) m := by
  unfold radixStep
  dsimp only
  rw [bind_of_ok (pure_apply (some t) m)]
  dsimp only
  rw [bind_of_ok (isFrozen_apply m), ht, hfrozen]
  dsimp only
  rw [bind_of_ok (observe_of_fits hfits m)]
  rfl

theorem radixStep_digit (x : Expander) (radix : Int64) (c : Constant) {t : Token} {d : Int64}
    (h : x.next? m = .ok (some t) m') (ht : digit? t radix = some d)
    (hfrozen : m'.frozen = false) (hfits : Constant.addFits c radix d = true) :
    x.radixStep radix (c, none) m = .ok (.again (Constant.add c radix d, none)) m' := by
  unfold radixStep
  dsimp only
  rw [bind_of_ok h]
  dsimp only
  rw [bind_of_ok (isFrozen_apply m'), ht, hfrozen]
  dsimp only
  rw [bind_of_ok (observe_of_fits hfits m')]
  rfl

theorem radixStep_none (x : Expander) (radix : Int64) (c : Constant)
    (h : x.next? m = .ok none m') : x.radixStep radix (c, none) m = .ok (.done c) m' := by
  unfold radixStep
  dsimp only
  rw [bind_of_ok h]
  rfl

/-- A token that is no digit ends the constant; a space is swallowed, other tokens are
    put back. -/
theorem radixStep_stop (x : Expander) (radix : Int64) (c : Constant) {t : Token}
    (h : x.next? m = .ok (some t) m') (ht : digit? t radix = none) :
    x.radixStep radix (c, none) m =
      .ok (.done c) (if t.hasCat .space then m' else m'.feed [t]) := by
  unfold radixStep
  dsimp only
  rw [bind_of_ok h]
  dsimp only
  rw [bind_of_ok (isFrozen_apply m'), ht]
  dsimp only
  by_cases hspace : t.hasCat .space = true
  · rw [if_pos hspace]
    simp only [hspace, if_true]
    rfl
  · rw [if_neg hspace]
    simp only [hspace]
    rw [bind_of_ok (show _ = EStateM.Result.ok () _ from push_apply m' (by simp))]
    rfl

/-- What is read next ends a constant and leaves the machine `m'`. -/
def EndsDigits (x : Expander) (m m' : Machine) : Prop :=
  ∀ c, x.radixStep 10 (c, none) m = .ok (.done c) m'

theorem endsDigits_space (x : Expander) (hx : 0 < x.fuel) (m : Machine) (ts : TokenList) :
    x.EndsDigits (m.ready.feed (.space :: ts)) (m.ready.feed ts) := by
  intro c
  have hread := x.next?_feed_of_not_isCommand hx m (t := .space) rfl ts
  rw [x.radixStep_stop 10 c hread (by decide)]
  rfl

theorem endsDigits_feed (x : Expander) (hx : 0 < x.fuel) (m : Machine) {t : Token}
    (ts : TokenList) (ht : digit? t 10 = none) (hspace : t.hasCat .space = false)
    (hunexp : Unexpandable m.env t) :
    x.EndsDigits (m.ready.feed (t :: ts)) (m.ready.feed (t :: ts)) := by
  intro c
  rw [x.radixStep_stop 10 c (x.next?_feed_cons hx m.ready t ts rfl hunexp) ht, hspace]
  simp only [Bool.false_eq_true, if_false, Machine.ready_ready, Machine.feed_feed]
  rfl

/-- The digits behind the first ones, whose number is `v`. -/
theorem iterate_radixStep (x : Expander) (hx : 0 < x.fuel) (ds : List Char)
    (hds : ∀ d ∈ ds, d.isDigit = true) (ts : TokenList) (m m' : Machine)
    (hend : x.EndsDigits (m.ready.feed ts) m') (n v k : Nat)
    (hvalue : Nat.ofDigitChars 10 ds v ≤ 0x7FFFFFFF) :
    iterate (x.radixStep 10) (n + ds.length + 1) (⟨Int64.ofNat v, k, false⟩, none)
        (m.ready.feed (ds.map TokenList.ofChar ++ ts)) =
      .ok ⟨Int64.ofNat (Nat.ofDigitChars 10 ds v), k + ds.length, false⟩ m' := by
  induction ds generalizing v k with
  | nil => exact iterate_of_done (hend _) n
  | cons d ds ih =>
    rw [List.forall_mem_cons] at hds
    have hcons : Nat.ofDigitChars 10 (d :: ds) v = Nat.ofDigitChars 10 ds (10 * v + digitValue d) :=
      Nat.ofDigitChars_cons
    rw [hcons] at hvalue ⊢
    have hd : 10 * v + digitValue d ≤ 0x7FFFFFFF := Nat.le_trans (le_ofDigitChars ds _) hvalue
    have hread := x.next?_feed_of_not_isCommand hx m (not_isCommand_ofChar d)
      (ds.map TokenList.ofChar ++ ts)
    rw [List.map_cons, List.cons_append,
      iterate_of_again (x.radixStep_digit 10 _ hread (digit?_ofChar hds.1) rfl
        (Constant.addFits_ofNat hd)), Constant.add_ofNat v k _ hd, List.length_cons,
      ← Nat.add_assoc, ih hds.2 _ _ hvalue, Nat.add_right_comm, Nat.add_assoc]

/-- Decimal digits are read as the number that they denote. -/
theorem scanRadix_digits (x : Expander) (d : Char) (ds : List Char)
    (hds : ∀ c ∈ d :: ds, c.isDigit = true)
    (hvalue : Nat.ofDigitChars 10 (d :: ds) 0 ≤ 0x7FFFFFFF) (hfuel : ds.length + 2 ≤ x.fuel)
    (ts : TokenList) (m m' : Machine) (hend : x.EndsDigits (m.ready.feed ts) m') :
    x.scanRadix 10 (some (TokenList.ofChar d)) (m.ready.feed (ds.map TokenList.ofChar ++ ts)) =
      .ok (Int64.ofNat (Nat.ofDigitChars 10 (d :: ds) 0)) m' := by
  obtain ⟨n, hn⟩ := Nat.exists_eq_add_of_le' hfuel
  rw [List.forall_mem_cons] at hds
  -- The first digit is at hand, and the loop reads the others with the value so far as its start.
  have hcons : Nat.ofDigitChars 10 (d :: ds) 0 = Nat.ofDigitChars 10 ds (10 * 0 + digitValue d) :=
    Nat.ofDigitChars_cons
  rw [hcons] at hvalue ⊢
  have hd : 10 * 0 + digitValue d ≤ 0x7FFFFFFF := Nat.le_trans (le_ofDigitChars ds _) hvalue
  have hloop := x.iterate_radixStep (by omega) ds hds.2 ts m m' hend n _ 1 hvalue
  have hfirst := x.radixStep_first 10 {} (digit?_ofChar hds.1) (m := m.ready.feed
    (ds.map TokenList.ofChar ++ ts)) rfl (Constant.addFits_ofNat (v := 0) (k := 0) hd)
  have hrounds : x.fuel = (n + ds.length + 1) + 1 := by omega
  have hread : iterate (x.radixStep 10) x.fuel (({} : Constant), some (TokenList.ofChar d))
      (m.ready.feed (ds.map TokenList.ofChar ++ ts)) =
      .ok ⟨Int64.ofNat (Nat.ofDigitChars 10 ds (10 * 0 + digitValue d)), 1 + ds.length, false⟩
        m' := by
    rw [hrounds, iterate_of_again hfirst]
    exact (congrArg (fun c => iterate (x.radixStep 10) (n + ds.length + 1) (c, none) _)
      (Constant.add_ofNat 0 0 _ hd)).trans hloop
  rw [scanRadix_eq_iterate, bind_of_ok hread]
  simp only [finishConstant]
  rw [if_neg (by omega), if_neg (by simp)]
  rfl

/-! ## Signed integers -/

theorem quantity?_of_not_isCommand {t : Token} (ht : t.isCommand = false) (m : Machine) :
    quantity? t m = .ok none m := by
  unfold quantity?
  rw [bind_of_ok (isFrozen_apply m), if_pos (by simp [ht])]
  rfl

/-- A number that begins with a decimal digit is a decimal constant. -/
theorem unsignedWith_of_digit? (x : Expander) (int : Eng Int64) {t : Token} {d : Int64}
    (h : digit? t 10 = some d) (m : Machine) :
    x.unsignedWith int t m = x.scanRadix 10 (some t) m := by
  -- The marks of other constants are no digits.
  have hmark : ∀ {c : CharCode}, digit? (.other c) 10 = none → t ≠ .other c := by
    rintro c hc rfl
    rw [hc] at h
    contradiction
  unfold unsignedWith
  rw [bind_of_ok (quantity?_of_not_isCommand (not_isCommand_of_digit? h) m)]
  simp only [hmark (show digit? (.other 96) 10 = none by decide),
    hmark (show digit? (.other 39) 10 = none by decide),
    hmark (show digit? (.other 34) 10 = none by decide), if_false, h, Option.isSome_some,
    if_true]

theorem signFlip?_of_digit? {t : Token} {d : Int64} (h : digit? t 10 = some d) :
    signFlip? t = none := by
  have hspace : t.hasCat .space = false := by
    rw [Bool.eq_false_iff]
    intro hcat
    obtain ⟨c, rfl⟩ := hasCat_iff.mp hcat
    simp [digit?] at h
  have hsign : ∀ c : Char, digit? (.char (CharCode.ofChar c) .other) 10 = none →
      t.isOther c = false := by
    intro c hc
    rw [Bool.eq_false_iff]
    intro hother
    rw [isOther_iff.mp hother, hc] at h
    contradiction
  simp only [signFlip?, hspace, hsign '+' (by decide), hsign '-' (by decide), Bool.or_self]
  rfl

/-- Signs and decimal digits are read as the number that they denote. -/
theorem scanInteger_digits (x : Expander) (signs : TokenList) (d : Char) (ds : List Char)
    (hsigns : ∀ s ∈ signs, (signFlip? s).isSome) (hds : ∀ c ∈ d :: ds, c.isDigit = true)
    (hvalue : Nat.ofDigitChars 10 (d :: ds) 0 ≤ 0x7FFFFFFF)
    (hfuel : signs.length + ds.length + 2 ≤ x.fuel) (ts : TokenList) (m m' : Machine)
    (hm : m.marked = none) (hend : x.EndsDigits (m.ready.feed ts) m') :
    x.scanInteger (m.feed (signs ++ (d :: ds).map TokenList.ofChar ++ ts)) =
      .ok (if isNegated signs then -Int64.ofNat (Nat.ofDigitChars 10 (d :: ds) 0)
        else Int64.ofNat (Nat.ofDigitChars 10 (d :: ds) 0)) m' := by
  obtain ⟨n, hn⟩ := Nat.exists_eq_add_of_le' hfuel
  have hd : d.isDigit = true := hds d List.mem_cons_self
  have hread := x.scanSigns_feed signs (TokenList.ofChar d) (ds.map TokenList.ofChar ++ ts)
    (by omega) hsigns (signFlip?_of_digit? (digit?_ofChar hd)) m hm
    (unexpandable_of_not_isCommand _ (not_isCommand_ofChar d))
  have hdigits := x.scanRadix_digits d ds hds hvalue (by omega) ts m m' hend
  have hinput : signs ++ (d :: ds).map TokenList.ofChar ++ ts =
      signs ++ TokenList.ofChar d :: (ds.map TokenList.ofChar ++ ts) := by
    simp
  rw [hinput, scanInteger, hn]
  show (x.integerWithin (_ + 1)) _ = _
  rw [integerWithin, bind_of_ok hread]
  dsimp only
  -- A value that fits a register also fits with the other sign.
  have hlt : (Int64.ofNat (Nat.ofDigitChars 10 (d :: ds) 0)).toInt.natAbs < 2 ^ 63 := by
    rw [Int64.toInt_ofNat_of_lt (by omega)]
    omega
  have hfits : (!isNegated signs ||
      Word.negFits (Int64.ofNat (Nat.ofDigitChars 10 (d :: ds) 0))) = true := by
    rw [Word.negFits_of_natAbs_lt hlt, Bool.or_true]
  rw [bind_of_ok ((x.unsignedWith_of_digit? _ (digit?_ofChar hd) _).trans hdigits),
    bind_of_ok (observe_of_fits hfits _)]
  rfl

end Expander

/-! ## Literals -/

/-- A decimal integer as it is written: signs, with or without spaces, and digits. -/
structure Literal where
  signs : List Char
  digits : List Char
  isSign : ∀ c ∈ signs, c = '+' ∨ c = '-' ∨ c = ' '
  isDigit : ∀ c ∈ digits, c.isDigit = true
  digits_ne_nil : digits ≠ []
  le_max : Nat.ofDigitChars 10 digits 0 ≤ Count.max.toInt

namespace Literal

/-- The tokens of a literal. -/
def tokens (l : Literal) : TokenList :=
  (l.signs ++ l.digits).map TokenList.ofChar

/-- The number that a literal denotes. -/
def value (l : Literal) : Int :=
  if l.signs.count '-' % 2 = 1 then -(Nat.ofDigitChars 10 l.digits 0 : Int)
  else Nat.ofDigitChars 10 l.digits 0

/-- The register value of a literal. -/
def word (l : Literal) : Int64 :=
  if isNegated (l.signs.map TokenList.ofChar) then -Int64.ofNat (Nat.ofDigitChars 10 l.digits 0)
  else Int64.ofNat (Nat.ofDigitChars 10 l.digits 0)

theorem magnitude_le (l : Literal) : Nat.ofDigitChars 10 l.digits 0 ≤ 0x7FFFFFFF := by
  have hmax : Count.max.toInt = 0x7FFFFFFF := by decide
  have hle := l.le_max
  omega

theorem isNegated_signs (l : Literal) :
    isNegated (l.signs.map TokenList.ofChar) = (l.signs.count '-' % 2 == 1) := by
  unfold isNegated
  rw [List.countP_map]
  congr 2
  rw [List.count]
  apply List.countP_congr
  intro c hc
  rcases l.isSign c hc with rfl | rfl | rfl <;> decide

theorem toInt_word (l : Literal) : l.word.toInt = l.value := by
  have hle := l.magnitude_le
  unfold word value
  rw [l.isNegated_signs]
  by_cases hodd : l.signs.count '-' % 2 = 1
  · rw [if_pos (by simpa using hodd), if_pos hodd, Int64.toInt_neg_ofNat_of_le (by omega)]
  · rw [if_neg (by simpa using hodd), if_neg hodd, Int64.toInt_ofNat_of_lt (by omega)]

theorem signFlip?_sign (l : Literal) :
    ∀ t ∈ l.signs.map TokenList.ofChar, (signFlip? t).isSome := by
  intro t ht
  obtain ⟨c, hc, rfl⟩ := List.mem_map.mp ht
  rcases l.isSign c hc with rfl | rfl | rfl <;> decide

theorem length_tokens (l : Literal) : l.tokens.length = l.signs.length + l.digits.length := by
  simp [tokens]

theorem not_isCommand_of_mem_tokens (l : Literal) {t : Token} (ht : t ∈ l.tokens) :
    t.isCommand = false := by
  obtain ⟨c, -, rfl⟩ := List.mem_map.mp ht
  exact not_isCommand_ofChar c

/-- A literal is read as the number that it denotes. -/
theorem scanInteger_tokens (l : Literal) (x : Expander) (hfuel : l.tokens.length + 1 ≤ x.fuel)
    (ts : TokenList) (m m' : Machine) (hm : m.marked = none)
    (hend : x.EndsDigits (m.ready.feed ts) m') :
    x.scanInteger (m.feed (l.tokens ++ ts)) = .ok l.word m' := by
  obtain ⟨d, ds, hcons⟩ := List.exists_cons_of_ne_nil l.digits_ne_nil
  have hdigits := l.isDigit
  have hvalue := l.magnitude_le
  have hlength := l.length_tokens
  unfold word tokens
  rw [hcons] at hdigits hvalue hlength ⊢
  rw [List.length_cons] at hlength
  rw [List.map_append]
  exact x.scanInteger_digits _ d ds l.signFlip?_sign hdigits hvalue
    (by rw [List.length_map]; omega) ts m m' hm hend

end Literal

end TexEngine
