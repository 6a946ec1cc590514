/-
  TexEngine.Proofs.Engine.Legal.Scan

  The specifications of everything that reads values.  Numbers, lengths and glues that
  are read are in range whatever the input is, and no operation on words wraps around
  while they are read; tokens that are read or put back are legal.

  All of this rests on what expanding a token does, which is an assumption about the
  expander (`Expander.KeepsTo`).  Nothing here touches the conditional stack, so that it
  holds for every discipline of expansion.
-/
import TexEngine.Engine.Scan.Tokens
import TexEngine.Proofs.Engine.Legal.Operations

namespace TexEngine

open Eng Discipline

/-! ## Values and cells -/

/-- The value may be kept in a register of its type. -/
def Value.Legal : Value → Prop
  | .int n => Count.InRange n
  | .dimen d => Dimen.InRange d
  | .glue g => g.IsProper
  | .toks ts => TokenList.Legal ts

theorem Value.count_inRange_toInt {v : Value} (h : v.Legal) : Count.InRange v.toInt := by
  cases v with
  | int n => exact h
  | dimen d => exact Dimen.count_inRange h
  | glue g => exact Dimen.count_inRange h.inRange
  | toks ts =>
    show Count.InRange 0
    decide

theorem Value.legal_tokens {v : Value} (h : v.Legal) : TokenList.Legal v.tokens := by
  cases v with
  | toks ts => exact h
  | _ => exact TokenList.legal_ofText _

/-- What the cell denotes is legal. -/
def Cell.Legal : Cell → Prop
  | .charCode _ c => c.InRange
  | .constant n => Count.InRange n
  | _ => True

variable {x : Expander} {D : Discipline} [Expanding D] {P : Prop}

theorem Cell.read_spec {cell : Cell} (h : P → cell.Legal) :
    Spec D P cell.read Value.Legal := by
  have hlevel : ∀ n : Nat, n < 2 ^ 31 → Count.InRange (Int64.ofNat n) := by
    intro n hn
    rw [Count.inRange_iff, Int64.toInt_ofNat_of_lt (by omega)]
    omega
  -- Levels and line numbers are not assigned; they are in range because `LevelsInRange` says so
  -- of everything that was read.
  refine get_spec.bind fun m => ?_
  cases cell with
  | register bank name =>
    cases bank with
    | count => exact .pure fun hP => hP.2.env.count name
    | dimen => exact .pure fun hP => hP.2.env.dimen name
    | skip => exact .pure fun hP => hP.2.env.glue name
    | toks => exact .pure fun hP => hP.2.env.tokens name
  | catcode c =>
    refine .pure fun hP => ?_
    have hbounds := Catcode.toInt_bounds (hP.2.env.catcode c)
    show Count.InRange _
    rw [Count.inRange_iff, Int64.toInt_ofInt_of_le (by omega) (by omega)]
    omega
  | charCode t c => exact .pure fun hP => hP.2.env.count_inRange_charCode t (h hP.1)
  | fontDimen f n => exact .pure fun hP => hP.2.env.fonts f n.toInt
  | inputLine =>
    refine (observeLevel_spec _).bind fun _ => .pure fun hP => ?_
    have hline := m.input.line_locator_nonneg
    have hlt := hP.2
    show Count.InRange _
    rw [Count.inRange_iff, Int64.toInt_ofInt_of_le (by omega) (by omega)]
    omega
  | groupLevel => exact (observeLevel_spec _).bind fun _ => .pure fun hP => hlevel _ hP.2
  | conditionalLevel => exact (observeLevel_spec _).bind fun _ => .pure fun hP => hlevel _ hP.2
  | constant n => exact .pure fun hP => h hP.1

namespace Expander

/-! ## Reading with expansion -/

/-- Expanding a token keeps to the given discipline. -/
def KeepsTo (D : Discipline) (x : Expander) : Prop :=
  ∀ {P : Prop} {μ : Meaning} {t : Token}, (P → μ.Legal) → (P → t.Legal) →
    Spec D P (x.expand μ t) fun _ => True

/-- Expanding a token keeps to the discipline of expansion. -/
def Disciplined (x : Expander) : Prop :=
  ∀ {P : Prop} {μ : Meaning} {t : Token}, (P → μ.Legal) → (P → t.Legal) →
    Spec expanding P (x.expand μ t) fun _ => True

variable (hx : x.KeepsTo D)

include hx

theorem next?_spec : Spec D P x.next? fun t? => ∀ t ∈ t?, t.Legal := by
  refine .iterate (I := fun _ => True) (fun _ => ?_) _ fun _ => True.intro
  refine token?_spec.bind fun t? => ?_
  cases t? with
  | none => exact .pure fun hP => hP.2
  | some t =>
    refine isFrozen_spec.seq fun frozen => ?_
    split
    · exact .pure fun hP => hP.2
    · refine (meaning?_spec t).bind fun μ? => ?_
      cases μ? with
      | none => exact .pure fun hP => hP.1.2
      | some μ =>
        dsimp only
        split
        · refine Spec.seq (hx (fun hP => ?_) fun hP => ?_) fun _ => .pure fun _ => True.intro
          · exact hP.2 μ rfl
          · exact hP.1.2 t rfl
        · exact .pure fun hP => hP.1.2

theorem nextNonSpace?_spec : Spec D P x.nextNonSpace? fun t? => ∀ t ∈ t?, t.Legal := by
  refine .iterate (I := fun _ => True) (fun _ => ?_) _ fun _ => True.intro
  refine (next?_spec hx).bind fun t? => ?_
  cases t? with
  | none => exact .pure fun hP => hP.2
  | some t =>
    refine .pure fun hP => ?_
    split
    · exact True.intro
    · exact hP.2

theorem nextNonRelax?_spec : Spec D P x.nextNonRelax? fun t? => ∀ t ∈ t?, t.Legal := by
  refine .iterate (I := fun _ => True) (fun _ => ?_) _ fun _ => True.intro
  refine (next?_spec hx).bind fun t? => ?_
  cases t? with
  | none => exact .pure fun hP => hP.2
  | some t =>
    refine isFrozen_spec.seq fun frozen => (meaning?_spec t).seq fun μ? => ?_
    split
    · exact .pure fun _ => True.intro
    · exact .pure fun hP => hP.2

/-! ## Keywords and signs -/

theorem scanKeyword_spec (keyword : String) :
    Spec D P (x.scanKeyword keyword) fun _ => True := by
  refine .iterate (I := fun s => TokenList.Legal s.2.2) ?_ _ fun _ => TokenList.legal_nil
  rintro ⟨wanted, started, seen⟩
  cases wanted with
  | nil => exact .pure fun _ => True.intro
  | cons k ks =>
    refine (next?_spec hx).bind fun t? => ?_
    cases t? with
    | none =>
      refine Spec.seq (push_spec fun hP => ?_) fun _ => .pure fun _ => True.intro
      exact TokenList.legal_reverse.mpr hP.1.2
    | some t =>
      have hseen : ∀ {P : Prop}, (P ∧ TokenList.Legal seen) ∧ (∀ t' ∈ some t, t'.Legal) →
          TokenList.Legal (t :: seen) :=
        fun hP => TokenList.legal_cons.mpr ⟨hP.2 t rfl, hP.1.2⟩
      dsimp only
      split
      · exact .pure hseen
      · split
        · exact .pure hseen
        · refine Spec.seq (push_spec fun hP => ?_) fun _ => .pure fun _ => True.intro
          exact TokenList.legal_reverse.mpr (hseen hP)

theorem scanOptionalEquals_spec : Spec D P x.scanOptionalEquals fun _ => True := by
  refine (nextNonSpace?_spec hx).bind fun t? => ?_
  cases t? with
  | none => exact .done
  | some t =>
    dsimp only
    split
    · exact .done
    · exact pushBack_spec fun hP => hP.2 t rfl

theorem skipOptionalSpace_spec : Spec D P x.skipOptionalSpace fun _ => True := by
  refine (next?_spec hx).bind fun t? => ?_
  cases t? with
  | none => exact .done
  | some t =>
    dsimp only
    split
    · exact .done
    · exact pushBack_spec fun hP => hP.2 t rfl

theorem scanSigns_spec : Spec D P x.scanSigns fun r => r.2.Legal := by
  refine .iterate (I := fun _ => True) (fun neg => ?_) _ fun _ => True.intro
  refine (next?_spec hx).required fun t => ?_
  split
  · exact .pure fun _ => True.intro
  · split
    · exact .pure fun _ => True.intro
    · exact .pure fun hP => hP.2

/-! ## Constants -/

omit hx in
theorem digit?_bounds {t : Token} {radix d : Int64} (h : digit? t radix = some d) :
    0 ≤ d.toInt ∧ d.toInt ≤ 15 ∧ d.toInt < radix.toInt := by
  cases t with
  | char c k =>
    unfold digit? at h
    dsimp only at h
    obtain ⟨hd, hlt⟩ := Option.filter_eq_some_iff.mp h
    have hradix : d.toInt < radix.toInt := Int64.lt_iff_toInt_lt.mp (by simpa using hlt)
    have hvalue : ∀ {c low high base : Int}, low ≤ c → c ≤ high → base ≤ low → high ≤ base + 15 →
        Int64.ofInt (c - base) = d → 0 ≤ d.toInt ∧ d.toInt ≤ 15 ∧ d.toInt < radix.toInt := by
      intro c low high base hlow hhigh hbase hlimit hc
      have htoInt : d.toInt = c - base := by
        rw [← hc, Int64.toInt_ofInt_of_le (by omega) (by omega)]
      exact ⟨by omega, by omega, hradix⟩
    split at hd
    · rename_i hdigit
      injection hd with hd
      exact hvalue hdigit.2.1 hdigit.2.2 (by decide) (by decide) hd
    · split at hd
      · rename_i hletter
        injection hd with hd
        exact hvalue hletter.2.2.1 hletter.2.2.2 (by decide) (by decide) hd
      · contradiction
  | _ => contradiction

/-- The value of the constant read so far is in range. -/
def Constant.Legal (c : Constant) : Prop :=
  0 ≤ c.value.toInt ∧ c.value.toInt ≤ 0x7FFFFFFF

omit hx in
/-- Adding a digit, of whatever radix. -/
theorem Constant.add_legal {c : Constant} (hc : c.Legal) {radix d : Int64}
    (hradix : 0 ≤ radix.toInt ∧ radix.toInt ≤ 16) (hd : 0 ≤ d.toInt ∧ d.toInt ≤ 15) :
    Constant.addFits c radix d = true ∧ (c.add radix d).Legal := by
  have hmax : Count.max.toInt = 0x7FFFFFFF := by decide
  obtain ⟨hlow, hhigh⟩ := hc
  have hmul : Word.mulFits c.value radix = true :=
    Word.mulFits_of_natAbs_le (m := 0x7FFFFFFF) (n := 16) (by omega) (by omega) (by decide)
  have hprod := Word.toInt_mul hmul
  have hprodLow : 0 ≤ c.value.toInt * radix.toInt := Int.mul_nonneg hlow hradix.1
  have hprodHigh : (c.value.toInt * radix.toInt).natAbs ≤ 0x7FFFFFFF * 16 :=
    Word.natAbs_mul_le (by omega) (by omega)
  have hadd : Word.addFits (c.value * radix) d = true :=
    Word.addFits_of_bounds (by omega) (by omega)
  have hsum := Word.toInt_add hadd
  refine ⟨by rw [addFits, hmul, hadd]; rfl, ?_⟩
  unfold add
  dsimp only
  split
  · show 0 ≤ Count.max.toInt ∧ Count.max.toInt ≤ 0x7FFFFFFF
    omega
  · rename_i hle
    rw [gt_iff_lt, Int64.lt_iff_toInt_lt, hmax] at hle
    show 0 ≤ (c.value * radix + d).toInt ∧ (c.value * radix + d).toInt ≤ 0x7FFFFFFF
    omega

theorem scanRadix_spec {radix : Int64} (hradix : 0 ≤ radix.toInt ∧ radix.toInt ≤ 16)
    {first : Option Token} (hfirst : P → ∀ t ∈ first, t.Legal) :
    Spec D P (x.scanRadix radix first) Count.InRange := by
  have hzero : Constant.Legal {} := ⟨by decide, by decide⟩
  unfold scanRadix
  refine Spec.bind (Q := Constant.Legal) (.iterate
    (I := fun s => s.1.Legal ∧ ∀ t ∈ s.2, t.Legal) ?_ _ ?_) fun c => ?_
  · rintro ⟨c, first⟩
    dsimp -zeta only
    extract_lets stop next
    -- The first token may have been read by the caller; all others are read here.
    have hnext : ∀ t?, Spec D
        ((P ∧ c.Legal ∧ ∀ t ∈ first, t.Legal) ∧ ∀ t ∈ t?, t.Legal) (next t?)
        (Spec.Round (fun s => s.1.Legal ∧ ∀ t ∈ s.2, t.Legal) Constant.Legal) := by
      intro t?
      cases t? with
      | none => exact .pure fun hP => hP.1.2.1
      | some t =>
        refine isFrozen_spec.seq fun frozen => ?_
        split
        · rename_i d hd
          have hdigit := digit?_bounds hd
          refine Spec.seq (observe_spec fun hP => ?_) fun _ => .pure fun hP => ?_
          · exact (Constant.add_legal hP.1.2.1 hradix ⟨hdigit.1, hdigit.2.1⟩).1
          · exact ⟨(Constant.add_legal hP.1.2.1 hradix ⟨hdigit.1, hdigit.2.1⟩).2, by simp⟩
        · split
          · exact .pure fun hP => hP.1.2.1
          · exact (pushBack_spec fun hP => hP.2 t rfl).seq fun _ => .pure fun hP => hP.1.2.1
    cases first with
    | some t => exact (Spec.pure fun hP => hP.2.2).bind hnext
    | none => exact (next?_spec hx).bind hnext
  · exact fun hP => ⟨hzero, hfirst hP⟩
  · split
    · exact fail_spec ..
    · split
      · exact fail_spec ..
      · refine .pure fun hP => ?_
        have hc := hP.2
        unfold Constant.Legal at hc
        rw [Count.inRange_iff]
        omega

theorem scanCharConstant_spec : Spec D P x.scanCharConstant Count.InRange := by
  unfold scanCharConstant
  refine token?_spec.required fun t => ?_
  extract_lets finish
  have hfinish : ∀ {P : Prop} (c : CharCode), Spec D (P ∧ c.InRange) (finish c)
      Count.InRange :=
    fun c => (skipOptionalSpace_spec hx).seq fun _ => .pure fun hP =>
      CodeTable.count_inRange_ofInt hP.2
  split
  · split
    · rename_i c hc
      have hmem : c ∈ CharCode.ofText t.name := by rw [hc]; exact List.mem_singleton_self c
      obtain ⟨ch, -, rfl⟩ := List.mem_map.mp hmem
      exact (Spec.pure fun _ => CharCode.inRange_ofChar ch).bind hfinish
    · exact (failAt_spec ..).bind hfinish
  · exact (Spec.pure fun hP => hP.2).bind hfinish

/-! ## Quantities -/

omit hx in
theorem quantity?_spec (t : Token) :
    Spec D P (quantity? t) fun q => ∀ p ∈ q, p.1.Legal := by
  unfold quantity?
  refine isFrozen_spec.seq fun frozen => ?_
  split
  · exact .pure fun _ => by simp
  · refine (meaning?_spec t).bind fun μ? => ?_
    cases μ? with
    | none => exact .pure fun _ => by simp
    | some μ =>
      refine .pure fun hP p hp => ?_
      obtain ⟨k, -, rfl⟩ := Option.map_eq_some_iff.mp hp
      exact hP.2 μ rfl

theorem scanFont_spec : Spec D P x.scanFont fun _ => True := by
  unfold scanFont
  refine (nextNonSpace?_spec hx).required fun t => ?_
  refine (meaning?_spec t).seq fun μ? => ?_
  split
  · exact .done
  · exact env_spec.seq fun _ => .done
  · exact refuse_spec (fun hP => hP.2) ..

section Numbers

variable {int : Eng Int64} (hint : ∀ {P : Prop}, Spec D P int Count.InRange)

include hint

omit [Expanding D] hx in
theorem numberWith_spec (max : Int64) : Spec D P (numberWith int max) fun _ => True := by
  unfold numberWith
  refine hint.bind fun n => ?_
  split
  · exact fail_spec ..
  · exact .done

omit [Expanding D] hx in
theorem charCodeWith_spec : Spec D P (charCodeWith int) CharCode.InRange := by
  unfold charCodeWith
  refine hint.bind fun n => ?_
  split
  · exact fail_spec ..
  · rename_i hbounds
    refine .pure fun _ => ?_
    have hzero : (0 : Int64).toInt = 0 := by decide
    rw [not_or, Int64.lt_iff_toInt_lt, hzero] at hbounds
    exact ⟨Int.not_lt.mp hbounds.1, Int.not_lt.mp hbounds.2⟩

theorem resolveWith_spec {μ : Meaning} (hμ : P → μ.Legal) :
    Spec D P (x.resolveWith int μ) Cell.Legal := by
  unfold resolveWith
  split
  · exact .pure fun _ => True.intro
  · exact (numberWith_spec hint _).seq fun _ => .pure fun _ => True.intro
  · exact .pure fun _ => True.intro
  · exact .pure fun _ => True.intro
  · exact .pure fun _ => True.intro
  · exact (charCodeWith_spec hint).seq fun _ => .pure fun _ => True.intro
  · exact (charCodeWith_spec hint).bind fun _ => .pure fun hP => hP.2
  · refine hint.seq fun n => (scanFont_spec hx).seq fun f => ?_
    split
    · exact fail_spec ..
    · exact .pure fun _ => True.intro
  · exact .pure fun _ => True.intro
  · exact .pure fun hP => CodeTable.count_inRange_ofInt (hμ hP)
  · exact .pure fun _ => show Count.InRange 0 by decide

theorem unsignedWith_spec {t : Token} (ht : P → t.Legal) :
    Spec D P (x.unsignedWith int t) Count.InRange := by
  unfold unsignedWith
  refine (quantity?_spec t).bind fun q => ?_
  split
  · exact refuse_spec (fun hP => ht hP.1) ..
  · rename_i μ k hk
    refine (resolveWith_spec hx hint fun hP => hP.2 _ rfl).bind fun cell => ?_
    refine (Cell.read_spec fun hP => hP.2).bind fun v => .pure fun hP => ?_
    exact Value.count_inRange_toInt hP.2
  · split
    · exact scanCharConstant_spec hx
    · split
      · exact scanRadix_spec hx (by decide) (by simp)
      · split
        · exact scanRadix_spec hx (by decide) (by simp)
        · split
          · refine scanRadix_spec hx (by decide) fun hP t' ht' => ?_
            rw [← Option.mem_some.mp ht']
            exact ht hP.1
          · exact refuse_spec (fun hP => ht hP.1) ..

end Numbers

/-! ## Integers -/

theorem integerWithin_spec (n : Nat) : Spec D P (x.integerWithin n) Count.InRange := by
  induction n generalizing P with
  | zero => exact .throw _
  | succ n ih =>
    unfold integerWithin
    refine (scanSigns_spec hx).bind fun r => ?_
    obtain ⟨neg, t⟩ := r
    refine (unsignedWith_spec hx ih fun hP => hP.2).bind fun v => ?_
    refine Spec.seq (observe_spec fun hP => ?_) fun _ => .pure fun hP => ?_
    · rw [Count.negFits_of_inRange hP.2, Bool.or_true]
    · split
      · exact Count.inRange_neg hP.2
      · exact hP.2

theorem scanInteger_spec : Spec D P x.scanInteger Count.InRange :=
  integerWithin_spec hx _

theorem scanUnsigned_spec {t : Token} (ht : P → t.Legal) :
    Spec D P (x.scanUnsigned t) Count.InRange :=
  unsignedWith_spec hx (scanInteger_spec hx) ht

theorem scanRegisterNumber_spec : Spec D P x.scanRegisterNumber fun _ => True :=
  numberWith_spec (scanInteger_spec hx) _

theorem scanCharCode_spec : Spec D P x.scanCharCode CharCode.InRange :=
  charCodeWith_spec (scanInteger_spec hx)

theorem resolve_spec {μ : Meaning} (hμ : P → μ.Legal) :
    Spec D P (x.resolve μ) Cell.Legal :=
  resolveWith_spec hx (scanInteger_spec hx) hμ

end Expander

end TexEngine
