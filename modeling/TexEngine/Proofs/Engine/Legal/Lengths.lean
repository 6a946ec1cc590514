/-
  TexEngine.Proofs.Engine.Legal.Lengths

  Lengths and glue that are read are in range.  A number in front of a unit can be as
  large as an integer, so that the units are where the arithmetic needs room: a number
  of units, even magnified, stays far below what a word can hold.
-/
import TexEngine.Proofs.Engine.Legal.Scan

namespace TexEngine.Expander

open Eng Discipline

variable {x : Expander} {D : Discipline} [Expanding D] {P : Prop}

/-! ## Decimal numbers -/

/-- The number in front of a unit: a non-negative integer, and a fraction that may
    have been rounded up to one. -/
structure IsMultiplier (integer frac : Int64) : Prop where
  integer_bounds : 0 ≤ integer.toInt ∧ integer.toInt ≤ 0x7FFFFFFF
  frac_bounds : 0 ≤ frac.toInt ∧ frac.toInt ≤ 65536

theorem isMultiplier_integer {n : Int64} (hn : Count.InRange n) (hnonneg : 0 ≤ n.toInt) :
    IsMultiplier n 0 := by
  rw [Count.inRange_iff] at hn
  exact ⟨⟨hnonneg, by omega⟩, by decide⟩

/-- A multiple of a number or a length. -/
theorem IsMultiplier.fraction {integer frac : Int64} (h : IsMultiplier integer frac) {d : Dimen}
    (hd : Count.InRange d) :
    Dimen.fractionFits integer frac d = true ∧
      ∀ r, Dimen.fraction integer frac d = .ok r → Dimen.InRange r :=
  Dimen.fraction_of_bounds h.integer_bounds h.frac_bounds hd

/-- What has been read of a decimal number is in range. -/
structure DecimalPart.Legal (p : DecimalPart) : Prop where
  integer_bounds : 0 ≤ p.integer.toInt ∧ p.integer.toInt ≤ 0x7FFFFFFF
  digits : ∀ d ∈ p.digits, 0 ≤ d.toInt ∧ d.toInt ≤ 9

theorem DecimalPart.legal_nil : DecimalPart.Legal {} :=
  ⟨by decide, by simp⟩

/-- A further digit of the integer part does not wrap around. -/
theorem DecimalPart.Legal.digit {p : DecimalPart} (hp : p.Legal) {d : Int64}
    (hd : 0 ≤ d.toInt ∧ d.toInt ≤ 15) :
    (Word.mulFits p.integer 10 && Word.addFits (p.integer * 10) d) = true ∧
      (¬ p.integer * 10 + d > Count.max →
        DecimalPart.Legal { p with integer := p.integer * 10 + d }) := by
  have hten : (10 : Int64).toInt = 10 := by decide
  have hmax : Count.max.toInt = 0x7FFFFFFF := by decide
  obtain ⟨hlow, hhigh⟩ := hp.integer_bounds
  have hmul : Word.mulFits p.integer 10 = true :=
    Word.mulFits_of_natAbs_le (m := 0x7FFFFFFF) (n := 10) (by omega) (by omega) (by decide)
  have hprod := Word.toInt_mul hmul
  rw [hten] at hprod
  have hadd : Word.addFits (p.integer * 10) d = true :=
    Word.addFits_of_bounds (by omega) (by omega)
  have hsum := Word.toInt_add hadd
  refine ⟨by rw [hmul, hadd]; rfl, fun hle => ⟨?_, hp.digits⟩⟩
  rw [gt_iff_lt, Int64.lt_iff_toInt_lt, hmax] at hle
  dsimp only
  omega

variable (hx : x.KeepsTo D)

include hx

theorem scanDecimal_spec {t : Token} (ht : P → t.Legal) :
    Spec D P (x.scanDecimal t) fun r => IsMultiplier r.1 r.2 := by
  have hten : (10 : Int64).toInt = 10 := by decide
  unfold scanDecimal
  refine Spec.bind (Q := DecimalPart.Legal) (.iterate
    (I := fun s => s.1.Legal ∧ s.2.Legal) ?_ _ ?_) fun p => ?_
  · rintro ⟨p, t⟩
    dsimp -zeta only
    extract_lets stop resume
    -- `resume` gets the number with this token added to it, or none behind its last token.
    have hresume : ∀ p?, Spec D ((P ∧ p.Legal ∧ t.Legal) ∧ ∀ p' ∈ p?, p'.Legal)
        (resume p?) (Spec.Round (fun s => s.1.Legal ∧ s.2.Legal) DecimalPart.Legal) := by
      intro p?
      cases p? with
      | none =>
        dsimp only [resume]
        split
        · exact .pure fun hP => hP.1.2.1
        · exact (pushBack_spec fun hP => hP.1.2.2).seq fun _ => .pure fun hP => hP.1.2.1
      | some p' =>
        refine (next?_spec hx).bind fun t? => ?_
        cases t? with
        | none => exact .pure fun hP => hP.1.2 p' rfl
        | some t' => exact .pure fun hP => ⟨hP.1.2 p' rfl, hP.2 t' rfl⟩
    have hsome : ∀ p' : DecimalPart, (p.Legal → p'.Legal) → Spec D (P ∧ p.Legal ∧ t.Legal)
        (pure (some p')) fun p? => ∀ p'' ∈ p?, p''.Legal := by
      refine fun p' hp' => .pure fun hP p'' hp'' => ?_
      rw [← Option.mem_some.mp hp'']
      exact hp' hP.2.1
    refine isFrozen_spec.seq fun frozen => ?_
    split
    · rename_i d hd
      have hdigit := digit?_bounds hd
      split
      · refine Spec.bind (hsome _ fun hp => ⟨hp.integer_bounds, ?_⟩) hresume
        exact List.forall_mem_cons.mpr ⟨by omega, hp.digits⟩
      -- In the integer part the sum comes first and is compared with the bound afterwards, so that
      -- it has to be exact one digit beyond the bound.
      · refine Spec.seq (observe_spec fun hP => ?_) fun _ => ?_
        · exact (hP.2.1.digit ⟨hdigit.1, hdigit.2.1⟩).1
        · dsimp only
          split
          · exact (fail_spec ..).bind hresume
          · rename_i hle
            exact (hsome _ fun hp => (hp.digit ⟨hdigit.1, hdigit.2.1⟩).2 hle).bind hresume
    · split
      · refine Spec.bind (hsome _ ?_) hresume
        exact fun hp => ⟨hp.integer_bounds, hp.digits⟩
      · exact (Spec.pure fun _ => by simp).bind hresume
  · exact fun hP => ⟨DecimalPart.legal_nil, ht hP⟩
  · have hround : p.Legal → ∀ d ∈ p.digits.reverse, 0 ≤ d.toInt ∧ d.toInt ≤ 9 :=
      fun hp d hd => hp.digits d (List.mem_reverse.mp hd)
    refine Spec.seq (observe_spec fun hP => ?_) fun _ => .pure fun hP => ?_
    · exact (Dimen.roundDecimals_of_digits (hround hP.2)).1
    · exact ⟨hP.2.integer_bounds, (Dimen.roundDecimals_of_digits (hround hP.2)).2⟩

/-! ## Units -/

section Units

variable {integer frac : Int64} (hn : P → IsMultiplier integer frac)

include hn

omit hx in
theorem fontUnit_spec (n : Int) :
    Spec D P (scanInternalUnit.fontUnit integer frac n) Dimen.InRange := by
  refine env_spec.bind fun env => ?_
  have hunit := fun hP : P ∧ env.Legal =>
    (hn hP.1).fraction (Dimen.count_inRange (hP.2.fonts env.font n))
  exact Spec.seq (observe_spec fun hP => (hunit hP).1) fun _ => arith_spec fun hP => (hunit hP).2

theorem scanInternalUnit_spec :
    Spec D P (x.scanInternalUnit integer frac) fun d? => ∀ d ∈ d?, Dimen.InRange d := by
  have hsome : ∀ {P : Prop} (d : Dimen), Spec D (P ∧ Dimen.InRange d) (pure (some d))
      fun d? => ∀ d' ∈ d?, Dimen.InRange d' :=
    fun d => .pure fun hP d' hd' => Option.mem_some.mp hd' ▸ hP.2
  have hnone : ∀ {P : Prop}, Spec D P (pure none) fun d? => ∀ d' ∈ d?, Dimen.InRange d' :=
    .pure fun _ => by simp
  refine (nextNonSpace?_spec hx).bind fun t? => ?_
  cases t? with
  | none => exact hnone
  | some t =>
    refine (quantity?_spec t).bind fun q => ?_
    dsimp only
    split
    · rename_i μ k hq
      obtain ⟨hmem, -⟩ := Option.filter_eq_some_iff.mp hq
      refine (resolve_spec hx fun hP => hP.2 _ hmem).bind fun cell => ?_
      refine (Cell.read_spec fun hP => hP.2).bind fun v => ?_
      -- A quantity counts as a unit with the number that it is read as, whatever its kind.
      have hunit := fun (hP : P) (hv : v.Legal) =>
        (hn hP).fraction (Value.count_inRange_toInt hv)
      refine Spec.seq (observe_spec fun hP => (hunit hP.1.1.1.1 hP.2).1) fun _ => ?_
      exact (arith_spec fun hP => (hunit hP.1.1.1.1 hP.2).2).bind hsome
    · refine (pushBack_spec fun hP => hP.1.2 t rfl).seq fun _ => ?_
      refine (scanKeyword_spec hx _).seq fun em => ?_
      split
      · exact (fontUnit_spec (fun hP => hn hP.1.1) 6).bind hsome
      · refine (scanKeyword_spec hx _).seq fun ex => ?_
        split
        · exact (fontUnit_spec (fun hP => hn hP.1.1) 5).bind hsome
        · exact hnone

omit hn in
theorem scanPhysicalUnit_spec (us : List Dimen.PhysicalUnit) :
    Spec D P (x.scanPhysicalUnit us) fun _ => True := by
  induction us with
  | nil => exact .done
  | cons u us ih =>
    refine (scanKeyword_spec hx _).seq fun found => ?_
    split
    · exact .done
    · exact ih

/-- Whatever the magnification, the length can be checked afterwards. -/
theorem scanTrueUnit_spec :
    Spec D P (x.scanTrueUnit integer frac) fun d => d.toInt.natAbs ≤ 2 ^ 30 := by
  have hmax : Dimen.max.toInt = 0x3FFFFFFF := by decide
  unfold scanTrueUnit
  extract_lets finish
  -- A magnification of 1 multiplies by 1000: this is how the number may exceed `Count.max`.
  have hfinish : ∀ r : Int64 × Int64, Spec D
      (P ∧ (0 ≤ r.1.toInt ∧ r.1.toInt ≤ 2 ^ 42) ∧ 0 ≤ r.2.toInt ∧ r.2.toInt ≤ 65536) (finish r)
      fun d => d.toInt.natAbs ≤ 2 ^ 30 := by
    intro r
    refine (scanPhysicalUnit_spec hx _).seq fun u? => ?_
    cases u? with
    | some u =>
      have hscale := fun hP : P ∧ (0 ≤ r.1.toInt ∧ r.1.toInt ≤ 2 ^ 42) ∧
        0 ≤ r.2.toInt ∧ r.2.toInt ≤ 65536 => Dimen.scaleUnit_of_bounds u hP.2.1 hP.2.2
      exact Spec.seq (observe_spec fun hP => (hscale hP).1) fun _ =>
        arith_spec fun hP => (hscale hP).2
    | none =>
      refine (scanKeyword_spec hx _).seq fun sp => ?_
      split
      · split
        · exact fail_spec ..
        · rename_i hle
          rw [gt_iff_lt, Int64.lt_iff_toInt_lt, hmax] at hle
          exact .pure fun hP => by omega
      · exact fail_spec ..
  refine (scanKeyword_spec hx _).seq fun isTrue => ?_
  split
  · refine env_spec.seq fun env => ?_
    have hmagnify := fun hP => Dimen.magnify_of_bounds (env.count "mag")
      (hn hP).integer_bounds (hn hP).frac_bounds
    refine Spec.seq (observe_spec fun hP => (hmagnify hP).1) fun _ => ?_
    exact (arith_spec fun hP => (hmagnify hP).2).bind hfinish
  · refine Spec.bind (.pure fun hP => ?_) hfinish
    obtain ⟨hinteger, hfrac⟩ := hn hP
    have hle : integer.toInt ≤ 2 ^ 42 := by omega
    exact ⟨⟨hinteger.1, hle⟩, hfrac⟩

omit hn in
theorem scanOrder_spec (n : Nat) : Spec D P (x.scanOrder n) (· ≤ n) := by
  induction n with
  | zero => exact .pure fun _ => Nat.le_refl 0
  | succ n ih =>
    refine (scanKeyword_spec hx _).seq fun found => ?_
    split
    · exact ih.bind fun k => .pure fun hP => Nat.succ_le_succ hP.2
    · exact .pure fun _ => Nat.zero_le _

/-- The value can be checked afterwards, and the order can be written. -/
def Unchecked (c : GlueComponent) : Prop :=
  c.value.toInt.natAbs ≤ 2 ^ 30 ∧ c.order ≤ 3

theorem scanInfiniteUnit_spec :
    Spec D P (x.scanInfiniteUnit integer frac) fun c? => ∀ c ∈ c?, Unchecked c := by
  refine (scanKeyword_spec hx _).seq fun found => ?_
  split
  · refine (scanOrder_spec hx 2).bind fun k => ?_
    dsimp only
    split
    · exact fail_spec ..
    · rename_i hlarge
      have hparts := fun hP =>
        Dimen.parts_of_bounds (hn hP).integer_bounds.1 (hn hP).frac_bounds hlarge
      refine Spec.seq (observe_spec fun hP => ?_) fun _ => .pure fun hP c hc => ?_
      · exact Dimen.partsFits_of_bounds (hn hP.1).integer_bounds.1 (hn hP.1).frac_bounds
      · rw [← Option.mem_some.mp hc]
        have hvalue := (hparts hP.1).2.2
        exact ⟨by dsimp only; omega, Nat.succ_le_succ hP.2⟩
  · exact .pure fun _ => by simp

/-- A component that was read: its value is in range, and its order can be
    written. -/
def Checked (c : GlueComponent) : Prop :=
  Dimen.InRange c.value ∧ c.order ≤ 3

theorem scanUnits_spec (neg infinite : Bool) :
    Spec D P (x.scanUnits neg integer frac infinite) Checked := by
  unfold scanUnits
  extract_lets finish choose
  -- One check at the end serves all kinds of units; negating comes before it.
  have hfinish : ∀ {P : Prop} c, Spec D (P ∧ Unchecked c) (finish c) Checked := by
    intro P c
    refine (skipOptionalSpace_spec hx).seq fun _ => ?_
    refine Spec.seq (observe_spec fun hP => ?_) fun _ => ?_
    · have hbound := hP.2.1
      rw [Word.negFits_of_natAbs_lt (by omega), Bool.or_true]
    · refine Spec.bind (Q := fun _ => Dimen.InRange (if neg = true then
        ({ c with value := -c.value } : GlueComponent) else c).value) (arith_spec ?_) fun _ => ?_
      · exact fun _ u hcheck => Dimen.inRange_of_check hcheck
      · refine .pure fun hP => ⟨hP.2, ?_⟩
        split
        · exact hP.1.2.2
        · exact hP.1.2.2
  have hchoose : ∀ c?, Spec D (P ∧ ∀ c ∈ c?, Unchecked c) (choose c?) Checked := by
    intro c?
    cases c? with
    | some c => exact Spec.bind (.pure fun hP => hP.2 c rfl) hfinish
    | none =>
      refine (scanInternalUnit_spec hx fun hP => hn hP.1).bind fun d? => ?_
      cases d? with
      | some d =>
        refine Spec.bind (.pure fun hP => ?_) hfinish
        have hd := hP.2 d rfl
        rw [Dimen.inRange_iff] at hd
        exact ⟨by dsimp only; omega, Nat.zero_le 3⟩
      | none =>
        refine (scanTrueUnit_spec hx fun hP => hn hP.1.1).bind fun d => ?_
        exact Spec.bind (.pure fun hP => ⟨hP.2, Nat.zero_le 3⟩) hfinish
  split
  · exact (scanInfiniteUnit_spec hx hn).bind hchoose
  · exact Spec.bind (.pure fun _ => by simp) hchoose

end Units

/-! ## Lengths -/

theorem scanDimenFrom_spec (neg : Bool) {t : Token} (ht : P → t.Legal) (infinite : Bool) :
    Spec D P (x.scanDimenFrom neg t infinite) Checked := by
  have hzero : (0 : Int64).toInt = 0 := by decide
  unfold scanDimenFrom
  extract_lets units
  -- An integer is a factor of the unit that follows; a length has its unit.
  have hinteger : ∀ {P : Prop} (n : Int64), (P → Count.InRange n) →
      Spec D P (units n 0) Checked := by
    intro P n hn
    dsimp only [units]
    split
    · rename_i hsign
      rw [Int64.lt_iff_toInt_lt, hzero] at hsign
      refine Spec.seq (observe_spec fun hP => Count.negFits_of_inRange (hn hP)) fun _ => ?_
      refine scanUnits_spec hx (fun hP => isMultiplier_integer (Count.inRange_neg (hn hP)) ?_) ..
      rw [Word.toInt_neg (Count.negFits_of_inRange (hn hP))]
      omega
    · rename_i hsign
      rw [Int64.lt_iff_toInt_lt, hzero] at hsign
      exact scanUnits_spec hx (fun hP => isMultiplier_integer (hn hP) (by omega)) ..
  have hdimen : ∀ {P : Prop} (d : Dimen), (P → Dimen.InRange d) → Spec D P
      (do observe (!neg || Word.negFits d); return ⟨if neg then -d else d, 0⟩) Checked := by
    refine fun d hd => Spec.seq (observe_spec fun hP => ?_) fun _ => .pure fun hP => ⟨?_, ?_⟩
    · rw [Dimen.negFits_of_inRange (hd hP), Bool.or_true]
    · dsimp only
      split
      · exact Dimen.inRange_neg (hd hP)
      · exact hd hP
    · exact Nat.zero_le 3
  refine (quantity?_spec t).bind fun q => ?_
  cases q with
  | some q =>
    refine (resolve_spec hx fun hP => hP.2 q rfl).bind fun cell => ?_
    refine (Cell.read_spec fun hP => hP.2).bind fun v => ?_
    cases v with
    | int n => exact hinteger n fun hP => hP.2
    | toks ts => exact failAt_spec ..
    | dimen d => exact hdimen d fun hP => hP.2
    | glue g => exact hdimen g.width fun hP => hP.2.inRange
  | none =>
    dsimp only
    split
    · refine (scanDecimal_spec hx fun hP => ht hP.1).bind fun r => ?_
      by_cases hsign : r.1 < 0
      · -- A decimal number is never negative.
        dsimp only [units]
        rw [if_pos hsign]
        rw [Int64.lt_iff_toInt_lt, hzero] at hsign
        refine Spec.seq (observe_spec fun hP => ?_) fun _ => scanUnits_spec hx (fun hP => ?_) ..
        · exact absurd hP.2.integer_bounds.1 (by omega)
        · exact absurd hP.2.integer_bounds.1 (by omega)
      · dsimp only [units]
        rw [if_neg hsign]
        exact scanUnits_spec hx (fun hP => hP.2) ..
    · exact (scanUnsigned_spec hx fun hP => ht hP.1).bind fun n => hinteger n fun hP => hP.2

theorem scanDimen_spec : Spec D P x.scanDimen Dimen.InRange :=
  (scanSigns_spec hx).bind fun r =>
    (scanDimenFrom_spec hx r.1 (fun hP => hP.2) false).bind fun _ => .pure fun hP => hP.2.1

/-! ## Glue -/

theorem scanComponent_spec : Spec D P x.scanComponent GlueComponent.IsProper :=
  (scanSigns_spec hx).bind fun r =>
    (scanDimenFrom_spec hx r.1 (fun hP => hP.2) true).bind fun _ => .pure fun hP =>
      GlueComponent.isProper_normalize hP.2.1 hP.2.2

theorem scanOptionalComponent_spec (keyword : String) :
    Spec D P (x.scanOptionalComponent keyword) GlueComponent.IsProper := by
  refine (scanKeyword_spec hx _).seq fun found => ?_
  split
  · exact scanComponent_spec hx
  · exact .pure fun _ => GlueComponent.isProper_zero

theorem scanGlue_spec : Spec D P x.scanGlue Glue.IsProper := by
  refine (scanSigns_spec hx).bind fun r => (quantity?_spec r.2).bind fun q => ?_
  dsimp only
  split
  · refine (resolve_spec hx fun hP => hP.2 _ rfl).bind fun cell => ?_
    refine (Cell.read_spec fun hP => hP.2).bind fun v => ?_
    cases v with
    | glue g =>
      refine Spec.seq (observe_spec fun hP => ?_) fun _ => .pure fun hP => ?_
      · rw [Glue.negateFits_of_isProper hP.2, Bool.or_true]
      · split
        · exact Glue.isProper_negate hP.2
        · exact hP.2
    | _ => exact .pure fun _ => Glue.isProper_zero
  · refine (scanDimenFrom_spec hx r.1 (fun hP => hP.1.2) false).bind fun width => ?_
    refine (scanOptionalComponent_spec hx _).bind fun stretch => ?_
    refine (scanOptionalComponent_spec hx _).bind fun shrink => .pure fun hP => ?_
    exact ⟨hP.1.1.2.1, hP.1.2, hP.2⟩

end TexEngine.Expander
