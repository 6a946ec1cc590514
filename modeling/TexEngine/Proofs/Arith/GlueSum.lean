/-
  TexEngine.Proofs.Arith.GlueSum

  Sums of glue.  Each component of a sum is the one of higher order, or the sum of both if
  they are of the same order; zero has no order and is always outweighed.  The function that
  adds components looks at its two arguments one after the other.  `IsSum` says the same
  without an order of evaluation, and `add_eq_ok_iff` that this is all there is to a sum: it
  exists if what `IsSum` describes is legal.  The laws of sums are laws of `IsSum`.
-/
import TexEngine.Proofs.Arith.Overflow

namespace TexEngine

open Word

/-- A sequence has one way to fail if its parts have. -/
theorem ArithFault.eq_overflow_of_bind {α β : Type} {act : Except ArithFault α}
    {f : α → Except ArithFault β} {e : ArithFault} (he : act >>= f = .error e)
    (hact : ∀ e, act = .error e → e = .overflow)
    (hf : ∀ a, f a = .error e → e = .overflow) : e = .overflow := by
  cases act with
  | ok a => exact hf a he
  | error d => exact hact e (congrArg Except.error (Except.error.inj he))

/-! ## Components -/

namespace GlueComponent

/-- A component whose value is a length and which is finite if it is zero. -/
structure IsLegal (c : GlueComponent) : Prop where
  inRange : Dimen.InRange c.value
  order_eq_zero : c.value = 0 → c.order = 0

/-- The component with its value negated. -/
def negate (c : GlueComponent) : GlueComponent :=
  { c with value := -c.value }

/-- The component `h` has no effect beside `g`. -/
def Outweighs (g h : GlueComponent) : Prop :=
  h.value = 0 ∨ (g.value ≠ 0 ∧ h.order < g.order)

/-- The component `r` is the sum of `g` and `h`: the one that outweighs the other, or else
    the sum of their values, of their common order unless they cancel. -/
structure IsSum (g h r : GlueComponent) : Prop where
  left : g.Outweighs h → r = g
  right : h.Outweighs g → r = h
  balanced : g.value ≠ 0 → h.value ≠ 0 → g.order = h.order →
    r.value.toInt = g.value.toInt + h.value.toInt ∧ r.order = if r.value = 0 then 0 else g.order

variable {g h r : GlueComponent}

theorem eq_iff : g = h ↔ g.value = h.value ∧ g.order = h.order := by
  cases g
  cases h
  exact Iff.of_eq (mk.injEq ..)

theorem outweighs_cases (g h : GlueComponent) :
    g.Outweighs h ∨ h.Outweighs g ∨ (g.value ≠ 0 ∧ h.value ≠ 0 ∧ g.order = h.order) := by
  unfold Outweighs
  by_cases hg : g.value = 0
  · exact .inr (.inl (.inl hg))
  · by_cases hh : h.value = 0
    · exact .inl (.inl hh)
    · rcases Nat.lt_trichotomy g.order h.order with hlt | heq | hlt
      · exact .inr (.inl (.inr ⟨hh, hlt⟩))
      · exact .inr (.inr ⟨hg, hh, heq⟩)
      · exact .inl (.inr ⟨hg, hlt⟩)

theorem not_outweighs (hh : h.value ≠ 0) (horder : g.order = h.order) : ¬ g.Outweighs h := by
  rintro (hzero | ⟨-, hlt⟩)
  · exact hh hzero
  · omega

theorem isLegal_zero : IsLegal {} :=
  ⟨by decide, fun _ => rfl⟩

theorem IsLegal.eq_zero (hg : g.IsLegal) (hzero : g.value = 0) : g = {} :=
  eq_iff.mpr ⟨hzero, hg.order_eq_zero hzero⟩

/-- Legal components that outweigh each other are both zero. -/
theorem eq_of_outweighs (hg : g.IsLegal) (hh : h.IsLegal) (hgh : g.Outweighs h)
    (hhg : h.Outweighs g) : g = h := by
  rcases hgh with hzero | ⟨hne, hlt⟩
  · rcases hhg with hzero' | ⟨hne, -⟩
    · rw [hg.eq_zero hzero', hh.eq_zero hzero]
    · exact absurd hzero hne
  · rcases hhg with hzero' | ⟨-, hlt'⟩
    · exact absurd hzero' hne
    · omega

/-! ### Laws -/

theorem IsSum.symm (hr : g.IsSum h r) : h.IsSum g r where
  left := hr.right
  right := hr.left
  balanced hh hg horder := by
    rw [Int.add_comm, horder]
    exact hr.balanced hg hh horder.symm

theorem isSum_zero (hg : g.IsLegal) : g.IsSum {} g where
  left _ := rfl
  right hout := by
    rcases hout with hzero | ⟨hne, -⟩
    · exact hg.eq_zero hzero
    · exact absurd rfl hne
  balanced _ hne _ := absurd rfl hne

theorem toInt_negate (hg : g.IsLegal) : g.negate.value.toInt = -g.value.toInt :=
  toInt_neg (Dimen.negFits_of_inRange hg.inRange)

theorem negate_eq_zero_iff (g : GlueComponent) : g.negate.value = 0 ↔ g.value = 0 := by
  refine ⟨fun hzero => ?_, fun hzero => ?_⟩
  · have hneg : -g.value = 0 := hzero
    rw [← Int64.neg_neg (a := g.value), hneg]
    rfl
  · show -g.value = 0
    rw [hzero]
    rfl

theorem isLegal_negate (hg : g.IsLegal) : g.negate.IsLegal where
  inRange := Dimen.inRange_neg hg.inRange
  order_eq_zero hzero := hg.order_eq_zero ((negate_eq_zero_iff g).mp hzero)

theorem outweighs_negate : g.negate.Outweighs h.negate ↔ g.Outweighs h := by
  unfold Outweighs
  rw [negate_eq_zero_iff, ne_eq, negate_eq_zero_iff]
  rfl

theorem isSum_negate (hg : g.IsLegal) : g.IsSum g.negate {} where
  left hout := by
    rcases hout with hzero | ⟨-, hlt⟩
    · exact (hg.eq_zero ((negate_eq_zero_iff g).mp hzero)).symm
    · exact absurd hlt (Nat.lt_irrefl _)
  right hout := by
    rcases hout with hzero | ⟨-, hlt⟩
    · exact ((isLegal_negate hg).eq_zero ((negate_eq_zero_iff g).mpr hzero)).symm
    · exact absurd hlt (Nat.lt_irrefl _)
  balanced _ _ _ := by
    rw [toInt_negate hg, Int.add_right_neg]
    exact ⟨rfl, rfl⟩

theorem IsSum.negate (hg : g.IsLegal) (hh : h.IsLegal) (hr : r.IsLegal) (hsum : g.IsSum h r) :
    g.negate.IsSum h.negate r.negate where
  left hout := by rw [hsum.left (outweighs_negate.mp hout)]
  right hout := by rw [hsum.right (outweighs_negate.mp hout)]
  balanced hgne hhne horder := by
    rw [ne_eq, negate_eq_zero_iff] at hgne hhne
    obtain ⟨hvalue, hrorder⟩ := hsum.balanced hgne hhne horder
    rw [toInt_negate hg, toInt_negate hh, toInt_negate hr, hvalue, Int.neg_add]
    refine ⟨rfl, ?_⟩
    simp only [negate_eq_zero_iff]
    exact hrorder

/-! ### The function -/

theorem add_of_outweighs (hout : g.Outweighs h) : g.add h = .ok g := by
  unfold add isZero
  rcases hout with hzero | ⟨hne, hlt⟩
  · rw [if_pos (beq_iff_eq.mpr hzero)]
  · by_cases hzero : h.value = 0
    · rw [if_pos (beq_iff_eq.mpr hzero)]
    · have hother : ¬ (g.value == 0 || decide (g.order < h.order)) = true := by
        simp [hne, Nat.le_of_lt hlt]
      rw [if_neg (mt beq_iff_eq.mp hzero), if_neg hother, if_pos hlt]

theorem add_of_outweighed (hg : g.IsLegal) (hh : h.IsLegal) (hout : h.Outweighs g) :
    g.add h = .ok h := by
  by_cases hzero : h.value = 0
  · -- Both are zero, and the first one is returned.
    have hboth : g.Outweighs h := .inl hzero
    rw [add_of_outweighs hboth, eq_of_outweighs hg hh hboth hout]
  · have hsmall : (g.value == 0 || decide (g.order < h.order)) = true := by
      rcases hout with hg0 | ⟨-, hlt⟩
      · simp [hg0]
      · simp [hlt]
    unfold add isZero
    rw [if_neg (mt beq_iff_eq.mp hzero), if_pos hsmall]

theorem add_of_balanced (hg : g.value ≠ 0) (hh : h.value ≠ 0) (horder : g.order = h.order) :
    g.add h = Dimen.add g.value h.value >>= fun v => .ok (normalize ⟨v, g.order⟩) := by
  have hsmall : ¬ (g.value == 0 || decide (g.order < h.order)) = true := by simp [hg, horder]
  have hlarge : ¬ g.order > h.order := by omega
  unfold add isZero
  rw [if_neg (mt beq_iff_eq.mp hh), if_neg hsmall, if_neg hlarge]
  cases Dimen.add g.value h.value with
  | ok v =>
    show Except.ok _ = Except.ok _
    by_cases hzero : v = 0
    · rw [if_pos (beq_iff_eq.mpr hzero), hzero]
      rfl
    · rw [if_neg (mt beq_iff_eq.mp hzero), normalize, isZero, if_neg (mt beq_iff_eq.mp hzero)]
  | error e => rfl

theorem isSum_iff_of_balanced (hg : g.value ≠ 0) (hh : h.value ≠ 0) (horder : g.order = h.order) :
    g.IsSum h r ↔ r.value.toInt = g.value.toInt + h.value.toInt ∧
      r.order = if r.value = 0 then 0 else g.order :=
  ⟨fun hr => hr.balanced hg hh horder, fun hr =>
    ⟨fun hout => absurd hout (not_outweighs hh horder),
      fun hout => absurd hout (not_outweighs hg horder.symm), fun _ _ _ => hr⟩⟩

/-- Normalizing is the only way to make a value legal. -/
theorem eq_normalize_iff {v : Dimen} {n : Nat} (hv : Dimen.InRange v) :
    r = normalize ⟨v, n⟩ ↔ (r.value = v ∧ r.order = if r.value = 0 then 0 else n) ∧ r.IsLegal := by
  have hfields : r = normalize ⟨v, n⟩ ↔ r.value = v ∧ r.order = if r.value = 0 then 0 else n := by
    rw [eq_iff, value_normalize, order_normalize]
    exact and_congr_right fun hvalue => by rw [hvalue]
  rw [hfields]
  refine ⟨fun hr => ⟨hr, hr.1.symm ▸ hv, fun hzero => ?_⟩, fun hr => hr.1⟩
  rw [hr.2, if_pos hzero]

/-- A sum succeeds if there is a legal component that is the sum, and gives this one. -/
theorem add_eq_ok_iff (hg : g.IsLegal) (hh : h.IsLegal) :
    g.add h = .ok r ↔ g.IsSum h r ∧ r.IsLegal := by
  rcases outweighs_cases g h with hout | hout | ⟨hgne, hhne, horder⟩
  · rw [add_of_outweighs hout]
    refine ⟨fun hr => ?_, fun hr => by rw [hr.1.left hout]⟩
    obtain rfl := Except.ok.inj hr
    exact ⟨⟨fun _ => rfl, eq_of_outweighs hg hh hout,
      fun _ hhne horder => absurd hout (not_outweighs hhne horder)⟩, hg⟩
  · rw [add_of_outweighed hg hh hout]
    refine ⟨fun hr => ?_, fun hr => by rw [hr.1.right hout]⟩
    obtain rfl := Except.ok.inj hr
    exact ⟨⟨fun hout' => eq_of_outweighs hh hg hout hout', fun _ => rfl,
      fun hgne _ horder => absurd hout (not_outweighs hgne horder.symm)⟩, hh⟩
  · rw [add_of_balanced hgne hhne horder, isSum_iff_of_balanced hgne hhne horder]
    have hmax : Dimen.max.toInt = 0x3FFFFFFF := by decide
    rcases (Dimen.isExact_add hg.inRange h.value).cases with ⟨hle, v, hv, hvalue⟩ | ⟨hlt, herror⟩
    · have hinRange : Dimen.InRange v := Dimen.inRange_iff.mpr (by omega)
      rw [hv]
      show Except.ok _ = _ ↔ _
      rw [Except.ok.injEq, eq_comm, eq_normalize_iff hinRange, ← hvalue, Int64.toInt_inj]
    · rw [herror]
      refine ⟨fun hr => by contradiction, fun ⟨⟨hvalue, _⟩, hr⟩ => ?_⟩
      -- A legal component is not too large.
      have hinRange := Dimen.inRange_iff.mp hr.inRange
      omega

theorem eq_overflow_of_add (hg : g.IsLegal) (hh : h.IsLegal) {e : ArithFault}
    (he : g.add h = .error e) : e = .overflow := by
  rcases outweighs_cases g h with hout | hout | ⟨hgne, hhne, horder⟩
  · rw [add_of_outweighs hout] at he
    contradiction
  · rw [add_of_outweighed hg hh hout] at he
    contradiction
  · rw [add_of_balanced hgne hhne horder] at he
    exact ArithFault.eq_overflow_of_bind he
      (fun _ => (Dimen.isExact_add hg.inRange h.value).eq_overflow) fun _ hv => by contradiction

end GlueComponent

/-! ## Glue -/

namespace Glue

/-- A glue whose lengths are legal and whose components are finite if they are zero. -/
structure IsLegal (g : Glue) : Prop where
  inRange : Dimen.InRange g.width
  stretch : g.stretch.IsLegal
  shrink : g.shrink.IsLegal

/-- The glue `r` is the sum of `g` and `h`. -/
structure IsSum (g h r : Glue) : Prop where
  width : r.width.toInt = g.width.toInt + h.width.toInt
  stretch : g.stretch.IsSum h.stretch r.stretch
  shrink : g.shrink.IsSum h.shrink r.shrink

variable {g h r : Glue}

/-! ### Laws -/

theorem isLegal_zero : IsLegal {} :=
  ⟨by decide, GlueComponent.isLegal_zero, GlueComponent.isLegal_zero⟩

theorem IsSum.symm (hr : g.IsSum h r) : h.IsSum g r where
  width := by rw [Int.add_comm, hr.width]
  stretch := hr.stretch.symm
  shrink := hr.shrink.symm

theorem isSum_zero (hg : g.IsLegal) : g.IsSum {} g where
  width := (Int.add_zero _).symm
  stretch := GlueComponent.isSum_zero hg.stretch
  shrink := GlueComponent.isSum_zero hg.shrink

theorem negate_negate (g : Glue) : g.negate.negate = g := by
  simp [negate, Int64.neg_neg]

theorem toInt_width_negate (hg : g.IsLegal) : g.negate.width.toInt = -g.width.toInt :=
  toInt_neg (Dimen.negFits_of_inRange hg.inRange)

theorem isLegal_negate (hg : g.IsLegal) : g.negate.IsLegal where
  inRange := Dimen.inRange_neg hg.inRange
  stretch := GlueComponent.isLegal_negate hg.stretch
  shrink := GlueComponent.isLegal_negate hg.shrink

theorem isSum_negate (hg : g.IsLegal) : g.IsSum g.negate {} where
  width := by
    rw [toInt_width_negate hg, Int.add_right_neg]
    rfl
  stretch := GlueComponent.isSum_negate hg.stretch
  shrink := GlueComponent.isSum_negate hg.shrink

theorem IsSum.negate (hg : g.IsLegal) (hh : h.IsLegal) (hr : r.IsLegal) (hsum : g.IsSum h r) :
    g.negate.IsSum h.negate r.negate where
  width := by
    rw [toInt_width_negate hg, toInt_width_negate hh, toInt_width_negate hr, hsum.width,
      Int.neg_add]
  stretch := hsum.stretch.negate hg.stretch hh.stretch hr.stretch
  shrink := hsum.shrink.negate hg.shrink hh.shrink hr.shrink

/-! ### The function -/

/-- A sum succeeds if there is a legal glue that is the sum, and gives this one. -/
theorem add_eq_ok_iff (hg : g.IsLegal) (hh : h.IsLegal) :
    g.add h = .ok r ↔ g.IsSum h r ∧ r.IsLegal := by
  have hmax : Dimen.max.toInt = 0x3FFFFFFF := by decide
  have hwidth {w : Dimen} := (Dimen.isExact_add hg.inRange h.width).eq_ok_iff (r := w)
  refine ⟨fun hadd => ?_, fun ⟨hsum, hr⟩ => ?_⟩
  · obtain ⟨w, hw, hadd⟩ := exists_of_bind_ok hadd
    obtain ⟨s, hs, hadd⟩ := exists_of_bind_ok hadd
    obtain ⟨k, hk, hadd⟩ := exists_of_bind_ok hadd
    obtain rfl := Except.ok.inj hadd
    obtain ⟨hssum, hslegal⟩ := (GlueComponent.add_eq_ok_iff hg.stretch hh.stretch).mp hs
    obtain ⟨hksum, hklegal⟩ := (GlueComponent.add_eq_ok_iff hg.shrink hh.shrink).mp hk
    exact ⟨⟨(hwidth.mp hw).1, hssum, hksum⟩, Dimen.inRange_of_checked hw, hslegal, hklegal⟩
  · have hinRange := Dimen.inRange_iff.mp hr.inRange
    have hw := hwidth.mpr ⟨hsum.width, by rw [← hsum.width]; omega⟩
    have hs := (GlueComponent.add_eq_ok_iff hg.stretch hh.stretch).mpr ⟨hsum.stretch, hr.stretch⟩
    have hk := (GlueComponent.add_eq_ok_iff hg.shrink hh.shrink).mpr ⟨hsum.shrink, hr.shrink⟩
    rw [add, hw, hs, hk]
    rfl

theorem eq_overflow_of_add (hg : g.IsLegal) (hh : h.IsLegal) {e : ArithFault}
    (he : g.add h = .error e) : e = .overflow := by
  refine ArithFault.eq_overflow_of_bind he
    (fun _ => (Dimen.isExact_add hg.inRange h.width).eq_overflow) fun w he => ?_
  refine ArithFault.eq_overflow_of_bind he
    (fun _ => GlueComponent.eq_overflow_of_add hg.stretch hh.stretch) fun s he => ?_
  refine ArithFault.eq_overflow_of_bind he
    (fun _ => GlueComponent.eq_overflow_of_add hg.shrink hh.shrink) fun k he => ?_
  contradiction

theorem add_eq_overflow_iff (hg : g.IsLegal) (hh : h.IsLegal) :
    g.add h = .error .overflow ↔ ∀ r, g.IsSum h r → ¬ r.IsLegal := by
  refine ⟨fun hadd r hsum hr => ?_, fun hnone => ?_⟩
  · rw [(add_eq_ok_iff hg hh).mpr ⟨hsum, hr⟩] at hadd
    contradiction
  · cases hadd : g.add h with
    | ok r =>
      obtain ⟨hsum, hr⟩ := (add_eq_ok_iff hg hh).mp hadd
      exact absurd hr (hnone r hsum)
    | error e => rw [eq_overflow_of_add hg hh hadd]

theorem add_comm (hg : g.IsLegal) (hh : h.IsLegal) : g.add h = h.add g := by
  cases hadd : g.add h with
  | ok r =>
    obtain ⟨hsum, hr⟩ := (add_eq_ok_iff hg hh).mp hadd
    exact ((add_eq_ok_iff hh hg).mpr ⟨hsum.symm, hr⟩).symm
  | error e =>
    obtain rfl := eq_overflow_of_add hg hh hadd
    have hnone := (add_eq_overflow_iff hg hh).mp hadd
    exact ((add_eq_overflow_iff hh hg).mpr fun r hsum => hnone r hsum.symm).symm

theorem add_negate_negate (hg : g.IsLegal) (hh : h.IsLegal) :
    g.negate.add h.negate = (g.add h).map negate := by
  have hg' := isLegal_negate hg
  have hh' := isLegal_negate hh
  cases hadd : g.add h with
  | ok r =>
    obtain ⟨hsum, hr⟩ := (add_eq_ok_iff hg hh).mp hadd
    exact (add_eq_ok_iff hg' hh').mpr ⟨hsum.negate hg hh hr, isLegal_negate hr⟩
  | error e =>
    obtain rfl := eq_overflow_of_add hg hh hadd
    have hnone := (add_eq_overflow_iff hg hh).mp hadd
    -- The negative of a legal sum of the negatives would be a legal sum of `g` and `h`.
    refine (add_eq_overflow_iff hg' hh').mpr fun r hsum hr => hnone r.negate ?_ (isLegal_negate hr)
    have hback := hsum.negate hg' hh' hr
    rwa [negate_negate, negate_negate] at hback

/-- Sums of legal glues do not depend on the order of the summands, also if they fail; the
    zero glue is neutral, a glue and its negative cancel, and negation can be exchanged with
    addition.  A sum succeeds exactly if what `IsSum` describes is legal, and gives this glue. -/
theorem add_laws (hg : g.IsLegal) (hh : h.IsLegal) :
    g.add h = h.add g ∧
    (g.add {} = .ok g ∧ add {} g = .ok g) ∧
    g.add g.negate = .ok {} ∧
    g.negate.add h.negate = (g.add h).map negate ∧
    (∀ r, g.add h = .ok r ↔ g.IsSum h r ∧ r.IsLegal) ∧
    ∀ e, g.add h = .error e → e = .overflow :=
  ⟨add_comm hg hh,
    ⟨(add_eq_ok_iff hg isLegal_zero).mpr ⟨isSum_zero hg, hg⟩,
      (add_eq_ok_iff isLegal_zero hg).mpr ⟨(isSum_zero hg).symm, hg⟩⟩,
    (add_eq_ok_iff hg (isLegal_negate hg)).mpr ⟨isSum_negate hg, isLegal_zero⟩,
    add_negate_negate hg hh, fun _ => add_eq_ok_iff hg hh, fun _ => eq_overflow_of_add hg hh⟩

/-- Components of different orders: 1pt plus 2pt minus 1fil and 2pt plus 1fill minus 3pt. -/
theorem add_laws_orders :
    let g : Glue := { width := 0x10000, stretch := ⟨0x20000, 0⟩, shrink := ⟨0x10000, 1⟩ }
    let h : Glue := { width := 0x20000, stretch := ⟨0x10000, 2⟩, shrink := ⟨0x30000, 0⟩ }
    g.IsLegal ∧ h.IsLegal ∧ g.add h = h.add g ∧ g.add g.negate = .ok {} ∧
      g.IsSum h { width := 0x30000, stretch := h.stretch, shrink := g.shrink } := by
  intro g h
  have hg : g.IsLegal := ⟨by decide, ⟨by decide, by decide⟩, ⟨by decide, by decide⟩⟩
  have hh : h.IsLegal := ⟨by decide, ⟨by decide, by decide⟩, ⟨by decide, by decide⟩⟩
  obtain ⟨hcomm, -, hcancel, -, hsum, -⟩ := add_laws hg hh
  exact ⟨hg, hh, hcomm, hcancel, ((hsum _).mp (by decide)).1⟩

end Glue

end TexEngine
