/-
  TexEngine.Proofs.Engine.Ending.Read

  Reading with expansion ends if expansions do, and if each of them makes the input
  lighter.  The only expansion that does not is the one that interrupts a test, by giving
  its token back behind a frozen \relax; reading ends with this \relax.

  What reads on behind the \relax would find the token again, which interrupts the test
  again, and so for ever.  Under strict observation, such expansions raise an alarm; then
  also the readers end that skip a \relax.
-/
import TexEngine.Proofs.Engine.Ending.Cost

namespace TexEngine

open Eng

/-! ## Expanders -/

/-- The innermost conditional is evaluating its test. -/
def Machine.Interruptible (m : Machine) : Prop :=
  ∃ c, m.env.conditionals.back? = some c ∧ c.pending = true

/-- The credit pays for the frozen \relax in front of a token that is given back. -/
theorem Machine.cost_feed_frozenRelax (m : Machine) {t : Token} (hcommand : t.isCommand = true)
    (ht : t ≠ .frozenRelax) : (m.feed [.frozenRelax, t]).cost = (m.feed [t]).cost := by
  have hweight : (m.feed [.frozenRelax, t]).weight = (m.feed [t]).weight := by
    rw [weight_feed_command m hcommand ht, weight_feed, credit_feed_frozenRelax,
      Gauge.tokens_cons, Gauge.tokens_cons, Gauge.tokens_nil, Gauge.weight_frozenRelax]
    omega
  have hsize : (m.feed [.frozenRelax, t]).size = (m.feed [t]).size := by
    rw [size_feed_command m hcommand ht, size_feed, credit_feed_frozenRelax, List.length_cons,
      List.length_singleton]
    omega
  rw [cost, hweight, hsize, cost]

/-- What the expansion of a token that has been taken from the input makes of a state. -/
inductive Expanded (strict : Bool) (t : Token) (m m' : Machine) : Prop where
  | lighter (h : m'.weight < (m.feed [t]).weight)
  | givenBack (hstrict : strict = false) (hm : m.Interruptible) (h : m' = m.feed [.frozenRelax, t])

/-- Expanders of which the left ones are under observation.  They are told apart by their
    fuel only. -/
structure Partners (strict : Bool) (x y : Nat → Expander) : Prop where
  fuel_left : ∀ n, (x n).fuel = n
  fuel_right : ∀ n, (y n).fuel = n
  expand : ∀ {m : Machine} {t : Token} {μ : Meaning}, m.env.meaning? t = some μ →
    μ.isExpandable = true → t ≠ .frozenRelax →
    Halts (fun n => (x n).expand μ t) (fun n => (y n).expand μ t) m fun _ => Expanded strict t m

/-- The cost of a state, with a token that has been read and could be put back. -/
def Machine.costWith (m : Machine) : Option Token → ℕ ×ₗ ℕ
  | none => m.cost
  | some t => (m.feed [t]).cost

namespace Machine

variable {m m' : Machine} {t : Token} {c : ℕ ×ₗ ℕ}

theorem cost_le_costWith (m : Machine) (t? : Option Token) : m.cost ≤ m.costWith t? := by
  cases t? with
  | none => exact le_refl _
  | some t => exact cost_le_feed m t

theorem cost_lt_costWith (m : Machine) (ht : t ≠ .frozenRelax) : m.cost < m.costWith (some t) :=
  cost_lt_feed m ht

/-- A command that has been read leaves the credit for the frozen \relax. -/
theorem burden_le_of_costWith_le (h : m'.costWith (some t) ≤ m.cost)
    (hcommand : t.isCommand = true) (ht : t ≠ .frozenRelax) :
    Gauge.weight.token t + m'.burden + 16 ≤ m.weight := by
  have hle := weight_le_of_cost_le h
  rwa [weight_feed_command m' hcommand ht] at hle

/-- A control sequence that has been read has its own weight, apart from the credit. -/
theorem burden_le_of_name {name : String} (h : m'.costWith (some (.cs name)) ≤ m.cost) :
    16 + Gauge.weight.text name + m'.burden ≤ m.burden := by
  have hburden := burden_le_of_costWith_le h rfl (by simp)
  have hcredit := m.credit_le
  rw [Gauge.weight_cs] at hburden
  unfold weight at hburden
  omega

end Machine

/-- A token has been read from an input that may have been expanded.  The frozen \relax
    stood in front of the input, or the input got lighter, or a test was interrupted. -/
structure Machine.Gives (strict : Bool) (m : Machine) (t : Token) (m' : Machine) : Prop where
  marked : m'.marked = none
  cost : m'.costWith (some t) ≤ m.cost
  relax : t = .frozenRelax →
    m'.weight < m.weight ∨ m.credit = 0 ∨ strict = false ∧ m'.Interruptible

theorem Machine.Takes.gives {m m' : Machine} {t : Token} (h : m.Takes t m')
    (hmarked : m'.marked = none) (strict : Bool) : m.Gives strict t m' where
  marked := hmarked
  cost := h.cost_feed_le
  relax ht := (h.weight_lt_of_frozenRelax ht).symm.imp_right .inl

/-- Unless a test was interrupted, reading makes the span smaller. -/
theorem Machine.Gives.span_lt {strict : Bool} {m m' : Machine} {t : Token}
    (h : m.Gives strict t m') (hsafe : strict = false → ¬m'.Interruptible) :
    m'.span < m.span := by
  by_cases ht : t = .frozenRelax
  · rcases h.relax ht with hlt | hfront | ⟨hstrict, hpending⟩
    · exact span_lt_iff.mpr (.inl hlt)
    · exact span_lt_of_credit_eq (ht ▸ h.cost) hfront
    · exact absurd hpending (hsafe hstrict)
  · exact span_lt_of_cost_lt ((m'.cost_lt_costWith ht).trans_le h.cost)

namespace Expander

variable {strict : Bool} {x y : Nat → Expander} {m : Machine}

theorem next?_halts (h : Partners strict x y) (m₀ : Machine) :
    Halts (fun n => (x n).next?) (fun n => (y n).next?) m₀ fun t? m' =>
      m'.costWith t? ≤ m₀.cost ∧ ∀ t ∈ t?, m₀.Gives strict t m' := by
  simp only [next?_eq_iterate]
  -- Behind an expansion, a frozen \relax in front comes from an interrupted test, or the
  -- input is lighter.
  refine Halts.iterate h.fuel_left h.fuel_right
    (I := fun _ m => m.cost ≤ m₀.cost ∧
      (m.credit = 0 → m.weight < m₀.weight ∨ m₀.credit = 0 ∨ strict = false ∧ m.Interruptible))
    (fun _ m => toLex (m.weight, 2 * m.size + m.credit)) ?_ ⟨le_refl _, fun h => .inr (.inl h)⟩
  intro _ m hI
  refine Halts.token (fun m' hcost => .pure ⟨hcost.trans hI.1, by simp⟩)
    fun t m' hmarked htakes => ?_
  have hgives : m₀.Gives strict t m' := by
    have hm := htakes.gives hmarked strict
    refine ⟨hmarked, hm.cost.trans hI.1, fun ht => ?_⟩
    have hweight := Machine.weight_le_of_cost_le hI.1
    rcases hm.relax ht with hlt | hfront | hinterrupted
    · exact .inl (Nat.lt_of_lt_of_le hlt hweight)
    · have hle := Machine.weight_le_of_cost_le htakes.cost_le
      rcases hI.2 hfront with hlt | hfront₀ | ⟨hstrict, hpending⟩
      · exact .inl (Nat.lt_of_le_of_lt hle hlt)
      · exact .inr (.inl hfront₀)
      · refine .inr (.inr ⟨hstrict, ?_⟩)
        unfold Machine.Interruptible
        rwa [htakes.env]
    · exact .inr (.inr hinterrupted)
  have hread : m'.costWith (some t) ≤ m₀.cost ∧ ∀ u ∈ some t, m₀.Gives strict u m' :=
    ⟨hgives.cost, fun u hu => Option.mem_some_iff.mp hu ▸ hgives⟩
  refine .look (isFrozen_apply m') ?_
  split
  · exact .pure hread
  · rename_i hplain
    have hcommand : t.isCommand = true := by
      cases hcommand : t.isCommand with
      | true => rfl
      | false => simp [hcommand] at hplain
    refine .look (meaning?_apply t m') ?_
    cases hmeaning : meaningIn m'.env t with
    | none => exact .pure hread
    | some μ =>
      dsimp only
      split
      · rename_i hμ
        have hrelax : μ ≠ Meaning.relax := by
          rintro rfl
          contradiction
        obtain ⟨ht, hmeaning⟩ := meaning?_of_meaningIn hmeaning hrelax
        refine (h.expand hmeaning hμ ht).bind fun _ m'' _ hexpanded => .pure ?_
        have hback := htakes.cost_feed_le
        cases hexpanded with
        | lighter hlt =>
          have hlt := Nat.lt_of_lt_of_le hlt (Machine.weight_le_of_cost_le hback)
          have hweight := Machine.weight_le_of_cost_le hI.1
          refine ⟨⟨((Machine.cost_lt_of_weight_lt hlt).le).trans hI.1, fun _ => .inl ?_⟩, ?_⟩
          · exact Nat.lt_of_lt_of_le hlt hweight
          · exact Prod.Lex.toLex_lt_toLex.mpr (.inl hlt)
        | givenBack hstrict hpending hm'' =>
          -- The cost is what it would be if the token had just been put back; only the credit
          -- is gone, which was there because another token than the frozen \relax was read.
          have hcost := Machine.cost_feed_frozenRelax m' hcommand ht
          rw [← hm''] at hcost
          have hcredit : m''.credit = 0 := by rw [hm'', Machine.credit_feed_frozenRelax]
          rw [← hcost] at hback
          refine ⟨⟨hback.trans hI.1, fun _ => .inr (.inr ⟨hstrict, ?_⟩)⟩, ?_⟩
          · rw [hm'']
            exact hpending
          · rw [Machine.cost_le_iff] at hback
            rw [hcredit, htakes.credit_eq hcommand ht, Prod.Lex.toLex_lt_toLex]
            dsimp only
            omega
      · exact .pure hread

/-- Reading costs what the token does, if there is one. -/
theorem next?_costs (h : Partners strict x y) (m : Machine) :
    Halts (fun n => (x n).next?) (fun n => (y n).next?) m fun t? m' => m'.costWith t? ≤ m.cost :=
  (next?_halts h m).mono fun _ _ _ hread => hread.1

end Expander

/-- A token that is required. -/
theorem Halts.required {β : Type} {A B : Nat → Eng (Option Token)} {F G : Nat → Token → Eng β}
    {m : Machine} {c : ℕ ×ₗ ℕ} {R : β → Machine → Prop} {kind : ErrorKind}
    {details : List String} (h : Halts A B m fun t? m' => m'.costWith t? ≤ c)
    (hf : ∀ t m', m'.costWith (some t) ≤ c → Halts (F · t) (G · t) m' R) :
    Halts (fun n => A n >>= fun t? => Eng.expect t? kind details >>= F n)
      (fun n => B n >>= fun t? => Eng.expect t? kind details >>= G n) m R := by
  refine h.bind fun t? m' _ hcost => .expect fun t ht => hf t m' ?_
  rwa [← ht]

theorem Token.ne_frozenRelax_of_hasCat {t : Token} {k : Catcode} (h : t.hasCat k = true) :
    t ≠ .frozenRelax := by
  rintro rfl
  contradiction

theorem Token.ne_frozenRelax_of_isOther {t : Token} {c : Char} (h : t.isOther c = true) :
    t ≠ .frozenRelax := by
  rintro rfl
  contradiction

namespace Expander

variable {strict : Bool} {x y : Nat → Expander}

theorem nextNonSpace?_halts (h : Partners strict x y) (m₀ : Machine) :
    Halts (fun n => (x n).nextNonSpace?) (fun n => (y n).nextNonSpace?) m₀ fun t? m' =>
      m'.costWith t? ≤ m₀.cost := by
  refine Halts.iterate h.fuel_left h.fuel_right (I := fun _ m => m.cost ≤ m₀.cost)
    (fun _ m => m.cost) (fun _ m hI => ?_) (le_refl _)
  refine (next?_costs h m).bind fun t? m' _ hcost => ?_
  cases t? with
  | none => exact .pure (hcost.trans hI)
  | some t =>
    dsimp only
    split
    · rename_i hspace
      have hlt := (m'.cost_lt_costWith (Token.ne_frozenRelax_of_hasCat hspace)).trans_le hcost
      exact .pure ⟨hlt.le.trans hI, hlt⟩
    · exact .pure (hcost.trans hI)

/-- Under strict observation, also the reader ends that skips a \relax. -/
theorem nextNonRelax?_halts (h : Partners true x y) (m₀ : Machine) :
    Halts (fun n => (x n).nextNonRelax?) (fun n => (y n).nextNonRelax?) m₀ fun t? m' =>
      m'.costWith t? ≤ m₀.cost ∧ some .frozenRelax ≠ t? := by
  refine Halts.iterate h.fuel_left h.fuel_right (I := fun _ m => m.cost ≤ m₀.cost)
    (fun _ m => m.span) (fun _ m hI => ?_) (le_refl _)
  refine (next?_halts h m).bind fun t? m' _ hread => ?_
  cases t? with
  | none => exact .pure ⟨hread.1.trans hI, by simp⟩
  | some t =>
    have hcost := ((m'.cost_le_costWith (some t)).trans hread.1).trans hI
    refine .look (isFrozen_apply m') (.look (meaning?_apply t m') ?_)
    split
    · exact .pure ⟨hcost, (hread.2 t rfl).span_lt (by simp)⟩
    · rename_i hdone
      refine .pure ⟨hread.1.trans hI, ?_⟩
      rintro ht
      injection ht with ht
      rw [← ht] at hdone
      simp [meaningIn] at hdone

end Expander

end TexEngine
