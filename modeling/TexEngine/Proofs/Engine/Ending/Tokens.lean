/-
  TexEngine.Proofs.Engine.Ending.Tokens

  Reading texts and names ends, and weighs no more than the input did.  Where a text is
  expanded, and where \relax is skipped in front of its brace, this needs strict
  observation: a test that is interrupted there would be interrupted again and again.
-/
import TexEngine.Proofs.Engine.Ending.Dimen

namespace TexEngine

open Eng Gauge

/-- Only characters have a code. -/
theorem Token.weight_code_le (t : Token) : t.code.weight ≤ weight.token t := by
  cases t with
  | char c k => exact (weight_char c k).ge
  | _ => exact Nat.zero_le _

theorem Meaning.defined_not_mem_primitives (d : MacroDef) : Meaning.defined d ∉ primitives := by
  simp [primitives]

namespace Expander

variable {strict : Bool} {x y : Nat → Expander} {m : Machine}

/-! ## Texts as they stand in the input -/

theorem scanBalanced_halts (hx : ∀ n, (x n).fuel = n) (hy : ∀ n, (y n).fuel = n) (m₀ : Machine) :
    Halts (fun n => (x n).scanBalanced) (fun n => (y n).scanBalanced) m₀ fun ts m' =>
      weight.tokens ts + m'.burden ≤ m₀.burden := by
  refine Halts.iterate hx hy
    (I := fun s m => weight.tokens s.2 + m.burden ≤ m₀.burden)
    (fun _ m => toLex (0, m.bulk)) (fun s m hI => ?_) (Nat.le_of_eq (Nat.zero_add _))
  obtain ⟨depth, seen⟩ := s
  refine .token (fun m' _ => .expect fun t ht => nomatch ht) fun t m' _ htakes =>
    .expect fun u hu => ?_
  cases hu
  have hI : weight.tokens seen + m.burden ≤ m₀.burden := hI
  have hburden := htakes.burden
  have hbulk := htakes.bulk
  cases braceDepth? depth t with
  | none =>
    refine .pure ?_
    rw [Halts.Round, tokens_reverse]
    omega
  | some depth =>
    refine .pure ⟨?_, Prod.Lex.toLex_lt_toLex.mpr (.inr ⟨rfl, by omega⟩)⟩
    rw [tokens_cons]
    omega

theorem scanLeftBrace_halts (h : Partners true x y) (m : Machine) :
    Halts (fun n => (x n).scanLeftBrace) (fun n => (y n).scanLeftBrace) m fun _ m' =>
      m'.cost ≤ m.cost := by
  refine (nextNonRelax?_halts h m).bind fun t? m' _ hread => .expect fun t ht => ?_
  cases ht
  have hle := (m'.cost_le_costWith (some t)).trans hread.1
  split
  · exact .pure hle
  · refine .look (meaning?_apply t m') ?_
    split
    · split
      · exact .pure hle
      · exact .refuse _ _ _ _
    · exact .refuse _ _ _ _

/-! ## Names -/

/-- The characters of a name are taken from the input, and so is the credit for the
    frozen \relax that \endcsname ends. -/
theorem scanCsname_halts (h : Partners strict x y) (m₀ : Machine) :
    Halts (fun n => (x n).scanCsname) (fun n => (y n).scanCsname) m₀ fun name m' =>
      weight.text name + m'.burden ≤ m₀.burden ∧ m'.cost ≤ m₀.cost := by
  refine Halts.iterate h.fuel_left h.fuel_right
    -- A letter of the name weighs as much in the name as it did in the input.
    (I := fun name m => weight.codes name + m.weight ≤ m₀.weight ∧ m.cost ≤ m₀.cost)
    (fun _ m => m.cost) (fun name m hI => ?_) ⟨Nat.le_of_eq (Nat.zero_add _), le_refl _⟩
  refine (next?_costs h m).required fun t m' hcost => ?_
  obtain ⟨hname, hle⟩ := hI
  cases hcommand : t.isCommand with
  | true =>
    refine .look (isFrozen_apply m') (.look (meaning?_apply t m') ?_)
    split
    -- The primitive that ends the name is a control sequence of the input, which pays for the
    -- name as a text.
    · rename_i hdone
      simp only [Bool.and_eq_true, beq_iff_eq] at hdone
      have ht : t ≠ .frozenRelax := by
        rintro rfl
        simp [meaningIn, Meaning.relax] at hdone
      have hburden := Machine.burden_le_of_costWith_le hcost hcommand ht
      have hcredit := m₀.credit_le
      refine .pure ⟨?_, ((m'.cost_le_costWith _).trans hcost).trans hle⟩
      rw [weight_text_listText, codes_reverse]
      unfold Machine.weight at hname hburden
      omega
    · exact .refuse _ _ _ _
  | false =>
    have ht : t ≠ .frozenRelax := by
      rintro rfl
      contradiction
    have hlt := (m'.cost_lt_costWith ht).trans_le hcost
    refine .pure ⟨⟨?_, hlt.le.trans hle⟩, hlt⟩
    have hcode := t.weight_code_le
    have hweight : (m'.feed [t]).weight ≤ m.weight := Machine.weight_le_of_cost_le hcost
    rw [Machine.weight_feed_char m' hcommand] at hweight
    rw [codes_cons]
    have hsame : weight.code t.code = t.code.weight := rfl
    omega

/-! ## What \the gives -/

/-- A token that denotes a quantity is the name of this quantity. -/
theorem eq_cs_of_quantity? (hm : m.Pristine) {t : Token}
    {μ : Meaning} {k : ValueKind} (h : quantity? t m = .ok (some (μ, k)) m) :
    t = .cs μ.name := by
  rw [quantity?_apply] at h
  injection h with h
  split at h
  · contradiction
  · cases hmeaning : meaningIn m.env t with
    | none => simp [hmeaning] at h
    | some ν =>
      rw [hmeaning] at h
      simp only [Option.bind_some, Option.map_eq_some_iff, Prod.mk.injEq] at h
      obtain ⟨k', hk, rfl, -⟩ := h
      refine (hm.env.eq_cs_of_meaningIn hmeaning ?_).1
      rintro rfl
      contradiction

theorem theTokens_halts (h : Partners strict x y) (m : Machine) :
    Halts (fun n => (x n).theTokens) (fun n => (y n).theTokens) m fun ts m' =>
      weight.tokens ts + m'.burden < m.burden + 16 ∧ m'.cost ≤ m.cost := by
  refine (next?_costs h m).required fun t m' hcost => .of_pristine fun hm' => ?_
  have hle := (m'.cost_le_costWith (some t)).trans hcost
  -- The token is a control sequence of the input, and its name may be paid with.
  have hburden : ∀ name, t = .cs name → 16 + weight.text name + m'.burden ≤ m.burden :=
    fun name ht => Machine.burden_le_of_name (ht ▸ hcost)
  obtain ⟨q?, hq⟩ : ∃ q?, quantity? t m' = .ok q? m' := ⟨_, quantity?_apply t m'⟩
  refine .look hq ?_
  split
  · rename_i μ k
    have hburden := hburden _ (eq_cs_of_quantity? hm' hq)
    refine (resolve_halts h μ m').bind fun cell m'' hm'' hcell =>
      .aside (read_same cell m'') fun v m₃ hread hsame => .pure ⟨?_, ?_⟩
    · have hweight := Machine.weight_le_of_cost_le (hsame.cost_eq.trans_le hcell.2)
      have hcredit := m'.credit_le
      rw [hm''.weight_tokens hcell.1 hread]
      unfold Machine.weight at hweight
      omega
    · exact (hsame.cost_eq.trans_le hcell.2).trans hle
  -- A font is shown as a control sequence, and only the null font is there to be shown.
  · have hnull : weight.tokens [Token.cs Font.null.id] = 34 := by decide
    have hresult : ∀ ν : Meaning, meaningIn m'.env t = some ν → ν ≠ Meaning.relax →
        18 < 16 + weight.text ν.name →
        weight.tokens [Token.cs Font.null.id] + m'.burden < m.burden + 16 := by
      intro ν hν hrelax hname
      have hburden := hburden _ (hm'.env.eq_cs_of_meaningIn hν hrelax).1
      omega
    refine .look (isFrozen_apply m') ?_
    split
    · exact .look rfl (.refuse _ _ _ _)
    · refine .look (meaning?_apply t m') ?_
      dsimp only
      split
      · rename_i f hf
        have hfont := hm'.env.eq_null_of_meaningIn hf
        rw [hfont] at hf ⊢
        exact .pure ⟨hresult _ hf (by simp [Meaning.relax]) (by decide), hle⟩
      · rename_i hfont
        refine .look (env_apply m') ?_
        rw [hm'.env.font]
        exact .pure ⟨hresult _ hfont (by simp [Meaning.relax]) (by decide), hle⟩
      · exact .refuse _ _ _ _

/-! ## Expanded texts -/

/-- An item has been taken from the input, or it has become lighter. -/
theorem expandItem_halts (h : Partners true x y) {m₀ : Machine} {t : Token}
    (htakes : m₀.Takes t m) :
    Halts (fun n => (x n).expandItem t) (fun n => (y n).expandItem t) m fun _ m' =>
      m'.span < m₀.span := by
  have hplain : Halts (fun _ => (pure .plain : Eng TextItem)) (fun _ => pure .plain) m
      fun _ m' => m'.span < m₀.span := .pure htakes.span_lt
  refine .of_pristine fun hm => .look (isFrozen_apply m) ?_
  split
  · exact hplain
  · refine .look (meaning?_apply t m) ?_
    have hexpand : ∀ μ, meaningIn m.env t = some μ → μ.isExpandable = true →
        Halts (fun n => (do (x n).expand μ t; return .expanded : Eng TextItem))
          (fun n => (do (y n).expand μ t; return .expanded : Eng TextItem)) m
          fun _ m' => m'.span < m₀.span := by
      intro μ hμ hexpandable
      have hrelax : μ ≠ Meaning.relax := by
        rintro rfl
        contradiction
      obtain ⟨ht, hμ⟩ := meaning?_of_meaningIn hμ hrelax
      refine (h.expand hμ hexpandable ht).bind fun _ m' _ hexpanded => .pure ?_
      -- Within the argument of a command nothing is given back, since that raises an alarm.
      cases hexpanded with
      | lighter hlt =>
        have hweight := Machine.weight_le_of_cost_le htakes.cost_feed_le
        exact Machine.span_lt_of_cost_lt (Machine.cost_lt_of_weight_lt (hlt.trans_le hweight))
      | givenBack hstrict => contradiction
    split
    · rename_i hthe
      obtain ⟨ht, -⟩ := meaning?_of_meaningIn hthe (by simp [Meaning.relax])
      refine (theTokens_halts h m).bind fun ts m' _ hts => .pure ?_
      have hlt := (m.cost_lt_feed ht).trans_le htakes.cost_feed_le
      exact Machine.span_lt_of_cost_lt (hts.2.trans_lt hlt)
    · rename_i d hd
      have hprimitive := (hm.env.eq_cs_of_meaningIn hd (by simp [Meaning.relax])).2
      exact absurd hprimitive (Meaning.defined_not_mem_primitives d)
    · rename_i μ _ _ hμ
      split
      · exact hexpand μ hμ ‹_›
      · exact hplain
    · exact hplain

theorem expandBalanced_halts (h : Partners true x y) (m : Machine) :
    Halts (fun n => (x n).expandBalanced) (fun n => (y n).expandBalanced) m fun _ _ => True := by
  refine Halts.iterate h.fuel_left h.fuel_right (I := fun _ _ => True) (fun _ m => m.span)
    (fun s m _ => ?_) True.intro
  refine .token (fun m' _ => .expect fun t ht => nomatch ht) fun t m' _ htakes =>
    .expect fun u hu => ?_
  cases hu
  refine (expandItem_halts h htakes).bind fun item m'' _ hlt => ?_
  cases item with
  | final ts => exact .pure ⟨True.intro, hlt⟩
  | expanded => exact .pure ⟨True.intro, hlt⟩
  | plain =>
    dsimp only
    split
    · exact .pure True.intro
    · exact .pure ⟨True.intro, hlt⟩

/-! ## File names -/

/-- The rest of a file name that begins with the token `t`. -/
def fileNameFrom (x : Expander) (t : Token) : Eng String := do
  if t.hasCat .beginGroup then return TokenList.plain none (← x.expandBalanced)
  iterate (fun (t, name) => do
    if !t.isChar || t.hasCat .space || (← isFrozen) then
      unless t.hasCat .space do push [t]
      return .done (CharCode.listText name.reverse)
    else
      match ← x.next? with
      | some t' => return .again (t', t.code :: name)
      | none => return .done (CharCode.listText (t.code :: name).reverse))
    x.fuel (t, ([] : List CharCode))

theorem scanFileName_eq (x : Expander) : x.scanFileName = (do
    let t ← expect (← x.nextNonSpace?) .fileNotFound []
    x.fileNameFrom t) := rfl

theorem fileNameFrom_halts (h : Partners strict x y) {t : Token}
    (hstrict : t.hasCat .beginGroup = true → strict = true) (m : Machine) :
    Halts (fun n => (x n).fileNameFrom t) (fun n => (y n).fileNameFrom t) m fun _ _ => True := by
  unfold fileNameFrom
  split
  · rename_i hbrace
    rw [hstrict hbrace] at h
    exact (expandBalanced_halts h m).bind fun ts m' _ _ => .pure True.intro
  -- Every character of the name has been taken out of the input.
  · refine .look rfl (Halts.iterate h.fuel_left h.fuel_right (I := fun _ _ => True)
      (fun s m => m.costWith (some s.1)) (fun s m _ => ?_) True.intro)
    obtain ⟨t, name⟩ := s
    refine .look (isFrozen_apply m) ?_
    split
    · split
      · exact .pure True.intro
      · exact .push (by simp) (.pure True.intro)
    · rename_i hchar
      have ht : t ≠ .frozenRelax := by
        rintro rfl
        simp [Token.isChar] at hchar
      refine (next?_costs h m).bind fun t? m' _ hcost => ?_
      cases t? with
      | some u => exact .pure ⟨True.intro, hcost.trans_lt (m.cost_lt_costWith ht)⟩
      | none => exact .pure True.intro

end Expander

end TexEngine
