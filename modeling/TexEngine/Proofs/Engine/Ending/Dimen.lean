/-
  TexEngine.Proofs.Engine.Ending.Dimen

  Scanning keywords and lengths ends.  A keyword that is not there is put back; what has
  been read of it are characters, so that it costs no more than before, whatever has been
  expanded behind them.
-/
import TexEngine.Proofs.Engine.Ending.Scan

namespace TexEngine

open Eng

theorem Halts.arith {α β : Type} {m : Machine} {R : β → Machine → Prop} (e : Except ArithFault α)
    {F G : Nat → α → Eng β} (h : ∀ a, Halts (F · a) (G · a) m R) :
    Halts (fun n => Eng.arith e >>= F n) (fun n => Eng.arith e >>= G n) m R := by
  cases e with
  | ok a => exact .look rfl (h a)
  | error f => exact .error_bind rfl (by simp)

namespace Expander

variable {strict : Bool} {x y : Nat → Expander} {m : Machine} {c : ℕ ×ₗ ℕ}

/-! ## Keywords -/

theorem scanKeyword_halts (h : Partners strict x y) (keyword : String) (m₀ : Machine) :
    Halts (fun n => (x n).scanKeyword keyword) (fun n => (y n).scanKeyword keyword) m₀
      fun _ m' => m'.cost ≤ m₀.cost := by
  -- The loop keeps the letters that it has seen.  With them in front, the rest of the input never
  -- costs more than at the beginning, and without them it gets cheaper in each round.
  refine Halts.iterate h.fuel_left h.fuel_right
    (I := fun s m => (∀ t ∈ s.2.2.reverse, t.isCommand = false) ∧
      (m.feed s.2.2.reverse).cost ≤ m₀.cost)
    (fun _ m => m.cost) (fun s m hI => ?_) ⟨by simp, (m₀.cost_feed_nil).le⟩
  obtain ⟨wanted, started, seen⟩ := s
  obtain ⟨hchars, hseen⟩ := hI
  cases wanted with
  | nil => exact .pure ((m.cost_le_feed_all _).trans hseen)
  | cons k ks =>
    refine (next?_costs h m).bind fun t? m' _ hcost => ?_
    cases t? with
    | none =>
      refine .push_any fun m'' hm'' => .pure ?_
      exact hm''.le.trans ((Machine.cost_feed_chars_le hchars hcost).trans hseen)
    | some t =>
      have hback : (m'.feed (t :: seen).reverse).cost ≤ m₀.cost := by
        have hle : ((m'.feed [t]).feed seen.reverse).cost ≤ (m.feed seen.reverse).cost :=
          Machine.cost_feed_chars_le hchars hcost
        rw [Machine.feed_feed, ← List.reverse_cons] at hle
        exact hle.trans hseen
      -- A character that may belong to the keyword is kept, and what follows costs less.
      have hagain : t.isCommand = false →
          ((∀ u ∈ (t :: seen).reverse, u.isCommand = false) ∧
            (m'.feed (t :: seen).reverse).cost ≤ m₀.cost) ∧ m'.cost < m.cost := by
        intro ht
        refine ⟨⟨?_, hback⟩, ?_⟩
        · intro u hu
          rw [List.reverse_cons, List.mem_append, List.mem_singleton] at hu
          exact hu.elim (hchars u) fun hut => hut ▸ ht
        · have hne : t ≠ .frozenRelax := by
            rintro rfl
            contradiction
          exact (m'.cost_lt_costWith hne).trans_le hcost
      dsimp only
      split
      · rename_i hletter
        refine .pure (hagain ?_)
        simp only [Bool.and_eq_true, Bool.not_eq_true'] at hletter
        obtain ⟨⟨hchar, hactive⟩, -⟩ := hletter
        cases t <;> simp_all [Token.isCommand, Token.isCs, Token.isChar]
      · split
        · rename_i hspace
          refine .pure (hagain ?_)
          simp only [Bool.and_eq_true] at hspace
          cases t with
          | char k cat =>
            have hcat : cat = .space := by simpa [Token.hasCat] using hspace.2
            rw [hcat]
            rfl
          | _ => simp [Token.hasCat] at hspace
        · exact .push (by simp) (.pure hback)

/-! ## Decimal numbers -/

theorem ne_frozenRelax_of_isDecimalPoint {t : Token} (h : isDecimalPoint t = true) :
    t ≠ .frozenRelax := by
  rintro rfl
  contradiction

/-- How a round of `scanDecimal` ends; `p?` is the number with the token `t`, if this is
    part of it. -/
def decimalRound (x : Expander) (p : DecimalPart) (t : Token) (p? : Option DecimalPart) :
    Eng (Step (DecimalPart × Token) DecimalPart) := do
  match p? with
  | none =>
    unless t.hasCat .space do push [t]
    return .done p
  | some p =>
    match ← x.next? with
    | some t => return .again (p, t)
    | none => return .done p

theorem decimalRound_halts (h : Partners strict x y) (p : DecimalPart) {t : Token}
    {p? : Option DecimalPart} (hp : p? ≠ none → t ≠ .frozenRelax)
    (hm : m.costWith (some t) ≤ c) :
    Halts (fun n => decimalRound (x n) p t p?) (fun n => decimalRound (y n) p t p?) m
      (Halts.Round (fun s m' => m'.costWith (some s.2) < c) fun _ m' => m'.cost ≤ c) := by
  cases p? with
  | none =>
    unfold decimalRound
    dsimp only
    split
    · exact .pure ((m.cost_le_costWith _).trans hm)
    · exact .push (by simp) (.pure hm)
  | some p' =>
    have hlt := (m.cost_lt_costWith (hp (by simp))).trans_le hm
    refine (next?_costs h m).bind fun t? m' _ hcost => ?_
    cases t? with
    | none => exact .pure (hcost.trans hlt.le)
    | some u => exact .pure (hcost.trans_lt hlt)

theorem scanDecimal_halts (h : Partners strict x y) (t : Token) (hm : m.costWith (some t) ≤ c) :
    Halts (fun n => (x n).scanDecimal t) (fun n => (y n).scanDecimal t) m
      fun _ m' => m'.cost ≤ c := by
  refine (Halts.iterate h.fuel_left h.fuel_right (Q := fun _ m' => m'.cost ≤ c)
    (I := fun s m => m.costWith (some s.2) ≤ c) (fun s m => m.costWith (some s.2)) ?_ hm).bind
    fun p m' _ hcost => .observe fun m'' hsame => .pure (hsame.cost_eq.trans_le hcost)
  -- A round that goes on has used its token up, which makes the rest cheaper.
  rintro ⟨p, t⟩ m hI
  have hrest : ∀ p? m', m.Same m' → (p? ≠ none → t ≠ .frozenRelax) →
      Halts (fun n => decimalRound (x n) p t p?) (fun n => decimalRound (y n) p t p?) m'
        (Halts.Round (fun s m'' => m''.costWith (some s.2) ≤ c ∧
          m''.costWith (some s.2) < m.costWith (some t)) fun _ m'' => m''.cost ≤ c) := by
    intro p? m' hsame hp
    refine (decimalRound_halts h p hp (hsame.costWith_eq (some t)).le).mono fun r m'' _ hr => ?_
    cases r with
    | again s => exact ⟨hr.le.trans hI, hr⟩
    | done p => exact hr.trans hI
  have hstop : ∀ p? : Option DecimalPart, p? = none ∨ isDecimalPoint t = true →
      Halts (fun n => decimalRound (x n) p t p?) (fun n => decimalRound (y n) p t p?) m
        (Halts.Round (fun s m'' => m''.costWith (some s.2) ≤ c ∧
          m''.costWith (some s.2) < m.costWith (some t)) fun _ m'' => m''.cost ≤ c) := by
    intro p? hp
    refine hrest p? m ⟨rfl, rfl, rfl⟩ fun hne => ?_
    exact ne_frozenRelax_of_isDecimalPoint (hp.resolve_left hne)
  have hplain : Halts
      (fun n => if !p.inFraction && isDecimalPoint t then
        decimalRound (x n) p t (some { p with inFraction := true })
        else decimalRound (x n) p t none)
      (fun n => if !p.inFraction && isDecimalPoint t then
        decimalRound (y n) p t (some { p with inFraction := true })
        else decimalRound (y n) p t none) m
      (Halts.Round (fun s m'' => m''.costWith (some s.2) ≤ c ∧
        m''.costWith (some s.2) < m.costWith (some t)) fun _ m'' => m''.cost ≤ c) := by
    split
    · rename_i hpoint
      rw [Bool.and_eq_true] at hpoint
      exact hstop _ (.inr hpoint.2)
    · exact hstop _ (.inl rfl)
  refine .look (isFrozen_apply m) ?_
  cases hdigit : digit? t 10 with
  | none => exact hplain
  | some d =>
    have ht := ne_frozenRelax_of_digit? hdigit
    cases m.frozen with
    | true => exact hplain
    | false =>
      dsimp only
      split
      · exact hrest (some _) m ⟨rfl, rfl, rfl⟩ fun _ => ht
      · refine .observe fun m' hsame => ?_
        split
        · exact .error_bind rfl (by simp)
        · exact hrest (some _) m' hsame fun _ => ht

/-! ## Units -/

theorem fontUnit_halts (integer frac : Int64) (k : Int) (hm : m.cost ≤ c) :
    Halts (fun _ => some <$> scanInternalUnit.fontUnit integer frac k)
      (fun _ => some <$> scanInternalUnit.fontUnit integer frac k) m fun _ m' => m'.cost ≤ c := by
  refine .map (Q := fun _ m' => m'.cost ≤ c) ?_ fun _ _ hcost => hcost
  refine .look (env_apply m) (.observe fun m' hsame => ?_)
  have hcost := hsame.cost_eq.trans_le hm
  cases Dimen.fraction integer frac (m.env.fonts.param m.env.font k) with
  | ok d => exact .pure hcost
  | error f => exact .error rfl (by simp)

theorem scanInternalUnit_halts (h : Partners strict x y) (integer frac : Int64) (m : Machine) :
    Halts (fun n => (x n).scanInternalUnit integer frac)
      (fun n => (y n).scanInternalUnit integer frac) m fun _ m' => m'.cost ≤ m.cost := by
  refine (nextNonSpace?_halts h m).bind fun t? m' _ hcost => ?_
  cases t? with
  | none => exact .pure hcost
  | some t =>
    obtain ⟨q?, hq⟩ : ∃ q?, quantity? t m' = .ok q? m' := ⟨_, quantity?_apply t m'⟩
    refine .look hq ?_
    split
    · rename_i μ k _
      have hle := (m'.cost_le_costWith (some t)).trans hcost
      refine (resolve_halts h μ m').bind fun cell m'' _ hcell =>
        .aside (read_same cell m'') fun v m₃ _ hsame => .observe fun m₄ hsame' => .arith _ fun d =>
          .pure ?_
      rw [hsame'.cost_eq, hsame.cost_eq]
      exact hcell.2.trans hle
    · refine .push (by simp) ((scanKeyword_halts h "em" _).bind fun isEm m'' _ hcost' => ?_)
      have hle := hcost'.trans hcost
      split
      · exact fontUnit_halts integer frac 6 hle
      · refine (scanKeyword_halts h "ex" _).bind fun isEx m₃ _ hcost'' => ?_
        split
        · exact fontUnit_halts integer frac 5 (hcost''.trans hle)
        · exact .pure (hcost''.trans hle)

theorem scanPhysicalUnit_halts (h : Partners strict x y) (us : List Dimen.PhysicalUnit)
    (m : Machine) :
    Halts (fun n => (x n).scanPhysicalUnit us) (fun n => (y n).scanPhysicalUnit us) m
      fun _ m' => m'.cost ≤ m.cost := by
  induction us generalizing m with
  | nil => exact .pure (le_refl _)
  | cons u us ih =>
    refine (scanKeyword_halts h u.keyword m).bind fun isThere m' _ hcost => ?_
    split
    · exact .pure hcost
    · exact (ih m').mono fun _ m'' _ hcost' => hcost'.trans hcost

/-- Reads a physical unit as it is. -/
def scanUnmagnifiedUnit (x : Expander) (integer frac : Int64) : Eng Dimen := do
  match ← x.scanPhysicalUnit Dimen.PhysicalUnit.all with
  | some u =>
    observe (Dimen.scaleUnitFits integer frac u)
    arith (Dimen.scaleUnit integer frac u)
  | none =>
    if ← x.scanKeyword "sp" then
      if integer > Dimen.max then fail .dimenTooLarge [] else return integer
    else fail .illegalUnit []

theorem scanUnmagnifiedUnit_halts (h : Partners strict x y) (integer frac : Int64)
    (hm : m.cost ≤ c) :
    Halts (fun n => scanUnmagnifiedUnit (x n) integer frac)
      (fun n => scanUnmagnifiedUnit (y n) integer frac) m fun _ m' => m'.cost ≤ c := by
  refine (scanPhysicalUnit_halts h _ m).bind fun u? m' _ hcost => ?_
  cases u? with
  | some u =>
    refine .observe fun m'' hsame => ?_
    cases Dimen.scaleUnit integer frac u with
    | ok d => exact .pure ((hsame.cost_eq.trans_le hcost).trans hm)
    | error f => exact .error rfl (by simp)
  | none =>
    refine (scanKeyword_halts h "sp" m').bind fun isSp m'' _ hcost' => ?_
    split
    · split
      · exact .fail _ _
      · exact .pure ((hcost'.trans hcost).trans hm)
    · exact .fail _ _

theorem scanTrueUnit_halts (h : Partners strict x y) (integer frac : Int64) (m : Machine) :
    Halts (fun n => (x n).scanTrueUnit integer frac) (fun n => (y n).scanTrueUnit integer frac) m
      fun _ m' => m'.cost ≤ m.cost := by
  refine (scanKeyword_halts h "true" m).bind fun isTrue m' _ hcost => ?_
  cases isTrue with
  | false => exact scanUnmagnifiedUnit_halts h integer frac hcost
  | true =>
    refine .look (env_apply m') (.observe fun m'' hsame => .arith _ fun scaled => ?_)
    exact scanUnmagnifiedUnit_halts h scaled.1 scaled.2 (hsame.cost_eq.trans_le hcost)

theorem scanUnits_halts (h : Partners strict x y) (neg : Bool) (integer frac : Int64)
    (hm : m.cost ≤ c) :
    Halts (fun n => (x n).scanUnits neg integer frac false)
      (fun n => (y n).scanUnits neg integer frac false) m fun _ m' => m'.cost ≤ c := by
  -- Behind the unit, all units are treated alike.
  have hrest : ∀ (g : GlueComponent) {m' : Machine}, m'.cost ≤ c →
      Halts
        (fun n => (do
          (x n).skipOptionalSpace
          observe (!neg || Word.negFits g.value)
          let g := if neg then { g with value := -g.value } else g
          arith (Dimen.check g.value)
          return g : Eng GlueComponent))
        (fun n => (do
          (y n).skipOptionalSpace
          observe (!neg || Word.negFits g.value)
          let g := if neg then { g with value := -g.value } else g
          arith (Dimen.check g.value)
          return g : Eng GlueComponent)) m' fun _ m'' => m''.cost ≤ c := by
    intro g m' hm'
    refine (skipOptionalSpace_halts h m').bind fun _ m'' _ hcost => .observe fun m₃ hsame =>
      .arith _ fun _ => .pure ?_
    exact (hsame.cost_eq.trans_le hcost).trans hm'
  refine .look rfl ((scanInternalUnit_halts h integer frac m).bind fun d? m' _ hcost => ?_)
  cases d? with
  | some d => exact hrest ⟨d, 0⟩ (hcost.trans hm)
  | none =>
    refine (scanTrueUnit_halts h integer frac m').bind fun d m'' _ hcost' => ?_
    exact hrest ⟨d, 0⟩ ((hcost'.trans hcost).trans hm)

/-! ## Lengths -/

theorem scanUnsigned_halts (h : Partners strict x y) (t : Token) (hm : m.costWith (some t) ≤ c) :
    Halts (fun n => (x n).scanUnsigned t) (fun n => (y n).scanUnsigned t) m
      fun _ m' => m'.cost ≤ c :=
  unsignedWith_halts h t hm fun _ => scanInteger_halts h m

theorem scanDimenFrom_halts (h : Partners strict x y) (neg : Bool) (t : Token)
    (hm : m.costWith (some t) ≤ c) :
    Halts (fun n => (x n).scanDimenFrom neg t false) (fun n => (y n).scanDimenFrom neg t false) m
      fun _ m' => m'.cost ≤ c := by
  have hle := (m.cost_le_costWith (some t)).trans hm
  -- The sign of a number that was read from a quantity joins those in front of it.
  have hunits : ∀ (integer frac : Int64) {m' : Machine}, m'.cost ≤ c →
      Halts
        (fun n => (if integer < 0 then do
            observe (Word.negFits integer)
            (x n).scanUnits (!neg) (-integer) frac false
          else (x n).scanUnits neg integer frac false : Eng GlueComponent))
        (fun n => (if integer < 0 then do
            observe (Word.negFits integer)
            (y n).scanUnits (!neg) (-integer) frac false
          else (y n).scanUnits neg integer frac false : Eng GlueComponent)) m'
        fun _ m'' => m''.cost ≤ c := by
    intro integer frac m' hm'
    split
    · exact .observe fun m'' hsame => scanUnits_halts h _ _ _ (hsame.cost_eq.trans_le hm')
    · exact scanUnits_halts h _ _ _ hm'
  obtain ⟨q?, hq⟩ : ∃ q?, quantity? t m = .ok q? m := ⟨_, quantity?_apply t m⟩
  refine .look hq ?_
  split
  · rename_i μ k
    refine (resolve_halts h μ m).bind fun cell m' _ hcell =>
      .aside (read_same cell m') fun v m'' _ hsame => ?_
    have hcost' := (hsame.cost_eq.trans_le hcell.2).trans hle
    split
    · exact hunits _ _ hcost'
    · exact .failAt _ _ _
    · exact .observe fun m₃ hsame' => .pure (hsame'.cost_eq.trans_le hcost')
  · split
    · exact (scanDecimal_halts h t hm).bind fun r m' _ hcost => hunits r.1 r.2 hcost
    · exact (scanUnsigned_halts h t hm).bind fun v m' _ hcost => hunits v 0 hcost

theorem scanDimen_halts (h : Partners strict x y) (m : Machine) :
    Halts (fun n => (x n).scanDimen) (fun n => (y n).scanDimen) m fun _ m' =>
      m'.cost ≤ m.cost := by
  refine (scanSigns_halts h m).bind fun r m' _ hcost => ?_
  exact (scanDimenFrom_halts h r.1 r.2 hcost).bind fun g m'' _ hcost' => .pure hcost'

end Expander

end TexEngine
